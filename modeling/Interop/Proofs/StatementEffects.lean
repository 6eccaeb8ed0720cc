import Interop.Binding.Snippet
import Interop.Proofs.EnsuredSteps

/-!
# Expressions as statements

C# takes assignments, calls and increments as statements, and any other value if it is assigned to a
discard. `emitted_effects_legal_iff` says when an expression that is evaluated for its effect becomes one
of these, wherever it stands in a body. Such an effect may also be lost on the way: a conversion to a null
pointer is written without what it converts (`null_conversion_drops_call`).
-/

namespace Interop

def UnaryOp.isIncrement : UnaryOp → Bool
  | .preInc | .preDec | .postInc | .postDec => true
  | _ => false

/-- An expression that is evaluated for what it does. -/
def Native.ExprKind.isEffect : Native.ExprKind → Bool
  | .unary op _ => op.isIncrement
  | .binary op _ _ => op.isAssignment
  | .call _ _ => true
  | _ => false

def Managed.Expr.isEffect : Managed.Expr → Bool
  | .unary op _ => op.isIncrement
  | .binary op _ _ => op.isAssignment
  | .call _ _ => true
  | _ => false

end Interop

namespace Interop.Binding

open Native (Ast ExprId StmtId)
open Emit
open Managed (Effect)

/-- The statement evaluates an expression for its effect, itself or in a statement inside it. -/
inductive Performs (effect : Effect) : Managed.Stmt → Prop
  | alone : Performs effect (.effect effect)
  | inReturn : Performs effect (.effectThenReturn effect)
  | inInit {cond step body} : Performs effect (.forLoop (.effect effect) cond step body)
  | inStep {init cond body} : Performs effect (.forLoop init cond (some effect) body)
  | block : s ∈ body → Performs effect s → Performs effect (.block body)
  | arm : arm ∈ arms → s ∈ arm.2 → Performs effect s → Performs effect (.branch arms other)
  | otherwise : s ∈ body → Performs effect s → Performs effect (.branch arms (some body))
  | whileLoop {cond} : s ∈ body → Performs effect s → Performs effect (.whileLoop cond body)
  | doLoop {cond} : s ∈ body → Performs effect s → Performs effect (.doLoop body cond)
  | forLoop {init cond step} : s ∈ body → Performs effect s → Performs effect (.forLoop init cond step body)
  | switch : part ∈ parts → s ∈ part.2 → Performs effect s → Performs effect (.switch value parts)

variable {env : Env} {scope : Scope} {effect : Effect}

theorem Performs.of_prependArm {cond : Managed.Expr} (h : Performs effect (prependArm cond body other)) :
    (∃ s ∈ body, Performs effect s) ∨ Performs effect other := by
  unfold prependArm at h
  split at h
  · cases h with
    | arm harm hs h =>
      rcases List.mem_cons.mp harm with rfl | harm
      · exact .inl ⟨_, hs, h⟩
      · exact .inr (.arm harm hs h)
    | otherwise hs h => exact .inr (.otherwise hs h)
  · cases h with
    | arm harm hs h =>
      obtain rfl := List.mem_singleton.mp harm
      exact .inl ⟨_, hs, h⟩
    | otherwise hs h => exact .inr (List.mem_singleton.mp hs ▸ h)

/-! ## One expression -/

/-- The value that is thrown away where an expression is a statement: the operand of a conversion to
`void`, or the expression itself unless it is an effect. -/
def Discards (ast : Ast) (id discarded : ExprId) : Prop :=
  ∃ inner e, ignoreParensFrom ast ast.exprs.size id = some inner ∧ ast.expr? inner = some e ∧
    match e.kind with
    | .explicitCast _ .toVoid operand => discarded = operand
    | .implicitCast .toVoid operand => discarded = operand
    | kind => discarded = id ∧ kind.isEffect = false

def HasNoValue (ast : Ast) (id : ExprId) : Prop :=
  ∃ e, ast.expr? id = some e ∧ ast.canonicalKind? e.type = some (.builtin .void)

/-- C# takes the effect as a statement, where the value is that of `id`. -/
def IsLegalEffect (ast : Ast) (effect : Effect) (id : ExprId) : Prop :=
  if effect.discards then ¬ HasNoValue ast id else effect.value.isEffect = true

theorem callRule_isEffect : (callRule parts e callee args).Ensures env imports (·.isEffect = true) := by
  have hindirect : (indirectCall parts callee args e.location).Ensures env imports (·.isEffect = true) :=
    .skip fun _ => .skip fun _ => .skip fun _ => .skip fun _ => .pure rfl
  refine .skip fun inner => .skip fun node => ?_
  split
  · refine .skip fun d => ?_
    split
    · exact .skip fun _ => .skip fun _ => .skip fun _ => .pure rfl
    · exact .skip fun _ => .skip fun _ => .pure rfl
    · exact hindirect
  · refine .skip fun d => ?_
    split
    · refine .skip fun _ => .ite (.skip fun _ => .pure rfl) (.ite ?_ (.skip fun _ => .pure rfl))
      exact .skip fun _ => .skip fun _ => .pure rfl
    · exact hindirect
  · exact hindirect

theorem binaryRule_isEffect (hop : op.isAssignment = true) :
    (binaryRule parts e op lhs rhs).Ensures env imports (·.isEffect = true) := by
  have hlogical : op.isLogical = false ∧ op.isComparison = false := by
    revert hop
    cases op <;> decide
  have hraw : (binaryRaw parts op lhs rhs).Ensures env imports (·.isEffect = true) := by
    refine .ite (.skip fun _ => .skip fun _ => .pure hop) (.skip fun operands => ?_)
    split
    all_goals exact .skip fun _ => .skip fun _ => .pure hop
  refine .ite .unsupported (hraw.bind fun raw h => ?_)
  rw [hlogical.1, hlogical.2]
  exact .pure h

theorem unaryRule_isEffect (hop : op.isIncrement = true) :
    (unaryRule parts e op operand).Ensures env imports (·.isEffect = true) := by
  cases op with
  | preInc | preDec | postInc | postDec => exact .skip fun _ => .skip fun _ => .pure rfl
  | _ => cases hop

theorem isEffect_of_emitValue {id : ExprId} (he : env.ast.expr? id = some e) (hkind : e.kind.isEffect = true)
    (h : (emitValue id).Gives env scope out) : out.isEffect = true := by
  refine (gives_emitValue.mp h).of_ensures (P := (·.isEffect = true)) fun imports =>
    Ensures.exprOf.bind fun node hnode => ?_
  obtain rfl := Option.mem_unique hnode he
  revert hkind
  cases node.kind with
  | unary op operand => exact unaryRule_isEffect
  | binary op lhs rhs => exact binaryRule_isEffect
  | call callee args => exact fun _ => callRule_isEffect
  | _ => exact fun hkind => by cases hkind

theorem not_gives_comma {id : ExprId} (he : env.ast.expr? id = some e) (hkind : e.kind = .binary .comma lhs rhs) :
    ¬ (emitValue id).Gives env scope out := by
  simp [gives_emitValue, partsTo, valueRule, he, hkind, binaryRule]

section

variable {id inner : ExprId} (hinner : ignoreParensFrom env.ast env.ast.exprs.size id = some inner)
  (he : env.ast.expr? inner = some e)

include hinner he

theorem not_discards (hkind : e.kind.isEffect = true) : ¬ Discards env.ast id written := by
  rintro ⟨inner', e', hinner', he', h⟩
  obtain rfl := Option.mem_unique hinner' hinner
  obtain rfl := Option.mem_unique he' he
  split at h
  · simp [*, Native.ExprKind.isEffect] at hkind
  · simp [*, Native.ExprKind.isEffect] at hkind
  · simp [h.2] at hkind

theorem discards_self (hexplicit : ∀ style operand, e.kind ≠ .explicitCast style .toVoid operand)
    (himplicit : ∀ operand, e.kind ≠ .implicitCast .toVoid operand) (hkind : e.kind.isEffect = false) :
    Discards env.ast id id := by
  refine ⟨inner, e, hinner, he, ?_⟩
  split
  · exact absurd ‹_› (hexplicit _ _)
  · exact absurd ‹_› (himplicit _)
  · exact ⟨rfl, hkind⟩

end

/-- What an expression becomes as a statement: an effect, or a value that is thrown away. -/
def Becomes (env : Env) (scope : Scope) (id : ExprId) (effect : Effect) : Prop :=
  ∃ written, (emitValue written).Gives env scope effect.value ∧
    (effect.discards = true ↔ Discards env.ast id written) ∧
      (effect.discards = false → effect.value.isEffect = true)

theorem Becomes.discarded {id written : ExprId} (hdiscards : Discards env.ast id written)
    (h : (do return ⟨true, ← emitValue written⟩ : Emit Effect).Gives env scope effect) :
    Becomes env scope id effect := by
  obtain ⟨value, hvalue, heffect⟩ := gives_bind.mp h
  obtain rfl := gives_pure.mp heffect
  exact ⟨written, hvalue, by simp [hdiscards], by simp⟩

theorem Becomes.kept {id inner : ExprId}
    (hinner : ignoreParensFrom env.ast env.ast.exprs.size id = some inner)
    (he : env.ast.expr? inner = some e) (hkind : e.kind.isEffect = true)
    (h : (do return ⟨false, ← emitValue inner⟩ : Emit Effect).Gives env scope effect) :
    Becomes env scope id effect := by
  obtain ⟨value, hvalue, heffect⟩ := gives_bind.mp h
  obtain rfl := gives_pure.mp heffect
  refine ⟨inner, hvalue, ?_, fun _ => isEffect_of_emitValue he hkind hvalue⟩
  simpa using not_discards hinner he hkind

theorem becomes_of_effectOf {id : ExprId} (h : (effectOf id).Gives env scope effect) :
    Becomes env scope id effect := by
  obtain ⟨inner, hinner, h⟩ := gives_bind.mp h
  obtain ⟨e, he, h⟩ := gives_bind.mp h
  rw [gives_ignoreParens] at hinner
  rw [gives_exprOf] at he
  split at h
  case h_1 hkind => exact .discarded ⟨inner, e, hinner, he, by rw [hkind]⟩ h
  case h_2 hkind => exact .discarded ⟨inner, e, hinner, he, by rw [hkind]⟩ h
  case h_3 op lhs rhs hkind =>
    split at h
    · rename_i hop
      rcases Bool.or_eq_true_iff.mp hop with hassign | hcomma
      · exact .kept hinner he (by rw [hkind]; exact hassign) h
      · obtain ⟨value, hvalue, -⟩ := gives_bind.mp h
        rw [of_decide_eq_true hcomma] at hkind
        exact absurd hvalue (not_gives_comma he hkind)
    · rename_i hop
      have hassign : op.isAssignment = false := by
        simpa using (Bool.or_eq_false_iff.mp (Bool.eq_false_iff.mpr hop)).1
      exact .discarded (discards_self hinner he (by simp [hkind]) (by simp [hkind]) (by rw [hkind]; exact hassign)) h
  case h_4 hkind => exact .kept hinner he (by rw [hkind]; rfl) h
  case h_5 op operand hkind =>
    cases op with
    | preInc | preDec | postInc | postDec => exact .kept hinner he (by rw [hkind]; rfl) h
    | _ => exact .discarded (discards_self hinner he (by simp [hkind]) (by simp [hkind]) (by rw [hkind]; rfl)) h
  case h_6 hexplicit himplicit hbinary hcall hunary =>
    refine .discarded (discards_self hinner he hexplicit himplicit ?_) h
    cases hk : e.kind with
    | binary => exact absurd hk (hbinary _ _ _)
    | call => exact absurd hk (hcall _ _)
    | unary => exact absurd hk (hunary _ _)
    | _ => rfl

/-! ## Whole bodies -/

/-- Every effect of the statement is what some expression becomes. -/
def Explained (env : Env) (scope : Scope) (s : Managed.Stmt) : Prop :=
  ∀ effect, Performs effect s → ∃ id, (effectOf id).Gives env scope effect

theorem exists_of_forInitOf (h : (forInitOf init).Gives env scope (.effect effect)) :
    ∃ id, (effectOf id).Gives env scope effect := by
  cases init with
  | none => simp [forInitOf] at h
  | some init =>
    obtain ⟨s, -, h⟩ := gives_bind.mp h
    split at h
    · obtain ⟨groups, -, h⟩ := gives_bind.mp h
      split at h <;> simp at h
    · obtain ⟨e, he, h⟩ := gives_bind.mp h
      obtain rfl := Managed.ForInit.effect.inj (gives_pure.mp h)
      exact ⟨_, he⟩
    · simp at h
    · simp at h

theorem exists_of_optional {f : α → Emit β} (h : (optional f part).Gives env scope (some b)) :
    ∃ a, (f a).Gives env scope b := by
  cases part with
  | none => simp [optional] at h
  | some a =>
    obtain ⟨b', hb, h⟩ := gives_bind.mp h
    obtain rfl := Option.some.inj (gives_pure.mp h)
    exact ⟨a, hb⟩

theorem explained_ret {value : Option Managed.Expr} : Explained env scope (.ret value) :=
  fun effect hperforms => by cases hperforms

theorem explained_returnRule (h : (returnRule s value).Gives env scope out) : Explained env scope out := by
  obtain ⟨current, -, h⟩ := gives_bind.mp h
  generalize current.returnType = returnType at h
  cases returnType with
  | none =>
    obtain ⟨returnsVoid, hvoid, h⟩ := gives_bind.mp h
    obtain rfl := gives_pure.mp hvoid
    cases value with
    | none => exact gives_pure.mp h ▸ explained_ret
    | some value =>
      obtain ⟨e, -, h⟩ := gives_bind.mp h
      exact gives_pure.mp h ▸ explained_ret
  | some type =>
    obtain ⟨returnsVoid, -, h⟩ := gives_bind.mp h
    cases value with
    | none =>
      dsimp only at h
      split at h
      · exact gives_pure.mp h ▸ explained_ret
      · simp at h
    | some value =>
      dsimp only at h
      split at h
      · obtain ⟨e, he, h⟩ := gives_bind.mp h
        obtain rfl := gives_pure.mp h
        rintro effect ⟨⟩
        exact ⟨_, he⟩
      · obtain ⟨isReference, -, h⟩ := gives_bind.mp h
        split at h
        all_goals
          obtain ⟨e, -, h⟩ := gives_bind.mp h
          exact gives_pure.mp h ▸ explained_ret

theorem explained_branch {cond : Managed.Expr} (hbody : ∀ s ∈ body, Explained env scope s)
    (hother : ∀ other ∈ otherwise, ∀ s ∈ other, Explained env scope s) :
    Explained env scope (.branch [(cond, body)] otherwise) := by
  intro effect hperforms
  cases hperforms with
  | arm harm hs hperforms =>
    obtain rfl := List.mem_singleton.mp harm
    exact hbody _ hs effect hperforms
  | otherwise hs hperforms => exact hother _ rfl _ hs effect hperforms

section

variable {nested : Nested} (hnested : ∀ id s, (nested id).Gives env scope s → Explained env scope s)

include hnested

theorem explained_statementsOf (h : (statementsOf nested ids).Gives env scope body) :
    ∀ s ∈ body, Explained env scope s := by
  induction ids generalizing body with
  | nil =>
    obtain rfl := gives_pure.mp h
    exact List.forall_mem_nil _
  | cons id rest ih =>
    obtain ⟨isEmpty, -, h⟩ := gives_bind.mp h
    split at h
    · exact ih h
    · obtain ⟨s, hs, h⟩ := gives_bind.mp h
      obtain ⟨tail, htail, h⟩ := gives_bind.mp h
      obtain rfl := gives_pure.mp h
      exact List.forall_mem_cons.mpr ⟨hnested id s hs, ih htail⟩

theorem explained_bodyOf {id : StmtId} (h : (bodyOf nested id).Gives env scope body) :
    ∀ s ∈ body, Explained env scope s := by
  obtain ⟨s, -, h⟩ := gives_bind.mp h
  split at h
  · exact explained_statementsOf hnested h
  · exact explained_statementsOf hnested h

theorem explained_sectionBody (h : (sectionBody nested part).Gives env scope body) :
    ∀ s ∈ body, Explained env scope s := by
  obtain ⟨flagged, -, h⟩ := gives_bind.mp h
  split at h
  · obtain rfl := gives_pure.mp h
    exact List.forall_mem_singleton.mpr fun effect hperforms => by cases hperforms
  · exact explained_bodyOf hnested h
  · exact explained_statementsOf hnested h

theorem explained_ifRule {cond : ExprId} (h : (ifRule nested cond thenBranch elseBranch).Gives env scope out) :
    Explained env scope out := by
  obtain ⟨cond, -, h⟩ := gives_bind.mp h
  obtain ⟨body, hbody, h⟩ := gives_bind.mp h
  have hbody := explained_bodyOf hnested hbody
  split at h
  · obtain rfl := gives_pure.mp h
    exact explained_branch hbody (by simp)
  · obtain ⟨s, -, h⟩ := gives_bind.mp h
    split at h
    · obtain ⟨other, hother, h⟩ := gives_bind.mp h
      obtain rfl := gives_pure.mp h
      intro effect hperforms
      rcases hperforms.of_prependArm with ⟨s, hs, hperforms⟩ | hperforms
      · exact hbody s hs effect hperforms
      · exact hnested _ _ hother effect hperforms
    · obtain ⟨other, hother, h⟩ := gives_bind.mp h
      obtain rfl := gives_pure.mp h
      exact explained_branch hbody (by simpa using explained_bodyOf hnested hother)

theorem explained_switchRule {cond : ExprId} (h : (switchRule nested s cond body).Gives env scope out) :
    Explained env scope out := by
  obtain ⟨value, -, h⟩ := gives_bind.mp h
  obtain ⟨_, -, h⟩ := gives_bind.mp h
  obtain ⟨_, -, h⟩ := gives_bind.mp h
  obtain ⟨parts, -, h⟩ := gives_bind.mp h
  obtain ⟨sections, hsections, h⟩ := gives_bind.mp h
  obtain rfl := gives_pure.mp h
  intro effect hperforms
  cases hperforms with
  | switch hpart hs hperforms =>
    obtain ⟨part, -, hpart⟩ := hsections.exists_of_mem_forEach hpart
    obtain ⟨body, hbody, hpart⟩ := gives_bind.mp hpart
    obtain rfl := gives_pure.mp hpart
    exact explained_sectionBody hnested hbody _ hs effect hperforms

theorem explained_stmtRule {id : StmtId} (h : (stmtRule nested id).Gives env scope out) :
    Explained env scope out := by
  obtain ⟨s, -, h⟩ := gives_bind.mp h
  split at h
  case h_1 =>
    obtain ⟨body, hbody, h⟩ := gives_bind.mp h
    obtain rfl := gives_pure.mp h
    intro effect hperforms
    cases hperforms with
    | block hs hperforms => exact explained_statementsOf hnested hbody _ hs effect hperforms
  case h_2 =>
    obtain ⟨groups, -, h⟩ := gives_bind.mp h
    exact gives_pure.mp h ▸ fun effect hperforms => by cases hperforms
  case h_3 =>
    obtain ⟨e, he, h⟩ := gives_bind.mp h
    obtain rfl := gives_pure.mp h
    rintro effect ⟨⟩
    exact ⟨_, he⟩
  case h_4 => exact explained_returnRule h
  case h_5 => exact explained_ifRule hnested h
  case h_6 =>
    obtain ⟨cond, -, h⟩ := gives_bind.mp h
    obtain ⟨body, hbody, h⟩ := gives_bind.mp h
    obtain rfl := gives_pure.mp h
    intro effect hperforms
    cases hperforms with
    | whileLoop hs hperforms => exact explained_bodyOf hnested hbody _ hs effect hperforms
  case h_7 =>
    obtain ⟨body, hbody, h⟩ := gives_bind.mp h
    obtain ⟨cond, -, h⟩ := gives_bind.mp h
    obtain rfl := gives_pure.mp h
    intro effect hperforms
    cases hperforms with
    | doLoop hs hperforms => exact explained_bodyOf hnested hbody _ hs effect hperforms
  case h_8 =>
    obtain ⟨init, hinit, h⟩ := gives_bind.mp h
    obtain ⟨cond, -, h⟩ := gives_bind.mp h
    obtain ⟨step, hstep, h⟩ := gives_bind.mp h
    obtain ⟨body, hbody, h⟩ := gives_bind.mp h
    obtain rfl := gives_pure.mp h
    intro effect hperforms
    cases hperforms with
    | inInit => exact exists_of_forInitOf hinit
    | inStep => exact exists_of_optional hstep
    | forLoop hs hperforms => exact explained_bodyOf hnested hbody _ hs effect hperforms
  case h_9 => exact explained_switchRule hnested h
  case h_12 => exact gives_pure.mp h ▸ fun effect hperforms => by cases hperforms
  case h_13 => exact gives_pure.mp h ▸ fun effect hperforms => by cases hperforms
  case h_14 => exact gives_pure.mp h ▸ fun effect hperforms => by cases hperforms
  all_goals simp at h

end

theorem explained_nestedTo (depth : Nat) (id : StmtId) (s : Managed.Stmt)
    (h : (nestedTo depth id).Gives env scope s) : Explained env scope s := by
  induction depth generalizing id s with
  | zero => simp [nestedTo] at h
  | succ depth ih => exact explained_stmtRule ih h

theorem explained_emitStmt {id : StmtId} (h : (emitStmt id).Gives env scope out) : Explained env scope out := by
  obtain ⟨ast, -, h⟩ := gives_bind.mp h
  exact explained_nestedTo _ id out h

theorem explained_emitBody {id : StmtId} (h : (emitBody id).Gives env scope body) :
    ∀ s ∈ body, Explained env scope s := by
  obtain ⟨ast, -, h⟩ := gives_bind.mp h
  exact explained_bodyOf (explained_nestedTo _) h

/-- **An effect is a legal statement unless it throws away a value that does not exist.** -/
theorem emitted_effects_legal_iff {id : StmtId}
    (h : (emitStmt id).Gives env scope out ∨ ∃ body, (emitBody id).Gives env scope body ∧ out ∈ body)
    (hperforms : Performs effect out) :
    ∃ value written, (effectOf value).Gives env scope effect ∧
      (emitValue written).Gives env scope effect.value ∧
        (IsLegalEffect env.ast effect written ↔
          ¬ (Discards env.ast value written ∧ HasNoValue env.ast written)) := by
  have hexplained : Explained env scope out := by
    rcases h with h | ⟨body, h, hmem⟩
    · exact explained_emitStmt h
    · exact explained_emitBody h out hmem
  obtain ⟨value, heffect⟩ := hexplained effect hperforms
  obtain ⟨written, hwritten, hdiscards, hkept⟩ := becomes_of_effectOf heffect
  refine ⟨value, written, heffect, hwritten, ?_⟩
  unfold IsLegalEffect
  split
  · rename_i hd
    simp [hdiscards.mp hd]
  · rename_i hd
    have hnone : ¬ Discards env.ast value written := fun h => hd (hdiscards.mpr h)
    simp [hkept (by simpa using hd), hnone]

/-- The C statement `x;` for a number `x`. -/
def bareUse : Ast where
  file := "use.h"
  decls := #[{ kind := .param ⟨0⟩, name := "x" }]
  exprs := #[{ kind := .declRef ⟨0⟩, type := ⟨0⟩ }]
  stmts := #[{ kind := .expr ⟨0⟩ }]
  types := #[.ofBuiltin .int]

theorem bareUse_is_legal : ∃ env effect written, prepare {} bareUse = .ok env ∧
    (emitStmt ⟨0⟩).Gives env {} (.effect effect) ∧ effect.text = "_ = x" ∧
      IsLegalEffect env.ast effect written := by
  obtain ⟨env, henv, hast, effect, hgives, htext⟩ : ∃ env, prepare {} bareUse = .ok env ∧ env.ast = bareUse ∧
      ∃ effect, (emitStmt ⟨0⟩).Gives env {} (.effect effect) ∧ effect.text = "_ = x" :=
    ⟨_, rfl, rfl, _, gives_of_run (c := {}) rfl, by decide⟩
  obtain ⟨_, written, -, -, hlegal⟩ := emitted_effects_legal_iff (.inl hgives) .alone
  refine ⟨env, effect, written, henv, hgives, htext, hlegal.mpr ?_⟩
  rintro ⟨-, e, he, hvoid⟩
  have hvalues : ∀ e ∈ bareUse.exprs, bareUse.canonicalKind? e.type ≠ some (.builtin .void) := by decide
  rw [hast] at he hvoid
  exact hvalues e (Array.mem_of_getElem? he) hvoid

/-- The C statement `(void)reset();` for a function `reset` without a result. -/
def voidedCall : Ast where
  file := "reset.h"
  decls := #[{ kind := .function { type := ⟨1⟩, linkage := .c }, name := "reset" }]
  exprs :=
    #[{ kind := .declRef ⟨0⟩, type := ⟨1⟩ },
      { kind := .call ⟨0⟩ [], type := ⟨0⟩ },
      { kind := .explicitCast .cStyle .toVoid ⟨1⟩, type := ⟨0⟩ }]
  stmts := #[{ kind := .expr ⟨2⟩ }]
  types :=
    #[.ofBuiltin .void,
      { kind := .function { result := ⟨0⟩, params := [], convention := some .c }, spelling := "void ()" }]

theorem voided_call_is_discarded : ∃ env effect, prepare {} voidedCall = .ok env ∧
    (emitStmt ⟨0⟩).Gives env {} (.effect effect) ∧ effect.text = "_ = reset()" ∧
      Discards env.ast ⟨2⟩ ⟨1⟩ ∧ HasNoValue env.ast ⟨1⟩ :=
  ⟨_, _, rfl, gives_of_run (c := {}) rfl, by decide, ⟨_, _, rfl, rfl, rfl⟩, _, rfl, rfl⟩

/-! ## Effects that are not written -/

def counters : Env where
  ast :=
    { file := "counters.h"
      topLevel := [⟨0⟩, ⟨1⟩, ⟨2⟩]
      decls :=
        #[{ kind := .function { type := ⟨3⟩ }, name := "advance" },
          { kind := .function { type := ⟨4⟩ }, name := "reset" },
          { kind := .var { type := ⟨0⟩ }, name := "count" }]
      types :=
        #[.ofBuiltin .int, .ofBuiltin .nullPtr, .ofBuiltin .void,
          { kind := .function { result := ⟨0⟩, params := [⟨0⟩, ⟨0⟩] }, spelling := "int (int, int)" },
          { kind := .function { result := ⟨1⟩, params := [] }, spelling := "nullptr_t ()" },
          { kind := .pointer ⟨2⟩, spelling := "void *" },
          { kind := .pointer ⟨3⟩, spelling := "int (*)(int, int)" },
          { kind := .pointer ⟨4⟩, spelling := "nullptr_t (*)()" }]
      exprs :=
        #[{ kind := .declRef ⟨0⟩, type := ⟨3⟩ },
          { kind := .implicitCast .functionToPointerDecay ⟨0⟩, type := ⟨6⟩ },
          { kind := .declRef ⟨2⟩, type := ⟨0⟩ },
          { kind := .unary .preInc ⟨2⟩, type := ⟨0⟩ },
          { kind := .implicitCast .lvalueToRValue ⟨3⟩, type := ⟨0⟩ },
          { kind := .integer "2", type := ⟨0⟩ },
          { kind := .binary .assign ⟨2⟩ ⟨5⟩, type := ⟨0⟩ },
          { kind := .implicitCast .lvalueToRValue ⟨6⟩, type := ⟨0⟩ },
          { kind := .call ⟨1⟩ [⟨4⟩, ⟨7⟩], type := ⟨0⟩ },
          { kind := .declRef ⟨1⟩, type := ⟨4⟩ },
          { kind := .implicitCast .functionToPointerDecay ⟨9⟩, type := ⟨7⟩ },
          { kind := .call ⟨10⟩ [], type := ⟨1⟩ },
          { kind := .implicitCast .nullToPointer ⟨11⟩, type := ⟨5⟩ }] }
  settings := {}
  symbols :=
    { names := #["advance", "reset", "count"]
      anonymous := []
      namingTypedefs := []
      definitions := []
      shadowed := []
      globals := [⟨0⟩, ⟨1⟩, ⟨2⟩]
      vtables := [] }

/-- A conversion to a null pointer drops the call whose result it converts. -/
theorem null_conversion_drops_call :
    prepare {} counters.ast = .ok counters ∧
      counters.ast.expr? ⟨12⟩ = some { kind := .implicitCast .nullToPointer ⟨11⟩, type := ⟨5⟩ } ∧
      counters.ast.expr? ⟨11⟩ = some { kind := .call ⟨10⟩ [], type := ⟨1⟩ } ∧
      (emitValue ⟨11⟩).Gives counters {} (.call (.ident "reset") []) ∧
      (emitValue ⟨12⟩).Gives counters {} (.literal "null") :=
  ⟨rfl, rfl, rfl, gives_of_run (c := {}) rfl, gives_of_run (c := {}) rfl⟩

end Interop.Binding
