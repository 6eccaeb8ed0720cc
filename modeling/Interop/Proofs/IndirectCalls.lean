import Interop.Proofs.Identifiers
import Interop.Proofs.ReferenceReads
import Interop.Proofs.StatementEffects
import Interop.Proofs.TextLines

/-!
# Calls through function pointers

C# reads `(a.b)(x)` as a cast of `x` to a type `a.b`. `indirect_callee_reads_as_cast_iff` says when the
callee of an indirect call is written like that: parentheses of the native source are kept, and those
around a plain name are one pair too many.
-/

namespace Interop.Managed.Expr

open Csharp (isName isWordChar)

/-- Names with points between them. -/
def isDotted (text : String) : Bool :=
  (Text.split '.' text).all isName

def isParen : Expr → Bool
  | .paren _ => true
  | _ => false

/-- What stands in parentheses where the expression is called: the native source spelled them, or the
precedence asks for them. -/
def inParens? : Expr → Option String
  | .paren inner => some inner.text
  | e => if e.level = .primary then none else some e.text

theorem text_of_inParens {e : Expr} (h : e.inParens? = some w) (args : List Expr) :
    (Expr.call e args).text = parenthesized w ++ parenthesized (Text.joinWith ", " (texts args)) := by
  have hcallee : e.piece.atLeast .primary = parenthesized w := by
    unfold inParens? at h
    split at h
    · obtain rfl := Option.some.inj h
      simp [piece, Piece.atLeast, text]
    · rename_i hparen
      split at h
      · cases h
      · rename_i hlevel
        obtain rfl := Option.some.inj h
        have hrank : e.piece.level.rank < Precedence.primary.rank := by
          change e.piece.level ≠ .primary at hlevel
          revert hlevel
          cases e.piece.level <;> decide
        rw [Piece.atLeast, if_pos hrank, text]
  rw [text, piece, hcallee]

theorem mem_of_isName {name : String} (h : isName name = true) (hc : c ∈ name.toList) :
    c = '@' ∨ isWordChar c = true := by
  unfold isName at h
  split at h
  · rename_i word hcs
    rw [hcs] at hc
    rcases List.mem_cons.mp hc with rfl | hc
    · exact .inl rfl
    · obtain ⟨_, _, -, -, hall⟩ := Csharp.isWord_cons h
      exact .inr (hall c hc)
  · obtain ⟨_, _, -, -, hall⟩ := Csharp.isWord_cons (Bool.and_eq_true_iff.mp h).1
    exact .inr (hall c hc)

theorem not_isDotted_of_mem {w : String} (hc : c ∈ w.toList)
    (hother : (c = '.' || c = '@' || isWordChar c) = false) : isDotted w = false := by
  rw [Bool.eq_false_iff]
  intro hdotted
  simp only [Bool.or_eq_false_iff, decide_eq_false_iff_not] at hother
  rcases eq_or_mem_splitChars '.' hc with hdot | ⟨part, hpart, hmem⟩
  · exact hother.1.1 hdot
  · have hname : isName (String.ofList part) = true :=
      List.all_eq_true.mp hdotted _ (List.mem_map_of_mem hpart)
    rcases mem_of_isName hname (by simpa using hmem) with hat | hword
    · exact hother.1.2 hat
    · simp [hword] at hother

/-- An operator shows in the text. -/
theorem not_isDotted_of_level {e : Expr} (h : e.level ≠ .primary) : isDotted e.text = false := by
  cases e with
  | unary op operand =>
    have hsymbol : ∃ c ∈ op.symbol.toList, (c = '.' || c = '@' || isWordChar c) = false := by
      cases op with
      | preInc | postInc | plus => exact ⟨'+', by decide, by decide⟩
      | preDec | postDec | minus => exact ⟨'-', by decide, by decide⟩
      | addressOf => exact ⟨'&', by decide, by decide⟩
      | deref => exact ⟨'*', by decide, by decide⟩
      | complement => exact ⟨'~', by decide, by decide⟩
      | logicalNot => exact ⟨'!', by decide, by decide⟩
    obtain ⟨c, hc, hother⟩ := hsymbol
    refine not_isDotted_of_mem ?_ hother
    simp only [text, piece, unaryPiece]
    split <;> simp [hc]
  | binary op lhs rhs =>
    refine not_isDotted_of_mem (c := ' ') ?_ (by decide)
    simp only [text, piece, binaryPiece]
    split <;> simp
  | conditional cond thenExpr elseExpr =>
    exact not_isDotted_of_mem (c := ' ') (by simp [text, piece]) (by decide)
  | cast type operand =>
    exact not_isDotted_of_mem (c := '(') (by simp [text, piece, parenthesized]) (by decide)
  | byRef inner => exact not_isDotted_of_mem (c := ' ') (by simp [text, piece]) (by decide)
  | _ => exact absurd rfl h

/-- Parentheses that the precedence asks for stand around an operator, and not around a name. -/
theorem paren_of_isDotted {e : Expr} (h : e.inParens? = some w) (hdotted : isDotted w = true) :
    ∃ v, e = .paren v ∧ isDotted v.text = true ∧ v.level = .primary := by
  have hlevel : ∀ {v : Expr}, isDotted v.text = true → v.level = .primary := by
    intro v hv
    by_contra hlevel
    rw [not_isDotted_of_level hlevel] at hv
    cases hv
  unfold inParens? at h
  split at h
  · obtain rfl := Option.some.inj h
    exact ⟨_, rfl, hdotted, hlevel hdotted⟩
  · split at h
    · cases h
    · obtain rfl := Option.some.inj h
      exact absurd (hlevel hdotted) ‹_›

end Interop.Managed.Expr

namespace Interop.Binding

open Native (Ast ExprId ExprKind DeclKind)
open Emit Relation
open Managed.Expr (isDotted inParens?)

variable {env : Env} {scope : Scope} {id callee : ExprId} {out v : Managed.Expr} {parts : Parts}

/-! ## Rules that add no parentheses -/

theorem truthAs_noParen (h : condition.isParen = false) :
    (truthAs type condition).Ensures env imports (·.isParen = false) :=
  .skip fun _ => .ite (.pure h) (.pure rfl)

theorem castTo_noParen : (castTo type operand location).Ensures env imports (·.isParen = false) :=
  .skip fun _ => .pure rfl

theorem memberReference_noParen : (memberReference target).Ensures env imports (·.isParen = false) := by
  refine .skip fun name => .skip fun d => ?_
  split
  · exact .skip fun _ => .ite (.pure rfl) (.skip fun _ => .pure rfl)
  · exact .pure rfl

theorem declRefRule_noParen : (declRefRule e target).Ensures env imports (·.isParen = false) := by
  have hlocal : ∀ name type, (localUse name type).Ensures env imports (·.isParen = false) :=
    fun _ _ => .skip fun _ => .ite (.skip fun _ => .pure rfl) (.pure rfl)
  refine .skip fun d => .skip fun name => ?_
  split
  · refine .skip fun name => ?_
    split
    · exact .pure rfl
    · refine .skip fun e => .skip fun symbols => .ite (.skip fun _ => .pure rfl) (.ite ?_ ?_)
      · exact .skip fun _ => .pure rfl
      · exact .skip fun _ => .skip fun _ => .pure rfl
  · exact .skip fun _ => .pure rfl
  · refine .skip fun symbols => .ite (.skip fun _ => .pure rfl) (.skip fun _ => ?_)
    exact .ite memberReference_noParen (hlocal _ _)
  · exact .skip fun _ => .ite (memberReference_noParen) .malformed
  · exact hlocal _ _
  · exact .pure rfl
  · exact .malformed

theorem memberOf_noParen : (memberOf parts base isArrow member).Ensures env imports (·.isParen = false) := by
  have hpath : ∀ object isArrow names name, (Managed.Expr.path object isArrow (names ++ [name])).isParen = false := by
    intro object isArrow names name
    obtain ⟨_, _, heq⟩ := exists_path_append object isArrow names name
    rw [heq]
    rfl
  refine .skip fun object => .skip fun steps => .skip fun name => .pure ?_
  unfold onObject
  split
  · exact hpath _ _ _ _
  · split
    · rfl
    · exact hpath _ _ _ _

theorem memberRule_noParen : (memberRule parts e base member isArrow).Ensures env imports (·.isParen = false) := by
  refine .skip fun d => ?_
  split
  · exact memberOf_noParen
  · exact memberReference_noParen
  · exact .unsupported
  · exact .malformed

theorem binaryRaw_noParen : (binaryRaw parts op lhs rhs).Ensures env imports (·.isParen = false) := by
  refine .ite (.skip fun _ => .skip fun _ => .pure rfl) (.skip fun operands => ?_)
  split
  all_goals exact .skip fun _ => .skip fun _ => .pure rfl

theorem logicalNot_noParen : (logicalNot parts operand).Ensures env imports (·.isParen = false) :=
  .skip fun _ => .pure rfl

theorem unaryRule_noParen : (unaryRule parts e op operand).Ensures env imports (·.isParen = false) := by
  unfold unaryRule
  split
  · exact logicalNot_noParen.bind fun _ => truthAs_noParen
  · refine .skip fun name => ?_
    split
    · exact .pure rfl
    · exact .skip fun _ => .skip fun _ => .pure rfl
  · exact .skip fun _ => .skip fun _ => .pure rfl

theorem binaryRule_noParen : (binaryRule parts e op lhs rhs).Ensures env imports (·.isParen = false) :=
  .ite .unsupported (binaryRaw_noParen.bind fun _ h => .ite (truthAs_noParen h) (.pure h))

/-- The kinds of expressions whose text may be that of a part, or a part in parentheses. -/
def keepsParens : ExprKind → Bool
  | .paren _ | .implicitCast _ _ | .explicitCast _ _ _ | .initList _ => true
  | _ => false

theorem valueRule_noParen (he : env.ast.expr? id = some e) (hkind : keepsParens e.kind = false) :
    (valueRule parts id).Ensures env imports (·.isParen = false) := by
  refine Ensures.exprOf.bind fun node hnode => ?_
  obtain rfl := Option.mem_unique hnode he
  cases hk : node.kind with
  | integer spelling =>
    dsimp only [integerRule]
    split
    · exact .malformed
    · exact .skip fun _ => .pure rfl
  | floating spelling => exact .skip fun _ => .pure rfl
  | character value => exact .skip fun _ => .ite (.pure rfl) (.pure rfl)
  | string value charWidth => exact .ite (.pure rfl) .unsupported
  | bool value => exact .pure rfl
  | nullPtr => exact .pure rfl
  | declRef target => exact declRefRule_noParen
  | unary op operand => exact unaryRule_noParen
  | binary op lhs rhs => exact binaryRule_noParen
  | conditional cond thenExpr elseExpr => exact .skip fun _ => .skip fun _ => .skip fun _ => .pure rfl
  | call callee args => exact callRule_isEffect.mono fun out h => by cases out <;> first | rfl | cases h
  | member base member isArrow => exact memberRule_noParen
  | subscript base index =>
    refine .skip fun e => .skip fun kind => ?_
    split
    · exact .skip fun _ => .skip fun _ => .skip fun _ => .pure rfl
    · exact .skip fun _ => .skip fun _ => .pure rfl
  | valueInit => exact .pure rfl
  | thisPointer isImplicit => exact .skip fun _ => .skip fun _ => .pure rfl
  | sizeOf arg => exact .skip fun _ => .skip fun _ => .skip fun _ => .ite (.pure rfl) (.pure rfl)
  | other kind => exact .unsupported
  | paren | implicitCast | explicitCast | initList => simp [hk, keepsParens] at hkind

/-! ## Conversions -/

/-- What the step gives in parentheses, the operand gives too, unless it is grouped by its precedence. -/
def Keeps (env : Env) (scope : Scope) (parts : Parts) (operand : ExprId) (m : Emit Managed.Expr) : Prop :=
  ∀ v, m.Gives env scope (.paren v) → (parts.value operand).Gives env scope (.paren v) ∨ v.level ≠ .primary

namespace Keeps

variable {operand : ExprId} {m n : Emit Managed.Expr}

theorem of_noParen (h : ∀ imports, m.Ensures env imports (·.isParen = false)) :
    Keeps env scope parts operand m := by
  intro v hv
  have hparen := hv.of_ensures h
  cases hparen

theorem self : Keeps env scope parts operand (parts.value operand) :=
  fun _ h => .inl h

theorem given (h : (parts.value operand).Gives env scope e) :
    Keeps env scope parts operand (pure e) := by
  intro v hv
  obtain rfl := gives_pure.mp hv
  exact .inl h

theorem bind {f : α → Emit Managed.Expr} {step : Emit α}
    (h : ∀ a, step.Gives env scope a → Keeps env scope parts operand (f a)) :
    Keeps env scope parts operand (step >>= f) := by
  intro v hv
  obtain ⟨a, ha, hv⟩ := gives_bind.mp hv
  exact h a ha v hv

theorem skip {f : α → Emit Managed.Expr} {step : Emit α} (h : ∀ a, Keeps env scope parts operand (f a)) :
    Keeps env scope parts operand (step >>= f) :=
  bind fun a _ => h a

theorem ite {p : Prop} [Decidable p] (hm : Keeps env scope parts operand m)
    (hn : Keeps env scope parts operand n) : Keeps env scope parts operand (if p then m else n) := by
  split
  · exact hm
  · exact hn

theorem castTo : Keeps env scope parts operand (castTo type e location) :=
  of_noParen fun _ => castTo_noParen

theorem uncheckedCast : Keeps env scope parts operand (uncheckedCast type e location) :=
  of_noParen fun _ => .skip fun _ => .pure rfl

theorem ofTruth : Keeps env scope parts operand (pure (.ofTruth e)) :=
  of_noParen fun _ => .pure rfl

theorem unsupported : Keeps env scope parts operand (unsupported node location reason) :=
  of_noParen fun _ => .unsupported

theorem malformed : Keeps env scope parts operand (malformed node location reason) :=
  of_noParen fun _ => .malformed

/-! ### One conversion each -/

theorem integralCast : Keeps env scope parts operand (integralCast parts target operand location) := by
  refine skip fun node => skip fun isBool => skip fun isBool' => bind fun e he => ite ofTruth ?_
  refine skip fun sourceEnum => skip fun targetEnum => skip fun sign => ?_
  split
  · exact ite castTo (skip fun _ => ite uncheckedCast (given he))
  · refine ite (skip fun _ => ite (given he) castTo) (skip fun names => ?_)
    exact ite (given he) castTo

theorem grouped (he : (parts.value operand).Gives env scope e) :
    Keeps env scope parts operand (pure e.grouped) := by
  unfold Managed.Expr.grouped
  split
  · exact given he
  · rename_i hlevel
    intro v hv
    obtain rfl := Managed.Expr.paren.inj (gives_pure.mp hv)
    exact .inr hlevel

theorem hierarchyCast :
    Keeps env scope parts operand (hierarchyCast parts target source operand location) := by
  refine bind fun e he => skip fun isPointer => ite castTo (skip fun ast => skip fun symbols => ?_)
  refine skip fun derived => skip fun base => ?_
  split
  · refine ite unsupported (skip fun hops => ?_)
    split
    · rename_i hops
      cases hops with
      | zero => exact grouped he
      | succ hops =>
        obtain ⟨_, _, heq⟩ := exists_path_append e.grouped false (List.replicate hops "Base") "Base"
        rw [List.replicate_succ', heq]
        exact of_noParen fun _ => .pure rfl
    · exact unsupported
  · exact unsupported

theorem decay : Keeps env scope parts operand (decay parts target operand location) := by
  refine skip fun inner => skip fun node => ?_
  split
  · exact of_noParen fun _ => .skip fun _ => .skip fun _ => .skip fun _ => .skip fun _ => .pure rfl
  · exact self

theorem toFloating : Keeps env scope parts operand (toFloating parts source operand) :=
  bind fun _ he => skip fun _ => ite ofTruth (given he)

theorem condition {depth : Nat} :
    Keeps env scope (partsTo depth) operand ((partsTo depth).condition operand) := by
  cases depth with
  | zero => exact of_noParen fun _ => .ofResult fun _ h => by cases h
  | succ depth =>
    have hcompared : Keeps env scope (partsTo (depth + 1)) operand
        (comparedRule (valueRule (partsTo depth)) operand) := by
      refine skip fun node => bind fun e he => skip fun isBool => ite (given he) (skip fun isPointer => ?_)
      exact of_noParen fun _ => .ite (.pure rfl) (.pure rfl)
    refine skip fun inner => skip fun node => ?_
    split
    · exact ite (of_noParen fun _ => binaryRaw_noParen) hcompared
    · exact of_noParen fun _ => logicalNot_noParen
    · exact hcompared

theorem implicitCastRule {depth : Nat} :
    Keeps env scope (partsTo depth) operand (implicitCastRule (partsTo depth) e kind operand) := by
  refine skip fun node => ?_
  cases kind with
  | lvalueToRValue | noOp => exact self
  | arrayToPointerDecay => exact decay
  | functionToPointerDecay => exact of_noParen fun _ => .skip fun _ => .skip fun _ => .pure rfl
  | integralCast => exact integralCast
  | integralToBoolean | floatingToBoolean | pointerToBoolean => exact condition
  | integralToFloating => exact toFloating
  | floatingToIntegral | pointerToIntegral | integralToPointer => exact skip fun _ => castTo
  | floatingCast => exact bind fun _ he => skip fun names => ite castTo (given he)
  | bitCast => exact bind fun _ he => skip fun names => ite (given he) castTo
  | nullToPointer => exact of_noParen fun _ => .pure rfl
  | derivedToBase | baseToDerived => exact hierarchyCast
  | dynamic | toVoid | other => exact unsupported

theorem dynamicCast : Keeps env scope parts operand (dynamicCast parts target source operand location) := by
  have hcast : ∀ isDowncast : Bool, Keeps env scope parts operand (if isDowncast = true then do
      Binding.castTo target (← parts.value operand) location
    else Emit.unsupported "dynamic_cast" location
      ("only pointer downcasts within a single-inheritance polymorphic hierarchy " ++ "are supported")) :=
    fun _ => ite (skip fun _ => castTo) unsupported
  refine skip fun ast => skip fun symbols => skip fun isPointer => skip fun derived => skip fun base => ?_
  split
  · split
    · exact skip fun steps => skip hcast
    · exact skip hcast
  · exact skip hcast

theorem writtenCast : Keeps env scope parts operand (writtenCast parts target source operand location) := by
  refine skip fun fromBool => skip fun toBool => ite ?_ (skip fun _ => skip fun _ => ite ?_ ?_)
  · exact skip fun e => skip fun mapped => ite ofTruth castTo
  · exact skip fun _ => uncheckedCast
  · exact skip fun _ => castTo

theorem explicitCastRule {depth : Nat} :
    Keeps env scope (partsTo depth) operand (explicitCastRule (partsTo depth) e style kind operand) := by
  refine skip fun node => ?_
  split
  · exact self
  · exact dynamicCast
  · exact unsupported
  · exact condition
  · exact condition
  · exact condition
  · exact writtenCast

end Keeps

theorem single_of_initListRule (h : (initListRule parts e elements).Gives env scope (.paren v)) :
    ∃ single, elements = [single] ∧ (parts.value single).Gives env scope (.paren v) := by
  have hnone : ∀ {m : Emit Managed.Expr}, (∀ imports, m.Ensures env imports (·.isParen = false)) →
      ¬ m.Gives env scope (.paren v) := by
    intro m hm hv
    cases hv.of_ensures hm
  obtain ⟨kind, -, h⟩ := gives_bind.mp h
  split at h
  · refine absurd h (hnone fun _ => .skip fun _ => .ite .malformed (.ite (.pure rfl) ?_))
    exact .skip fun _ => .pure rfl
  · refine absurd h (hnone fun _ => .skip fun _ => .ite (.pure rfl) (.skip fun _ => .skip fun _ => ?_))
    exact .ite .malformed (.skip fun _ => .pure rfl)
  · split at h
    · simp at h
    · exact ⟨_, rfl, h⟩
    · simp at h

/-! ## Where parentheses come from -/

/-- A conversion or a list of one value, and what stands inside it. -/
def Converts (ast : Ast) (id operand : ExprId) : Prop :=
  ∃ e, ast.expr? id = some e ∧ ((∃ kind, e.kind = .implicitCast kind operand) ∨
    (∃ style kind, e.kind = .explicitCast style kind operand) ∨ e.kind = .initList [operand])

def IsParenthesized (ast : Ast) (id operand : ExprId) : Prop :=
  ∃ e, ast.expr? id = some e ∧ e.kind = .paren operand

theorem cases_of_valueRule {depth : Nat} (h : (valueRule (partsTo depth) id).Gives env scope (.paren v)) :
    v.level ≠ .primary ∨
      (∃ operand, IsParenthesized env.ast id operand ∧ ((partsTo depth).value operand).Gives env scope v) ∨
        ∃ operand, Converts env.ast id operand ∧ ((partsTo depth).value operand).Gives env scope (.paren v) := by
  obtain ⟨e, he, hrule⟩ := gives_bind.mp h
  rw [gives_exprOf] at he
  cases hparens : keepsParens e.kind with
  | false => cases h.of_ensures fun _ => valueRule_noParen he hparens
  | true =>
    cases hkind : e.kind <;> rw [hkind] at hrule hparens
    case paren operand =>
      obtain ⟨out, hout, hrule⟩ := gives_bind.mp hrule
      obtain rfl := Managed.Expr.paren.inj (gives_pure.mp hrule)
      exact .inr (.inl ⟨operand, ⟨e, he, hkind⟩, hout⟩)
    case implicitCast kind operand =>
      rcases Keeps.implicitCastRule v hrule with hv | hlevel
      · exact .inr (.inr ⟨operand, ⟨e, he, .inl ⟨kind, hkind⟩⟩, hv⟩)
      · exact .inl hlevel
    case explicitCast style kind operand =>
      rcases Keeps.explicitCastRule v hrule with hv | hlevel
      · exact .inr (.inr ⟨operand, ⟨e, he, .inr (.inl ⟨style, kind, hkind⟩)⟩, hv⟩)
      · exact .inl hlevel
    case initList elements =>
      obtain ⟨single, rfl, hv⟩ := single_of_initListRule hrule
      exact .inr (.inr ⟨single, ⟨e, he, .inr (.inr hkind)⟩, hv⟩)
    all_goals cases hparens

def IsEmittedAs (env : Env) (scope : Scope) (id : ExprId) (out : Managed.Expr) : Prop :=
  ∃ depth, ((partsTo depth).value id).Gives env scope out

/-- Parentheses around a name are those of the native source. -/
theorem exists_parenthesized {depth : Nat} (h : ((partsTo depth).value id).Gives env scope (.paren v))
    (hlevel : v.level = .primary) :
    ∃ written operand, ReflTransGen (Converts env.ast) id written ∧
      IsParenthesized env.ast written operand ∧ IsEmittedAs env scope operand v := by
  induction depth generalizing id with
  | zero => simp [partsTo] at h
  | succ depth ih =>
    rcases cases_of_valueRule h with hother | ⟨operand, hparen, hv⟩ | ⟨operand, hconverts, hv⟩
    · exact absurd hlevel hother
    · exact ⟨id, operand, .refl, hparen, depth, hv⟩
    · obtain ⟨written, inner, hreach, hwritten⟩ := ih hv
      exact ⟨written, inner, .head hconverts hreach, hwritten⟩

/-! ## Indirect calls -/

/-- Behind parentheses and implicit conversions, the callee is neither a function nor a method. -/
def IsIndirect (ast : Ast) (callee : ExprId) : Prop :=
  ∃ inner e, ast.ignoreImplicit? callee = some inner ∧ ast.expr? inner = some e ∧
    match e.kind with
    | .declRef target => ∀ d, ast.decl? target = some d →
      (∀ f, d.kind ≠ .function f) ∧ ∀ m, d.kind ≠ .method m
    | .member _ target _ => ∀ d, ast.decl? target = some d → ∀ m, d.kind ≠ .method m
    | _ => True

theorem indirectCall_of_callRule (hindirect : IsIndirect env.ast callee)
    (h : (callRule parts e callee args).Gives env scope out) :
    (indirectCall parts callee args e.location).Gives env scope out := by
  obtain ⟨inner, node, hinner, hnode, hother⟩ := hindirect
  obtain ⟨inner', hinner', h⟩ := gives_bind.mp h
  obtain ⟨node', hnode', h⟩ := gives_bind.mp h
  obtain rfl := Option.mem_unique (gives_ignoreImplicit.mp hinner') hinner
  obtain rfl := Option.mem_unique (gives_exprOf.mp hnode') hnode
  split at h
  · rename_i target hkind
    rw [hkind] at hother
    obtain ⟨d, hd, h⟩ := gives_bind.mp h
    have hother := hother d (gives_decl.mp hd)
    split at h
    · exact absurd ‹_› (hother.1 _)
    · exact absurd ‹_› (hother.2 _)
    · exact h
  · rename_i base target isArrow hkind
    rw [hkind] at hother
    obtain ⟨d, hd, h⟩ := gives_bind.mp h
    split at h
    · exact absurd ‹_› (hother d (gives_decl.mp hd) _)
    · exact h
  · exact h

/-- **A called name reads as the type of a cast exactly if the native source put it in parentheses.** -/
theorem indirect_callee_reads_as_cast_iff (he : env.ast.expr? id = some e)
    (hkind : e.kind = .call callee args) (hindirect : IsIndirect env.ast callee)
    (h : (emitValue id).Gives env scope out) :
    ∃ function arguments, out = .call function arguments ∧
      (∀ w, inParens? function = some w →
        out.text = Managed.parenthesized w ++
          Managed.parenthesized (Text.joinWith ", " (Managed.Expr.texts arguments))) ∧
      ((∃ w, inParens? function = some w ∧ isDotted w = true) ↔
        ∃ written operand v, ReflTransGen (Converts env.ast) callee written ∧
          IsParenthesized env.ast written operand ∧ IsEmittedAs env scope operand v ∧ function = .paren v ∧
            isDotted v.text = true) := by
  obtain ⟨e', he', h⟩ := gives_bind.mp (gives_emitValue.mp h)
  obtain rfl := Option.mem_unique (gives_exprOf.mp he') he
  rw [hkind] at h
  obtain ⟨function, hfunction, h⟩ := gives_bind.mp (indirectCall_of_callRule hindirect h)
  obtain ⟨_, -, h⟩ := gives_bind.mp h
  obtain ⟨arguments, -, h⟩ := gives_bind.mp h
  obtain ⟨_, -, h⟩ := gives_bind.mp h
  obtain rfl := gives_pure.mp h
  refine ⟨function, arguments, rfl, fun w hw => Managed.Expr.text_of_inParens hw arguments, ?_, ?_⟩
  · rintro ⟨w, hw, hdotted⟩
    obtain ⟨v, rfl, hdotted, hlevel⟩ := Managed.Expr.paren_of_isDotted hw hdotted
    obtain ⟨written, operand, hreach, hparen, hv⟩ := exists_parenthesized hfunction hlevel
    exact ⟨written, operand, v, hreach, hparen, hv, rfl, hdotted⟩
  · rintro ⟨written, operand, v, -, -, -, rfl, hdotted⟩
    exact ⟨v.text, rfl, hdotted⟩

/-- The C expressions `fp(x)` and `(fp)(x)` for a pointer `fp` to a function. -/
def pointerCalls : Ast where
  file := "calls.h"
  decls := #[{ kind := .param ⟨2⟩, name := "fp" }, { kind := .param ⟨0⟩, name := "x" }]
  exprs :=
    #[{ kind := .declRef ⟨0⟩, type := ⟨2⟩ },
      { kind := .declRef ⟨1⟩, type := ⟨0⟩ },
      { kind := .call ⟨0⟩ [⟨1⟩], type := ⟨0⟩ },
      { kind := .paren ⟨0⟩, type := ⟨2⟩ },
      { kind := .call ⟨3⟩ [⟨1⟩], type := ⟨0⟩ }]
  types :=
    #[.ofBuiltin .int,
      { kind := .function { result := ⟨0⟩, params := [⟨0⟩], convention := some .c }, spelling := "int (int)" },
      { kind := .pointer ⟨1⟩, spelling := "int (*)(int)" }]

theorem pointerCalls_isIndirect : IsIndirect pointerCalls ⟨0⟩ ∧ IsIndirect pointerCalls ⟨3⟩ := by
  have hparam : ∀ d, pointerCalls.decl? ⟨0⟩ = some d →
      (∀ f, d.kind ≠ .function f) ∧ ∀ m, d.kind ≠ .method m := by
    intro d hd
    have hfound : pointerCalls.decl? ⟨0⟩ = some { kind := .param ⟨2⟩, name := "fp" } := rfl
    obtain rfl := Option.some.inj (hfound.symm.trans hd)
    simp
  exact ⟨⟨_, _, rfl, rfl, hparam⟩, _, _, rfl, rfl, hparam⟩

theorem plain_callee_is_called : ∃ env function arguments, prepare {} pointerCalls = .ok env ∧
    (emitValue ⟨2⟩).Gives env {} (.call function arguments) ∧
      (Managed.Expr.call function arguments).text = "fp(x)" ∧
        ¬ ∃ w, inParens? function = some w ∧ isDotted w = true := by
  obtain ⟨env, henv, hast, out, h, htext⟩ : ∃ env, prepare {} pointerCalls = .ok env ∧
      env.ast = pointerCalls ∧ ∃ out, (emitValue ⟨2⟩).Gives env {} out ∧ out.text = "fp(x)" :=
    ⟨_, rfl, rfl, _, gives_of_run (c := {}) rfl, by decide⟩
  have hnode : env.ast.expr? ⟨0⟩ = some { kind := .declRef ⟨0⟩, type := ⟨2⟩ } := by
    rw [hast]
    rfl
  obtain ⟨function, arguments, rfl, -, hiff⟩ :=
    indirect_callee_reads_as_cast_iff (by rw [hast]; rfl) rfl (hast ▸ pointerCalls_isIndirect.1) h
  refine ⟨env, function, arguments, henv, h, htext, fun hreads => ?_⟩
  obtain ⟨written, operand, v, hreach, ⟨e, he, hparen⟩, -⟩ := hiff.mp hreads
  rcases hreach.cases_head with rfl | ⟨next, ⟨e', he', hconverts⟩, -⟩
  · obtain rfl := Option.mem_unique he hnode
    cases hparen
  · obtain rfl := Option.mem_unique he' hnode
    simp at hconverts

theorem parenthesized_callee_reads_as_cast : ∃ env, prepare {} pointerCalls = .ok env ∧
    IsIndirect env.ast ⟨3⟩ ∧ ∃ function arguments, (emitValue ⟨4⟩).Gives env {} (.call function arguments) ∧
      (Managed.Expr.call function arguments).text = "(fp)(x)" ∧ inParens? function = some "fp" ∧
        isDotted "fp" = true :=
  ⟨_, rfl, pointerCalls_isIndirect.2, _, _, gives_of_run (c := {}) rfl, by decide,
    by decide, by decide⟩

end Interop.Binding
