import Interop.Proofs.Csharp.Evaluation
import Interop.Proofs.ExpressionForms

/-!
# Emitted expressions keep their values

C counts every value as true that is not zero, while C# keeps truth values and integers apart. Expressions
over `int` and `bool` get their C values (`Source.eval`) and keep them: emission returns for every
well-typed one, and what it returns is well typed C# of the same value. That emission returns needs the
bound on the height of trees.
-/

namespace Interop.Binding

open Native (ExprId DeclId TypeKind CastKind ExprKind)
open Csharp (Tree Means)
open Emit

variable {op : BinaryOp} {τ : ScalarType} {n : Native.Expr} {x : Source} {t : Tree}

/-! ## Values of native expressions -/

def kindOf : ScalarType → TypeKind
  | .int => .builtin .int
  | .bool => .builtin .bool

def truthIn (type : TypeKind) (value : Bool) : Scalar :=
  if type.isBool then .bool value else .int (if value then 1 else 0)

/-- The value of a native expression under the values of variables. -/
def Source.eval (ρ : DeclId → Scalar) : Source → Option Scalar
  | integer _ value _ => some (.int (BitVec.ofNat 32 value))
  | truth _ value => some (.bool value)
  | declRef _ target _ => some (ρ target)
  | paren _ x => x.eval ρ
  | unary type op x => do
    let operand ← x.eval ρ
    if op = .logicalNot then return truthIn type (!operand.isTrue)
    else
      match operand with
      | .int value => return .int ((← op.arithmetic?) value)
      | .bool _ => none
  | binary type op x y => do
    let left ← x.eval ρ
    if op = .logicalAnd then
      if left.isTrue then return truthIn type (← y.eval ρ).isTrue else return truthIn type false
    else if op = .logicalOr then
      if left.isTrue then return truthIn type true else return truthIn type (← y.eval ρ).isTrue
    else
      match left, ← y.eval ρ with
      | .int left, .int right =>
        match op.arithmetic? with
        | some f => return .int (f left right)
        | none => return truthIn type ((← op.comparison?) left right)
      | _, _ => none
  | conditional _ c x y => do if (← c.eval ρ).isTrue then x.eval ρ else y.eval ρ
  | implicitCast type kind x => do
    let operand ← x.eval ρ
    match kind, operand with
    | .lvalueToRValue, _ => return operand
    | .integralToBoolean, .int _ | .integralCast, .bool _ => return truthIn type operand.isTrue
    | _, _ => none
  | subscript .. | explicitCast .. => none

def Source.variables : Source → List (DeclId × String)
  | integer .. | truth .. => []
  | declRef _ target name => [(target, name)]
  | paren _ x | unary _ _ x | implicitCast _ _ x | explicitCast _ _ _ _ x => x.variables
  | binary _ _ x y | subscript _ x y => x.variables ++ y.variables
  | conditional _ c x y => c.variables ++ x.variables ++ y.variables

/-- The well-typed expressions over `int` and `bool`. Comparisons are of either type. -/
inductive HasType (Γ : DeclId → ScalarType) : Source → ScalarType → Prop
  | integer {value : Nat} : value < 2 ^ 31 → HasType Γ (.integer (kindOf .int) value "int") .int
  | truth {value : Bool} : HasType Γ (.truth (kindOf .bool) value) .bool
  | declRef {target : DeclId} {name : String} {τ : ScalarType} : Γ target = τ →
      HasType Γ (.declRef (kindOf τ) target name) τ
  | paren {x : Source} {τ : ScalarType} : HasType Γ x τ → HasType Γ (.paren (kindOf τ) x) τ
  | logicalNot {x : Source} {τ τ' : ScalarType} :
      HasType Γ x τ' → HasType Γ (.unary (kindOf τ) .logicalNot x) τ
  | unary {x : Source} {op : UnaryOp} : op = .minus ∨ op = .complement →
      HasType Γ x .int → HasType Γ (.unary (kindOf .int) op x) .int
  | arithmetic {x y : Source} {op : BinaryOp} : op.arithmetic?.isSome = true →
      HasType Γ x .int → HasType Γ y .int → HasType Γ (.binary (kindOf .int) op x y) .int
  | comparison {x y : Source} {op : BinaryOp} {τ : ScalarType} : op.isComparison = true →
      HasType Γ x .int → HasType Γ y .int → HasType Γ (.binary (kindOf τ) op x y) τ
  | logical {x y : Source} {op : BinaryOp} {τ τ' τ'' : ScalarType} : op.isLogical = true →
      HasType Γ x τ' → HasType Γ y τ'' → HasType Γ (.binary (kindOf τ) op x y) τ
  | conditional {c x y : Source} {τ τ' : ScalarType} : HasType Γ c τ' →
      HasType Γ x τ → HasType Γ y τ → HasType Γ (.conditional (kindOf τ) c x y) τ
  | read {x : Source} {τ : ScalarType} :
      HasType Γ x τ → HasType Γ (.implicitCast (kindOf τ) .lvalueToRValue x) τ
  | toInt {x : Source} :
      HasType Γ x .bool → HasType Γ (.implicitCast (kindOf .int) .integralCast x) .int
  | toBool {x : Source} :
      HasType Γ x .int → HasType Γ (.implicitCast (kindOf .bool) .integralToBoolean x) .bool

theorem HasType.type_eq (h : HasType Γ s τ) : s.type = kindOf τ := by
  cases h <;> rfl

/-- An expression without subscripts, written casts and addresses, for which emission always returns. -/
def Source.isSimple : Source → Bool
  | integer .. | truth .. | declRef .. => true
  | paren _ x | implicitCast _ _ x => x.isSimple
  | unary _ op x => op != .addressOf && x.isSimple
  | binary _ _ x y => x.isSimple && y.isSimple
  | conditional _ c x y => c.isSimple && (x.isSimple && y.isSimple)
  | subscript .. | explicitCast .. => false

theorem Source.isSimple_core (s : Source) : s.core.isSimple = s.isSimple := by
  induction s with
  | paren type x ih => exact ih
  | integer | truth | declRef | unary | binary | conditional | subscript | implicitCast
  | explicitCast => rfl

theorem HasType.isSimple (h : HasType Γ s τ) : s.isSimple = true := by
  induction h with
  | unary hop _ ih => rcases hop with rfl | rfl <;> exact ih
  | _ => simp_all [Source.isSimple]

/-! ## Truth values and integers -/

@[simp] theorem isTrue_truthIn (type : TypeKind) (value : Bool) : (truthIn type value).isTrue = value := by
  unfold truthIn
  cases value <;> split <;> rfl

@[simp] theorem type_truthIn (τ : ScalarType) (value : Bool) : (truthIn (kindOf τ) value).type = τ := by
  cases τ <;> rfl

section Meaning

theorem means_asInteger (h : Means σ t (.bool b)) :
    Means σ (Forms.asInteger t) (.int (if b then 1 else 0)) := by
  have hone : Means σ (.number 1 .none) (.int 1) := .number (by decide)
  have hzero : Means σ (.number 0 .none) (.int 0) := .number (by decide)
  have hchoice := h.conditional hone hzero rfl
  cases b <;> exact hchoice

theorem means_ofTruth (h : Means σ t (.bool b)) (τ : ScalarType) :
    Means σ (Forms.ofTruth (kindOf τ) t).value (truthIn (kindOf τ) b) := by
  cases τ with
  | int => exact means_asInteger h
  | bool => exact h

theorem means_nonzero (h : Means σ t v) : Means σ (Forms.nonzero (kindOf v.type) t) (.bool v.isTrue) := by
  cases v with
  | int i =>
    have hzero : Means σ (.number 0 .none) (.int 0) := .number (by decide)
    have hne : BinaryOp.comparison? .ne = some (· != ·) := rfl
    exact .comparison hne h hzero
  | bool b => exact h

end Meaning

/-! ## Values are kept -/

/-- A native expression has a value, its C# tree has the same one, and its condition tells it from zero. -/
structure Preserved (ρ : DeclId → Scalar) (σ : String → Scalar) (s : Source) (v : Scalar) : Prop where
  eval : s.eval ρ = some v
  value : Means σ s.value v
  condition : Means σ s.condition (.bool v.isTrue)

section Preservation

variable {s : Source} {v : Scalar}

theorem Preserved.of_value (htype : s.type = kindOf v.type) (htruth : s.forms.truth = none)
    (heval : s.eval ρ = some v) (hvalue : Means σ s.value v) : Preserved ρ σ s v := by
  refine ⟨heval, hvalue, ?_⟩
  rw [Source.condition, Forms.condition, htruth, Option.getD_none, htype]
  exact means_nonzero hvalue

theorem Preserved.of_truth (hforms : s.forms = .ofTruth (kindOf τ) t)
    (heval : s.eval ρ = some (truthIn (kindOf τ) b)) (h : Means σ t (.bool b)) :
    Preserved ρ σ s (truthIn (kindOf τ) b) := by
  refine ⟨heval, ?_, ?_⟩
  · rw [Source.value, hforms]
    exact means_ofTruth h τ
  · rw [Source.condition, hforms, Forms.condition_ofTruth, isTrue_truthIn]
    exact h

theorem preserved_arithmetic (hop : op.arithmetic?.isSome = true) (hx : Preserved ρ σ x (.int i))
    (hy : Preserved ρ σ y (.int j)) : ∃ k, Preserved ρ σ (.binary (kindOf .int) op x y) (.int k) := by
  obtain ⟨f, hf⟩ := Option.isSome_iff_exists.mp hop
  have hlogical : op.isLogical = false ∧ op ≠ .logicalAnd ∧ op ≠ .logicalOr := by
    cases op <;> first | exact ⟨rfl, nofun, nofun⟩ | cases hop
  have hcomparison : op.isComparison = false := by
    cases op <;> first | rfl | cases hop
  have hforms : (Source.binary (kindOf .int) op x y).forms = { value := .binary op x.value y.value } :=
    Source.forms_binary hlogical.1 hcomparison
  refine ⟨f i j, .of_value rfl (by rw [hforms]) ?_ ?_⟩
  · simp [Source.eval, hx.eval, hy.eval, hlogical, hf]
  · rw [Source.value, hforms]
    exact .arithmetic hf hx.value hy.value

theorem preserved_comparison (τ : ScalarType) (hop : op.isComparison = true) (hx : Preserved ρ σ x (.int i))
    (hy : Preserved ρ σ y (.int j)) :
    ∃ b, Preserved ρ σ (.binary (kindOf τ) op x y) (truthIn (kindOf τ) b) := by
  obtain ⟨f, hf⟩ : ∃ f, op.comparison? = some f := by
    cases op <;> first | exact ⟨_, rfl⟩ | cases hop
  have hother : op ≠ .logicalAnd ∧ op ≠ .logicalOr ∧ op.arithmetic? = none := by
    refine ⟨?_, ?_, ?_⟩
    · rintro rfl
      cases hop
    · rintro rfl
      cases hop
    · cases op <;> first | rfl | cases hop
  refine ⟨f i j, .of_truth (Source.forms_comparison hop) ?_ (.comparison hf hx.value hy.value)⟩
  simp [Source.eval, hx.eval, hy.eval, hother, hf]

theorem preserved_logical (τ : ScalarType) (hop : op.isLogical = true) (hx : Preserved ρ σ x v)
    (hy : Preserved ρ σ y w) : ∃ b, Preserved ρ σ (.binary (kindOf τ) op x y) (truthIn (kindOf τ) b) := by
  have hcases : op = .logicalAnd ∨ op = .logicalOr := by
    cases op <;> first | exact .inl rfl | exact .inr rfl | cases hop
  -- Both languages skip the right operand in the same cases.
  rcases hcases with rfl | rfl
  · refine ⟨_, .of_truth (Source.forms_logical hop) ?_ (hx.condition.logicalAnd hy.condition)⟩
    cases hv : v.isTrue <;> simp [Source.eval, hx.eval, hy.eval, hv]
  · refine ⟨_, .of_truth (Source.forms_logical hop) ?_ (hx.condition.logicalOr hy.condition)⟩
    cases hv : v.isTrue <;> simp [Source.eval, hx.eval, hy.eval, hv]

theorem HasType.preserved (h : HasType Γ s τ) (hρ : ∀ target, (ρ target).type = Γ target)
    (hσ : ∀ target name, (target, name) ∈ s.variables → σ name = ρ target) :
    ∃ v, v.type = τ ∧ Preserved ρ σ s v := by
  induction h with
  | integer hvalue => exact ⟨_, rfl, .of_value rfl rfl rfl (.number hvalue)⟩
  | truth => exact ⟨_, rfl, .of_value rfl rfl rfl (.truth _)⟩
  | @declRef target name τ htarget =>
    have hname := hσ target name List.mem_cons_self
    have htype := (hρ target).trans htarget
    refine ⟨ρ target, htype, .of_value (by rw [htype]; rfl) rfl rfl ?_⟩
    exact hname ▸ .name name
  | paren hx ih =>
    obtain ⟨v, hv, hkept⟩ := ih hσ
    refine ⟨v, hv, hkept.eval, hkept.value, ?_⟩
    -- The condition depends on the type too, which parentheses keep.
    have hcondition := hkept.condition
    rwa [Source.condition, hx.type_eq] at hcondition
  | @logicalNot x τ _ _ ih =>
    obtain ⟨v, -, hkept⟩ := ih hσ
    refine ⟨truthIn (kindOf τ) (!v.isTrue), type_truthIn τ _, .of_truth Source.forms_logicalNot ?_ ?_⟩
    · simp [Source.eval, hkept.eval]
    · exact hkept.condition.logicalNot
  | @unary x op hop _ ih =>
    obtain ⟨v, hv, hkept⟩ := ih hσ
    obtain ⟨i, rfl⟩ := Scalar.exists_int hv
    obtain ⟨f, hf⟩ : ∃ f, op.arithmetic? = some f := by
      rcases hop with rfl | rfl <;> exact ⟨_, rfl⟩
    have hnot : op ≠ .logicalNot := by
      rcases hop with rfl | rfl <;> decide
    have hforms : (Source.unary (kindOf .int) op x).forms = { value := .unary op x.value } :=
      Source.forms_unary hnot
    refine ⟨.int (f i), rfl, .of_value rfl (by rw [hforms]) ?_ ?_⟩
    · simp [Source.eval, hkept.eval, hnot, hf]
    · rw [Source.value, hforms]
      exact .unary hf hkept.value
  | @arithmetic x y op hop _ _ ihx ihy =>
    simp only [Source.variables, List.mem_append] at hσ
    obtain ⟨v, hv, hx⟩ := ihx fun target name h => hσ target name (.inl h)
    obtain ⟨w, hw, hy⟩ := ihy fun target name h => hσ target name (.inr h)
    obtain ⟨i, rfl⟩ := Scalar.exists_int hv
    obtain ⟨j, rfl⟩ := Scalar.exists_int hw
    obtain ⟨b, hkept⟩ := preserved_arithmetic hop hx hy
    exact ⟨_, rfl, hkept⟩
  | @comparison x y op τ hop _ _ ihx ihy =>
    simp only [Source.variables, List.mem_append] at hσ
    obtain ⟨v, hv, hx⟩ := ihx fun target name h => hσ target name (.inl h)
    obtain ⟨w, hw, hy⟩ := ihy fun target name h => hσ target name (.inr h)
    obtain ⟨i, rfl⟩ := Scalar.exists_int hv
    obtain ⟨j, rfl⟩ := Scalar.exists_int hw
    obtain ⟨b, hkept⟩ := preserved_comparison τ hop hx hy
    exact ⟨_, type_truthIn τ b, hkept⟩
  | @logical x y op τ _ _ hop _ _ ihx ihy =>
    simp only [Source.variables, List.mem_append] at hσ
    obtain ⟨v, -, hx⟩ := ihx fun target name h => hσ target name (.inl h)
    obtain ⟨w, -, hy⟩ := ihy fun target name h => hσ target name (.inr h)
    obtain ⟨b, hkept⟩ := preserved_logical τ hop hx hy
    exact ⟨_, type_truthIn τ b, hkept⟩
  | @conditional c x y τ _ _ _ _ ihc ihx ihy =>
    simp only [Source.variables, List.mem_append] at hσ
    obtain ⟨u, -, hc⟩ := ihc fun target name h => hσ target name (.inl (.inl h))
    obtain ⟨v, hv, hx⟩ := ihx fun target name h => hσ target name (.inl (.inr h))
    obtain ⟨w, hw, hy⟩ := ihy fun target name h => hσ target name (.inr h)
    have htype : (if u.isTrue then v else w).type = τ := by
      split <;> assumption
    refine ⟨if u.isTrue then v else w, htype, .of_value (by rw [htype]; rfl) rfl ?_ ?_⟩
    · cases hu : u.isTrue <;> simp [Source.eval, hc.eval, hx.eval, hy.eval, hu]
    · exact hc.condition.conditional hx.value hy.value (hv.trans hw.symm)
  | @read x τ hx ih =>
    obtain ⟨v, hv, hkept⟩ := ih hσ
    refine ⟨v, hv, .of_value (by rw [hv]; rfl) rfl ?_ hkept.value⟩
    simp [Source.eval, hkept.eval]
  | @toInt x _ ih =>
    obtain ⟨v, hv, hkept⟩ := ih hσ
    obtain ⟨b, rfl⟩ := Scalar.exists_bool hv
    refine ⟨truthIn (kindOf .int) b, rfl, .of_value rfl rfl ?_ (means_asInteger hkept.value)⟩
    simp [Source.eval, hkept.eval, Scalar.isTrue]
  | @toBool x _ ih =>
    obtain ⟨v, hv, hkept⟩ := ih hσ
    obtain ⟨i, rfl⟩ := Scalar.exists_int hv
    refine ⟨.bool (Scalar.int i).isTrue, rfl, .of_value rfl rfl ?_ hkept.condition⟩
    simp [Source.eval, hkept.eval, truthIn, kindOf, TypeKind.isBool]

end Preservation

/-! ## Emission returns -/

variable {env : Env} {scope : Scope}

theorem Holds.exists_core {id : ExprId} (h : Holds env id s) (hfuel : s.height ≤ fuel) :
    ∃ inner, ignoreParensFrom env.ast fuel id = some inner := by
  induction fuel generalizing id s with
  | zero =>
    have hpos := s.height_pos
    omega
  | succ fuel ih =>
    rcases h.paren_or_core with ⟨type, inner, x, rfl, ⟨e, he, hkind, -⟩, hx⟩ |
      ⟨hcore, kind, ⟨e, he, rfl, -⟩, hkind⟩
    · obtain ⟨core, hcore⟩ := ih hx (Nat.le_of_succ_le_succ hfuel)
      exact ⟨core, by simp only [ignoreParensFrom, he, hkind, bind, Option.bind_some, hcore]⟩
    · exact ⟨id, by simp only [ignoreParensFrom, he, bind, Option.bind_some]; rfl⟩

/-- The parts of an expression give something for every simple tree up to a height. -/
structure Parts.Complete (parts : Parts) (env : Env) (scope : Scope) (height : Nat) : Prop where
  value : ∀ {id s}, Holds env id s → s.isSimple = true → s.height ≤ height →
    ∃ e, (parts.value id).Gives env scope e
  condition : ∀ {id s}, Holds env id s → s.isSimple = true → s.height ≤ height →
    ∃ e, (parts.condition id).Gives env scope e

section Completeness

variable {parts : Parts} {id : ExprId} {x : Source}

theorem truthAs_gives {type : Native.TypeId} (scope : Scope) (c : Managed.Expr)
    (h : env.ast.canonicalKind? type = some kind) : ∃ e, (truthAs type c).Gives env scope e := by
  simp only [truthAs, gives_bind, gives_isBool, h, Option.some.injEq, exists_eq_left']
  split
  · exact ⟨_, .pure⟩
  · exact ⟨_, .pure⟩

theorem integerRule_gives {spelling : String} (scope : Scope) (hn : env.ast.expr? id = some n)
    (hvalue : Native.integer? spelling.toList = some value) (hmanaged : HasManagedType env id managed) :
    ∃ e, (integerRule n spelling).Gives env scope e := by
  obtain ⟨body, hbody, -⟩ := integer_of_nativeInteger hvalue
  obtain ⟨n', hn', hmap⟩ := hmanaged
  obtain rfl := Option.mem_unique hn hn'
  obtain ⟨m, hm, -⟩ := hmap scope.record n.location
  exact ⟨_, by simp only [integerRule, hbody, gives_bind, gives_mapType]; exact ⟨m, hm, .pure⟩⟩

theorem binaryRaw_gives (op : BinaryOp) (hparts : parts.Complete env scope height) (hx : Holds env lhs x)
    (htx : x.isSimple = true) (hy : Holds env rhs y) (hty : y.isSimple = true)
    (hheight : max x.height y.height ≤ height) : ∃ e, (binaryRaw parts op lhs rhs).Gives env scope e := by
  obtain ⟨hleft, hright⟩ := Nat.max_le.mp hheight
  unfold binaryRaw
  split
  · obtain ⟨l, hl⟩ := hparts.condition hx htx hleft
    obtain ⟨r, hr⟩ := hparts.condition hy hty hright
    exact ⟨_, .bind hl (.bind hr .pure)⟩
  · obtain ⟨l, hl⟩ := hparts.value hx htx hleft
    obtain ⟨r, hr⟩ := hparts.value hy hty hright
    refine ⟨.binary op l r, .bind (gives_enumOperands hx hy) ?_⟩
    exact .bind hl (.bind hr .pure)

theorem binaryRule_gives (hparts : parts.Complete env scope height)
    (htype : env.ast.canonicalKind? n.type = some type) (hop : op ≠ .comma) (hx : Holds env lhs x)
    (htx : x.isSimple = true) (hy : Holds env rhs y) (hty : y.isSimple = true)
    (hheight : max x.height y.height ≤ height) : ∃ e, (binaryRule parts n op lhs rhs).Gives env scope e := by
  obtain ⟨raw, hraw⟩ := binaryRaw_gives op hparts hx htx hy hty hheight
  rw [binaryRule, if_neg hop]
  by_cases htruth : (op.isComparison || op.isLogical) = true
  · obtain ⟨e, he⟩ := truthAs_gives scope raw htype
    exact ⟨e, .bind hraw (by rwa [if_pos htruth])⟩
  · exact ⟨raw, .bind hraw (by rw [if_neg htruth]; exact .pure)⟩

theorem unaryRule_gives {op : UnaryOp} (hparts : parts.Complete env scope height)
    (htype : env.ast.canonicalKind? n.type = some type) (hop : op ≠ .addressOf) (hx : Holds env operand x)
    (htx : x.isSimple = true) (hheight : x.height ≤ height) :
    ∃ e, (unaryRule parts n op operand).Gives env scope e := by
  unfold unaryRule
  split
  · obtain ⟨c, hc⟩ := hparts.condition hx htx hheight
    obtain ⟨e, he⟩ := truthAs_gives scope (.unary .logicalNot c) htype
    refine ⟨e, .bind ?_ he⟩
    exact .bind hc .pure
  · exact absurd rfl hop
  · obtain ⟨v, hv⟩ := hparts.value hx htx hheight
    exact ⟨.unary op v, .bind (a := ()) gives_markPointersIf (.bind hv .pure)⟩

theorem conditionalRule_gives {cond : ExprId} (hparts : parts.Complete env scope height)
    (hc : Holds env cond c) (htc : c.isSimple = true) (hx : Holds env lhs x) (htx : x.isSimple = true)
    (hy : Holds env rhs y) (hty : y.isSimple = true) (hheight : max c.height (max x.height y.height) ≤ height) :
    ∃ e, (conditionalRule parts cond lhs rhs).Gives env scope e := by
  obtain ⟨hcond, hbranches⟩ := Nat.max_le.mp hheight
  obtain ⟨hleft, hright⟩ := Nat.max_le.mp hbranches
  obtain ⟨a, ha⟩ := hparts.condition hc htc hcond
  obtain ⟨b, hb⟩ := hparts.value hx htx hleft
  obtain ⟨d, hd⟩ := hparts.value hy hty hright
  simp only [conditionalRule, gives_bind, gives_pure]
  exact ⟨_, a, ha, b, hb, d, hd, rfl⟩

theorem implicitCastRule_gives (hparts : parts.Complete env scope height)
    (htype : env.ast.canonicalKind? n.type = some type)
    (hkind : kind = .lvalueToRValue ∨ kind = .integralToBoolean ∨
      kind = .integralCast ∧ x.type.isBool = true ∧ type.isBool = false)
    (hx : Holds env operand x) (htx : x.isSimple = true) (hheight : x.height ≤ height) :
    ∃ e, (implicitCastRule parts n kind operand).Gives env scope e := by
  obtain ⟨v, hv⟩ := hparts.value hx htx hheight
  obtain ⟨c, hc⟩ := hparts.condition hx htx hheight
  obtain ⟨_, m, hm, -, hsource⟩ := hx.isNode
  simp only [implicitCastRule, gives_bind, gives_exprOf, exists_found hm]
  rcases hkind with rfl | rfl | ⟨rfl, hbool, hnot⟩
  · exact ⟨v, hv⟩
  · exact ⟨c, hc⟩
  · simp only [integralCast, gives_bind, gives_exprOf, hm, gives_isBool, htype, hsource,
      Option.some.injEq, exists_eq_left', hbool, hnot, Bool.not_false, Bool.and_true, if_true,
      gives_pure]
    exact ⟨_, v, hv, rfl⟩

theorem valueRule_gives (hparts : parts.Complete env scope height) (hs : Holds env id s)
    (ht : s.isSimple = true) (hheight : s.height ≤ height + 1) :
    ∃ e, (valueRule parts id).Gives env scope e := by
  have hbelow : s.height - 1 ≤ height := by omega
  cases hs with
  | integer hnode hvalue hmanaged =>
    obtain ⟨n, hn, hkind, -⟩ := hnode
    obtain ⟨e, he⟩ := integerRule_gives scope hn hvalue hmanaged
    exact ⟨e, .bind (gives_exprOf.mpr hn) (by rw [hkind]; exact he)⟩
  | truth hnode =>
    obtain ⟨n, hn, hkind, -⟩ := hnode
    exact ⟨_, .bind (gives_exprOf.mpr hn) (by rw [hkind]; exact .pure)⟩
  | declRef hnode hlocal =>
    obtain ⟨n, hn, hkind, -⟩ := hnode
    exact ⟨_, .bind (gives_exprOf.mpr hn) (by rw [hkind]; exact hlocal.gives_declRefRule)⟩
  | paren hnode hx =>
    obtain ⟨n, hn, hkind, -⟩ := hnode
    obtain ⟨v, hv⟩ := hparts.value hx ht hbelow
    refine ⟨.paren v, .bind (gives_exprOf.mpr hn) ?_⟩
    rw [hkind]
    exact .bind hv .pure
  | @unary _ operand _ op x hnode _ hx =>
    obtain ⟨n, hn, hkind, htype⟩ := hnode
    obtain ⟨hop, htx⟩ := Bool.and_eq_true_iff.mp ht
    obtain ⟨e, he⟩ := unaryRule_gives hparts htype (bne_iff_ne.mp hop) hx htx hbelow
    exact ⟨e, .bind (gives_exprOf.mpr hn) (by rw [hkind]; exact he)⟩
  | @binary _ lhs rhs _ op x y hnode hop hx hy =>
    obtain ⟨n, hn, hkind, htype⟩ := hnode
    obtain ⟨htx, hty⟩ := Bool.and_eq_true_iff.mp ht
    obtain ⟨e, he⟩ := binaryRule_gives hparts htype hop hx htx hy hty hbelow
    exact ⟨e, .bind (gives_exprOf.mpr hn) (by rw [hkind]; exact he)⟩
  | conditional hnode hc hx hy =>
    obtain ⟨n, hn, hkind, -⟩ := hnode
    obtain ⟨htc, htxy⟩ := Bool.and_eq_true_iff.mp ht
    obtain ⟨htx, hty⟩ := Bool.and_eq_true_iff.mp htxy
    obtain ⟨e, he⟩ := conditionalRule_gives hparts hc htc hx htx hy hty hbelow
    exact ⟨e, .bind (gives_exprOf.mpr hn) (by rw [hkind]; exact he)⟩
  | subscript => cases ht
  | @implicitCast _ operand _ kind x hnode hcast hx =>
    obtain ⟨n, hn, hkind, htype⟩ := hnode
    obtain ⟨e, he⟩ := implicitCastRule_gives hparts htype hcast hx ht hbelow
    exact ⟨e, .bind (gives_exprOf.mpr hn) (by rw [hkind]; exact he)⟩
  | explicitCast => cases ht

theorem comparedRule_gives (hs : Holds env id s) (hvalue : ∃ v, (value id).Gives env scope v) :
    ∃ e, (comparedRule value id).Gives env scope e := by
  obtain ⟨v, hv⟩ := hvalue
  obtain ⟨_, n, hn, -, htype⟩ := hs.isNode
  simp only [comparedRule, gives_bind, gives_exprOf, hn, gives_isBool, htype, Option.some.injEq,
    exists_eq_left']
  cases hbool : s.type.isBool with
  | true => exact ⟨v, v, hv, .pure⟩
  | false =>
    simp only [Bool.false_eq_true, if_false, gives_bind, gives_isPointer, htype, Option.some.injEq,
      exists_eq_left']
    cases hpointer : s.type.isPointer with
    | true => exact ⟨_, v, hv, .pure⟩
    | false => exact ⟨_, v, hv, .pure⟩

theorem conditionRule_gives (hparts : parts.Complete env scope height) (hs : Holds env id s)
    (ht : s.isSimple = true) (hheight : s.height ≤ height + 1) :
    ∃ e, (conditionRule parts (valueRule parts) id).Gives env scope e := by
  -- Parentheses are searched with one unit of fuel for each expression of the arena.
  obtain ⟨inner, hinner⟩ := hs.exists_core hs.height_le
  obtain ⟨e, he⟩ := comparedRule_gives hs (valueRule_gives hparts hs ht hheight)
  have hcore := hs.core hinner
  have hbelow : s.core.height - 1 ≤ height := by
    have hle := s.height_core_le
    omega
  have htcore := s.isSimple_core.trans ht
  generalize s.core = c at hcore hbelow htcore
  simp only [conditionRule, gives_bind, gives_ignoreParens, gives_exprOf, exists_found hinner]
  cases hcore with
  | @binary _ lhs rhs _ op x y hnode hop hx hy =>
    obtain ⟨m, hm, hkind, -⟩ := hnode
    by_cases htruth : (op.isComparison || op.isLogical) = true
    · obtain ⟨htx, hty⟩ := Bool.and_eq_true_iff.mp htcore
      obtain ⟨raw, hraw⟩ := binaryRaw_gives op hparts hx htx hy hty hbelow
      refine ⟨raw, m, hm, ?_⟩
      rw [hkind]
      dsimp only
      rwa [if_pos htruth]
    · refine ⟨e, m, hm, ?_⟩
      rw [hkind]
      dsimp only
      rwa [if_neg htruth]
  | @unary _ operand _ op x hnode _ hx =>
    obtain ⟨m, hm, hkind, -⟩ := hnode
    by_cases hop : op = .logicalNot
    · subst hop
      obtain ⟨c, hc⟩ := hparts.condition hx htcore hbelow
      refine ⟨.unary .logicalNot c, m, hm, ?_⟩
      rw [hkind]
      exact .bind hc .pure
    · refine ⟨e, m, hm, ?_⟩
      rw [hkind]
      cases op <;> first | exact he | contradiction
  | integer hnode | truth hnode | declRef hnode | paren hnode | conditional hnode | subscript hnode
  | implicitCast hnode | explicitCast hnode =>
    obtain ⟨m, hm, hkind, -⟩ := hnode
    exact ⟨e, m, hm, by rw [hkind]; exact he⟩

end Completeness

theorem partsTo_complete (depth : Nat) : (partsTo depth).Complete env scope depth := by
  induction depth with
  | zero =>
    constructor <;>
    · intro id s _ _ hheight
      have hpos := s.height_pos
      omega
  | succ depth ih => exact ⟨fun hs ht => valueRule_gives ih hs ht, fun hs ht => conditionRule_gives ih hs ht⟩

/-! ## Values of emitted expressions -/

section Emission

variable {Γ : DeclId → ScalarType} {ρ : DeclId → Scalar} {σ : String → Scalar} {id : ExprId} {s : Source}
  {τ : ScalarType}

theorem emitValue_gives (scope : Scope) (hs : Holds env id s) (ht : s.isSimple = true) :
    ∃ e, (emitValue id).Gives env scope e := by
  obtain ⟨e, he⟩ := (partsTo_complete _).value hs ht (Nat.le_succ_of_le hs.height_le)
  exact ⟨e, gives_emitValue.mpr he⟩

theorem emitCondition_gives (scope : Scope) (hs : Holds env id s) (ht : s.isSimple = true) :
    ∃ e, (emitCondition id).Gives env scope e := by
  obtain ⟨e, he⟩ := (partsTo_complete _).condition hs ht (Nat.le_succ_of_le hs.height_le)
  exact ⟨e, gives_emitCondition.mpr he⟩

theorem read_means (hdenotes : Csharp.Denotes e t) (h : Means σ t v) :
    ∃ u, Csharp.read e.text = some u ∧ Means σ u v := by
  obtain ⟨u, hread, rfl, -⟩ := Csharp.read_text hdenotes
  exact ⟨u, hread, .of_bare h⟩

/-- **Emission keeps values.** C# reads what is emitted as an expression of the same type and value, and as
a condition that is true exactly if the value is not zero. -/
theorem emission_preserves_values {settings : Settings} {ast : Native.Ast}
    (hsettings : settings.fault? = none) (henv : prepare settings ast = .ok env)
    (hs : Holds env id s) (ht : HasType Γ s τ) (hρ : ∀ target, (ρ target).type = Γ target)
    (hσ : ∀ target name, (target, name) ∈ s.variables → σ name = ρ target) (c : Context) :
    ∃ v, s.eval ρ = some v ∧ v.type = τ ∧
      (∃ e c' t, (emitValue id).run env c = (.ok e, c') ∧ Csharp.read e.text = some t ∧
        t.typeOf (fun name => (σ name).type) = some τ ∧ t.eval σ = some v) ∧
      ∃ e c' t, (emitCondition id).run env c = (.ok e, c') ∧ Csharp.read e.text = some t ∧
        t.typeOf (fun name => (σ name).type) = some .bool ∧ t.eval σ = some (.bool v.isTrue) := by
  have hnames := namesLocals_of_prepare hsettings henv
  obtain ⟨v, rfl, hkept⟩ := ht.preserved hρ hσ
  refine ⟨v, hkept.eval, rfl, ?_, ?_⟩
  · obtain ⟨e, he⟩ := emitValue_gives c.scope hs ht.isSimple
    obtain ⟨c', hrun⟩ := he.run_eq
    obtain ⟨t, hread, hmeans⟩ := read_means (emitValue_denotes hnames hs he) hkept.value
    exact ⟨e, c', t, hrun, hread, hmeans.type, hmeans.value⟩
  · obtain ⟨e, he⟩ := emitCondition_gives c.scope hs ht.isSimple
    obtain ⟨c', hrun⟩ := he.run_eq
    obtain ⟨t, hread, hmeans⟩ := read_means (emitCondition_denotes hnames hs he) hkept.condition
    exact ⟨e, c', t, hrun, hread, hmeans.type, hmeans.value⟩

end Emission

/-- The C expression `(low < 010) + !flag && flag ? (low < 010) + !flag : flag`. -/
def countedTruth : Env where
  ast :=
    { file := "truth.h"
      decls := #[{ kind := .param ⟨0⟩, name := "low" }, { kind := .var { type := ⟨1⟩ }, name := "flag" }]
      exprs :=
        #[{ kind := .declRef ⟨0⟩, type := ⟨0⟩ },
          { kind := .implicitCast .lvalueToRValue ⟨0⟩, type := ⟨0⟩ },
          { kind := .declRef ⟨1⟩, type := ⟨1⟩ },
          { kind := .implicitCast .lvalueToRValue ⟨2⟩, type := ⟨1⟩ },
          { kind := .integer "010", type := ⟨0⟩ },
          { kind := .binary .lt ⟨1⟩ ⟨4⟩, type := ⟨0⟩ },
          { kind := .paren ⟨5⟩, type := ⟨0⟩ },
          { kind := .unary .logicalNot ⟨3⟩, type := ⟨0⟩ },
          { kind := .binary .add ⟨6⟩ ⟨7⟩, type := ⟨0⟩ },
          { kind := .binary .logicalAnd ⟨8⟩ ⟨3⟩, type := ⟨0⟩ },
          { kind := .implicitCast .integralCast ⟨3⟩, type := ⟨0⟩ },
          { kind := .conditional ⟨9⟩ ⟨8⟩ ⟨10⟩, type := ⟨0⟩ }]
      types := #[.ofBuiltin .int, .ofBuiltin .bool] }
  settings := {}
  symbols := ⟨#["low", "flag"], [], [], [], [], [], []⟩

def truthCount : Source :=
  .binary (kindOf .int) .add
    (.paren (kindOf .int) (.binary (kindOf .int) .lt
      (.implicitCast (kindOf .int) .lvalueToRValue (.declRef (kindOf .int) ⟨0⟩ "low"))
      (.integer (kindOf .int) 8 "int")))
    (.unary (kindOf .int) .logicalNot
      (.implicitCast (kindOf .bool) .lvalueToRValue (.declRef (kindOf .bool) ⟨1⟩ "flag")))

def countedTruthSource : Source :=
  let flag : Source :=
    .implicitCast (kindOf .bool) .lvalueToRValue (.declRef (kindOf .bool) ⟨1⟩ "flag")
  .conditional (kindOf .int) (.binary (kindOf .int) .logicalAnd truthCount flag) truthCount
    (.implicitCast (kindOf .int) .integralCast flag)

theorem countedTruth_holds : Holds countedTruth ⟨11⟩ countedTruthSource := by
  have hlow : IsLocal countedTruth ⟨0⟩ := .param rfl rfl rfl rfl (.inr (by decide))
  have hflag : IsLocal countedTruth ⟨1⟩ := .var rfl rfl rfl nofun rfl rfl (by decide)
  have hread : Holds countedTruth ⟨3⟩
      (.implicitCast (kindOf .bool) .lvalueToRValue (.declRef (kindOf .bool) ⟨1⟩ "flag")) :=
    .implicitCast ⟨_, rfl, rfl, rfl⟩ (.inl rfl) (.declRef ⟨_, rfl, rfl, rfl⟩ hflag)
  have hcount : Holds countedTruth ⟨8⟩ truthCount := by
    refine .binary ⟨_, rfl, rfl, rfl⟩ nofun ?_ (.unary ⟨_, rfl, rfl, rfl⟩ nofun hread)
    refine .paren ⟨_, rfl, rfl, rfl⟩ (.binary ⟨_, rfl, rfl, rfl⟩ nofun ?_ ?_)
    · exact .implicitCast ⟨_, rfl, rfl, rfl⟩ (.inl rfl) (.declRef ⟨_, rfl, rfl, rfl⟩ hlow)
    · exact .integer ⟨_, rfl, rfl, rfl⟩ (by decide) ⟨_, rfl, fun _ _ => ⟨_, rfl, rfl⟩⟩
  refine .conditional ⟨_, rfl, rfl, rfl⟩ ?_ hcount ?_
  · exact .binary ⟨_, rfl, rfl, rfl⟩ nofun hcount hread
  · exact .implicitCast ⟨_, rfl, rfl, rfl⟩ (.inr (.inr ⟨rfl, rfl, rfl⟩)) hread

theorem countedTruth_hasType :
    HasType (fun target => if target = ⟨1⟩ then .bool else .int) countedTruthSource .int := by
  have hcount : HasType (fun target => if target = ⟨1⟩ then .bool else .int) truthCount .int :=
    .arithmetic rfl (.paren (.comparison rfl (.read (.declRef rfl)) (.integer (by decide))))
      (.logicalNot (.read (.declRef rfl)))
  exact .conditional (.logical rfl hcount (.read (.declRef rfl))) hcount (.toInt (.read (.declRef rfl)))

theorem countedTruth_keeps_value :
    let σ : String → Scalar := fun name => if name = "flag" then .bool true else .int (-3)
    let ρ : DeclId → Scalar := fun target => if target = ⟨1⟩ then .bool true else .int (-3)
    countedTruthSource.eval ρ = some (.int 1) ∧
      (∃ e c' t, (emitValue ⟨11⟩).run countedTruth {} = (.ok e, c') ∧ Csharp.read e.text = some t ∧
        t.typeOf (fun name => (σ name).type) = some .int ∧ t.eval σ = some (.int 1)) ∧
      ∃ e c' t, (emitCondition ⟨11⟩).run countedTruth {} = (.ok e, c') ∧
        Csharp.read e.text = some t ∧ t.typeOf (fun name => (σ name).type) = some .bool ∧
        t.eval σ = some (.bool true) := by
  intro σ ρ
  have hagree : ∀ p ∈ countedTruthSource.variables, σ p.2 = ρ p.1 := by decide
  have htypes : ∀ target : DeclId, (ρ target).type = if target = ⟨1⟩ then .bool else .int := by
    intro target
    by_cases h : target = ⟨1⟩ <;> simp [ρ, h]
  obtain ⟨v, hv, -, hvalue, hcondition⟩ :=
    emission_preserves_values (show Settings.fault? {} = none from rfl)
      (show prepare {} countedTruth.ast = .ok countedTruth from rfl) countedTruth_holds
      countedTruth_hasType htypes (fun target name h => hagree (target, name) h) {}
  have hone : countedTruthSource.eval ρ = some (.int 1) := rfl
  obtain rfl : v = .int 1 := Option.some.inj (hv.symm.trans hone)
  exact ⟨hone, hvalue, hcondition⟩

end Interop.Binding
