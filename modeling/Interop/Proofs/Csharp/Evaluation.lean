import Interop.Proofs.Csharp.Parser

/-!
# Values of C# expressions

The types and values of C# expressions over `int` and `bool`. Arithmetic is that of 32 bits and wraps
around, and unlike in C a truth value is no integer. `Means σ t v` says that under an assignment of values
to names the tree has the type of `v` and evaluates to it.
-/

namespace Interop

inductive ScalarType where
  | int
  | bool
  deriving DecidableEq

inductive Scalar where
  | int (value : BitVec 32)
  | bool (value : Bool)
  deriving DecidableEq

namespace Scalar

def type : Scalar → ScalarType
  | int _ => .int
  | bool _ => .bool

@[simp] theorem type_int (value : BitVec 32) : (int value).type = .int := rfl

@[simp] theorem type_bool (value : Bool) : (bool value).type = .bool := rfl

theorem exists_int {v : Scalar} (h : v.type = .int) : ∃ i, v = .int i := by
  cases v with
  | int i => exact ⟨i, rfl⟩
  | bool b => cases h

theorem exists_bool {v : Scalar} (h : v.type = .bool) : ∃ b, v = .bool b := by
  cases v with
  | int i => cases h
  | bool b => exact ⟨b, rfl⟩

def isTrue : Scalar → Bool
  | int value => value != 0
  | bool value => value

end Scalar

/-! ## Operators on integers -/

namespace BinaryOp

def arithmetic? : BinaryOp → Option (BitVec 32 → BitVec 32 → BitVec 32)
  | .add => some (· + ·)
  | .sub => some (· - ·)
  | .mul => some (· * ·)
  | .and => some (· &&& ·)
  | .or => some (· ||| ·)
  | .xor => some (· ^^^ ·)
  | _ => none

def comparison? : BinaryOp → Option (BitVec 32 → BitVec 32 → Bool)
  | .eq => some (· == ·)
  | .ne => some (· != ·)
  | .lt => some BitVec.slt
  | .le => some BitVec.sle
  | .gt => some fun a b => b.slt a
  | .ge => some fun a b => b.sle a
  | _ => none

def truth? : BinaryOp → Option (Bool → Bool → Bool)
  | .and => some (· && ·)
  | .or => some (· || ·)
  | .xor => some (· ^^ ·)
  | .eq => some (· == ·)
  | .ne => some (· != ·)
  | _ => none

end BinaryOp

namespace UnaryOp

def arithmetic? : UnaryOp → Option (BitVec 32 → BitVec 32)
  | .plus => some id
  | .minus => some (- ·)
  | .complement => some (~~~ ·)
  | _ => none

end UnaryOp

namespace Csharp

namespace Tree

/-! ## Types and values -/

/-- The type of an expression under the types of names, if it is well typed. -/
def typeOf (Γ : String → ScalarType) : Tree → Option ScalarType
  | .number value suffix => if suffix = .none ∧ value < 2 ^ 31 then some .int else none
  | .truth _ => some .bool
  | .name text => some (Γ text)
  | .paren inner => inner.typeOf Γ
  | .unary op operand => do
    match ← operand.typeOf Γ with
    | .int => if op.arithmetic?.isSome then some .int else none
    | .bool => if op = .logicalNot then some .bool else none
  | .binary op lhs rhs => do
    let left ← lhs.typeOf Γ
    let right ← rhs.typeOf Γ
    match left, right with
    | .int, .int =>
      if op.arithmetic?.isSome then some .int
      else if op.comparison?.isSome then some .bool
      else none
    | .bool, .bool => if op.isLogical || op.truth?.isSome then some .bool else none
    | _, _ => none
  | .conditional cond thenTree elseTree => do
    let condition ← cond.typeOf Γ
    let left ← thenTree.typeOf Γ
    let right ← elseTree.typeOf Γ
    if condition = .bool ∧ left = right then some left else none
  | .null | .cast _ _ | .unchecked _ | .subscript _ _ => none

/-- The value of an expression under the values of names, as far as it is needed. -/
def eval (σ : String → Scalar) : Tree → Option Scalar
  | .number value _ => some (.int (BitVec.ofNat 32 value))
  | .truth value => some (.bool value)
  | .name text => some (σ text)
  | .paren inner => inner.eval σ
  | .unary op operand => do
    match ← operand.eval σ with
    | .int value => return .int ((← op.arithmetic?) value)
    | .bool value => if op = .logicalNot then return .bool (!value) else none
  | .binary op lhs rhs => do
    match ← lhs.eval σ with
    | .int left =>
      match ← rhs.eval σ with
      | .int right =>
        match op.arithmetic? with
        | some f => return .int (f left right)
        | none => return .bool ((← op.comparison?) left right)
      | .bool _ => none
    | .bool left =>
      if op = .logicalAnd then if left then rhs.eval σ else return .bool false
      else if op = .logicalOr then if left then return .bool true else rhs.eval σ
      else
        match ← rhs.eval σ with
        | .bool right => return .bool ((← op.truth?) left right)
        | .int _ => none
  | .conditional cond thenTree elseTree => do
    match ← cond.eval σ with
    | .bool true => thenTree.eval σ
    | .bool false => elseTree.eval σ
    | .int _ => none
  | .null | .cast _ _ | .unchecked _ | .subscript _ _ => none

theorem typeOf_bare (Γ : String → ScalarType) (t : Tree) : t.bare.typeOf Γ = t.typeOf Γ := by
  induction t <;> simp_all [bare, typeOf]

theorem eval_bare (σ : String → Scalar) (t : Tree) : t.bare.eval σ = t.eval σ := by
  induction t <;> simp_all [bare, eval]

end Tree

/-! ## Typed values -/

/-- Under the values of names the tree has the type of a value and evaluates to it. -/
structure Means (σ : String → Scalar) (t : Tree) (v : Scalar) : Prop where
  type : t.typeOf (fun text => (σ text).type) = some v.type
  value : t.eval σ = some v

namespace Means

variable {t : Tree}

theorem of_bare (h : Means σ t.bare v) : Means σ t v :=
  ⟨t.typeOf_bare _ ▸ h.type, t.eval_bare σ ▸ h.value⟩

theorem number {value : Nat} (h : value < 2 ^ 31) :
    Means σ (.number value .none) (.int (BitVec.ofNat 32 value)) :=
  ⟨if_pos ⟨rfl, h⟩, rfl⟩

theorem truth (value : Bool) : Means σ (.truth value) (.bool value) :=
  ⟨rfl, rfl⟩

theorem name (text : String) : Means σ (.name text) (σ text) :=
  ⟨rfl, rfl⟩

theorem logicalNot (h : Means σ t (.bool a)) : Means σ (.unary .logicalNot t) (.bool (!a)) := by
  constructor
  · simp [Tree.typeOf, h.type]
  · simp [Tree.eval, h.value]

theorem unary {op : UnaryOp} (hop : op.arithmetic? = some f) (h : Means σ t (.int i)) :
    Means σ (.unary op t) (.int (f i)) := by
  constructor
  · simp [Tree.typeOf, h.type, hop]
  · simp [Tree.eval, h.value, hop]

theorem arithmetic {op : BinaryOp} (hop : op.arithmetic? = some f) (ht : Means σ t (.int i))
    (hu : Means σ u (.int j)) : Means σ (.binary op t u) (.int (f i j)) := by
  constructor
  · simp [Tree.typeOf, ht.type, hu.type, hop]
  · simp [Tree.eval, ht.value, hu.value, hop]

theorem comparison {op : BinaryOp} (hop : op.comparison? = some f) (ht : Means σ t (.int i))
    (hu : Means σ u (.int j)) : Means σ (.binary op t u) (.bool (f i j)) := by
  have harithmetic : op.arithmetic? = none := by
    cases op <;> first | rfl | cases hop
  constructor
  · simp [Tree.typeOf, ht.type, hu.type, hop, harithmetic]
  · simp [Tree.eval, ht.value, hu.value, hop, harithmetic]

theorem logicalAnd (ht : Means σ t (.bool a)) (hu : Means σ u (.bool b)) :
    Means σ (.binary .logicalAnd t u) (.bool (a && b)) := by
  constructor
  · simp [Tree.typeOf, ht.type, hu.type, BinaryOp.isLogical]
  · cases a <;> simp [Tree.eval, ht.value, hu.value]

theorem logicalOr (ht : Means σ t (.bool a)) (hu : Means σ u (.bool b)) :
    Means σ (.binary .logicalOr t u) (.bool (a || b)) := by
  constructor
  · simp [Tree.typeOf, ht.type, hu.type, BinaryOp.isLogical]
  · cases a <;> simp [Tree.eval, ht.value, hu.value]

theorem conditional (hc : Means σ c (.bool a)) (ht : Means σ t v) (hu : Means σ u w) (hvw : v.type = w.type) :
    Means σ (.conditional c t u) (if a then v else w) := by
  constructor
  · cases a <;> simp [Tree.typeOf, hc.type, ht.type, hu.type, hvw]
  · cases a <;> simp [Tree.eval, hc.value, ht.value, hu.value]

end Means

end Csharp

end Interop
