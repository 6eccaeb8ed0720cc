import Interop.Managed.Integer
import Interop.Managed.Member
import Interop.Proofs.Csharp.Printing

/-!
# Integers of C#

The types and values of C# expressions over integers of every width, `bool` and enumerations. A literal
has the first type that holds it among those its suffix allows; operands are widened to the first type
that C# computes in and that holds both; a shift takes its count modulo the width. Integers of the size of
a pointer have 64 bits. Division, increments, addresses and the conversions for constants only are left
out. `Tree.HasBits` is the form in which values are proved: the type and every single bit.
-/

namespace Interop

/-! ## Operators on words, integers and truth values -/

namespace BinaryOp

def onWords? : BinaryOp → Option ((n : Nat) → BitVec n → BitVec n → BitVec n)
  | .add => some fun _ a b => a + b
  | .sub => some fun _ a b => a - b
  | .mul => some fun _ a b => a * b
  | .and => some fun _ a b => a &&& b
  | .or => some fun _ a b => a ||| b
  | .xor => some fun _ a b => a ^^^ b
  | _ => none

def onIntegers? : BinaryOp → Option (Int → Int → Bool)
  | .eq => some (· == ·)
  | .ne => some (· != ·)
  | .lt => some (· < ·)
  | .le => some (· ≤ ·)
  | .gt => some (· > ·)
  | .ge => some (· ≥ ·)
  | _ => none

def onTruths? : BinaryOp → Option (Bool → Bool → Bool)
  | .and | .logicalAnd => some (· && ·)
  | .or | .logicalOr => some (· || ·)
  | .xor | .ne => some (· != ·)
  | .eq => some (· == ·)
  | _ => none

end BinaryOp

namespace Csharp

open Managed (IntegerType)

variable {type : Managed.TypeName}

/-! ## Types -/

/-- The C# types whose values are computed with. -/
inductive ValueType where
  | truth
  | integer (type : IntegerType)
  | enumeration (name : String) (underlying : IntegerType)
  deriving DecidableEq

namespace ValueType

def bits : ValueType → Nat
  | .truth => 1
  | .integer type => type.bits
  | .enumeration _ underlying => underlying.bits

def signed : ValueType → Bool
  | .truth => false
  | .integer type => type.signed
  | .enumeration _ underlying => underlying.signed

/-- The type of a name, where `enums` gives the underlying types of enumerations. -/
def named? (enums : String → Option IntegerType) (name : String) : Option ValueType :=
  if name = "bool" then some .truth
  else if name = "char" then none
  else
    match IntegerType.ofName? name with
    | some type => some (.integer type)
    | none => (enums name).map (.enumeration name)

end ValueType

def int : IntegerType := ⟨true, 4⟩

def arithmeticTypes : List IntegerType :=
  [int, ⟨false, 4⟩, ⟨true, 6⟩, ⟨false, 6⟩, ⟨true, 8⟩, ⟨false, 8⟩]

/-- Every value of a type is one of the other: a pointer-sized integer has 32 or 64 bits. -/
def widens (source target : IntegerType) : Bool :=
  let least := if target.rank = 6 then 32 else target.bits
  source = target ||
    if source.signed = target.signed then source.bits ≤ least
    else !source.signed && source.bits < least

/-- The type in which an operator with operands of two types is computed. -/
def unified? (left right : IntegerType) : Option IntegerType :=
  arithmeticTypes.find? fun t => widens left t && widens right t

def literalTypes : Suffix → List IntegerType
  | .none => [int, ⟨false, 4⟩, ⟨true, 8⟩, ⟨false, 8⟩]
  | .u => [⟨false, 4⟩, ⟨false, 8⟩]
  | .l => [⟨true, 8⟩, ⟨false, 8⟩]
  | .ul => [⟨false, 8⟩]

def literalType? (value : Nat) (suffix : Suffix) : Option IntegerType :=
  (literalTypes suffix).find? fun t => value < 2 ^ (if t.signed then t.bits - 1 else t.bits)

/-! ## Values -/

/-- A value: a word of as many bits as its type has. -/
structure Value where
  type : ValueType
  word : BitVec type.bits
  deriving DecidableEq

namespace Value

def ofBool (b : Bool) : Value :=
  ⟨.truth, BitVec.ofBool b⟩

def ofWord (type : IntegerType) (word : BitVec type.bits) : Value :=
  ⟨.integer type, word⟩

def toInt (v : Value) : Int :=
  if v.type.signed then v.word.toInt else v.word.toNat

/-- The value of a type that an integer wraps around to. -/
def ofInt (type : ValueType) (n : Int) : Value :=
  ⟨type, BitVec.ofInt type.bits n⟩

def wordIn (v : Value) (type : IntegerType) : BitVec type.bits :=
  BitVec.ofInt type.bits v.toInt

/-- A bit of a value; beyond its width the sign is repeated. -/
def bit (v : Value) (i : Nat) : Bool :=
  if i < v.type.bits then v.word.getLsbD i else v.type.signed && v.word.msb

end Value

/-! ## Operators -/

namespace Value

def isTrue (v : Value) : Bool :=
  v.word.toNat != 0

def shifted? (op : BinaryOp) (type : IntegerType) (word : BitVec type.bits) (count : Value) :
    Option Value :=
  let n := (count.wordIn int).toNat % type.bits
  match op with
  | .shl => some (ofWord type (word <<< n))
  | .shr => some (ofWord type (if type.signed then word.sshiftRight n else word >>> n))
  | _ => none

def binary? (op : BinaryOp) (a b : Value) : Option Value :=
  match a.type, b.type with
  | .truth, .truth => op.onTruths?.map fun f => ofBool (f a.isTrue b.isTrue)
  | .integer left, .integer right =>
    if op = .shl ∨ op = .shr then do
      let type ← unified? left left
      if widens right int then shifted? op type (a.wordIn type) b else none
    else do
      let type ← unified? left right
      match op.onWords? with
      | some f => return ofWord type (f _ (a.wordIn type) (b.wordIn type))
      | none => return ofBool ((← op.onIntegers?) a.toInt b.toInt)
  | _, _ => none

/-- The result of an operator with one operand. There is no negation of unsigned types. -/
def unary? (op : UnaryOp) (v : Value) : Option Value :=
  match op, v.type with
  | .logicalNot, .truth => some (ofBool (!v.isTrue))
  | .plus, .integer type => (unified? type type).map fun t => ofWord t (v.wordIn t)
  | .complement, .integer type => (unified? type type).map fun t => ofWord t (~~~v.wordIn t)
  | .minus, .integer type =>
    (arithmeticTypes.find? fun t => t.signed && widens type t).map fun t =>
      ofWord t (-v.wordIn t)
  | _, _ => none

def cast? (v : Value) (type : ValueType) : Option Value :=
  if v.type = .truth ∨ type = .truth then if v.type = type then some v else none
  else some (ofInt type v.toInt)

def convert? (v : Value) (type : ValueType) : Option Value :=
  match v.type, type with
  | .integer source, .integer target => if widens source target then some (ofInt type v.toInt) else none
  | source, target => if source = target then some v else none

end Value

/-! ## Expressions -/

namespace Tree

/-- The value of an expression under the values of names, if it is well typed. -/
def value? (enums : String → Option IntegerType) (σ : String → Option Value) : Tree → Option Value
  | .number value suffix =>
    (literalType? value suffix).map fun type => .ofWord type (BitVec.ofNat _ value)
  | .truth value => some (.ofBool value)
  | .name text => σ text
  | .paren inner => inner.value? enums σ
  | .unary op operand => do
    (← operand.value? enums σ).unary? op
  | .binary op lhs rhs => do
    Value.binary? op (← lhs.value? enums σ) (← rhs.value? enums σ)
  | .conditional cond thenTree elseTree => do
    let condition ← cond.value? enums σ
    let left ← thenTree.value? enums σ
    let right ← elseTree.value? enums σ
    if condition.type = .truth ∧ left.type = right.type then
      return if condition.isTrue then left else right
    else none
  | .cast type operand => do
    (← operand.value? enums σ).cast? (← ValueType.named? enums type)
  | .unchecked inner => inner.value? enums σ
  | .null | .subscript _ _ => none

def assignment? (enums : String → Option IntegerType) (σ : String → Option Value) :
    Tree → Option (String × Value)
  | .binary .assign lhs rhs =>
    match lhs.bare with
    | .name text => do
      let old ← σ text
      let new ← rhs.value? enums σ
      return (text, ← new.convert? old.type)
    | _ => none
  | .paren inner => inner.assignment? enums σ
  | _ => none

theorem value_bare (enums : String → Option IntegerType) (σ : String → Option Value) (t : Tree) :
    t.bare.value? enums σ = t.value? enums σ := by
  induction t <;> simp_all [bare, value?]

def names : Tree → List String
  | .name text => [text]
  | .paren inner | .unchecked inner => inner.names
  | .unary _ operand | .cast _ operand => operand.names
  | .binary _ lhs rhs | .subscript lhs rhs => lhs.names ++ rhs.names
  | .conditional cond thenTree elseTree => cond.names ++ (thenTree.names ++ elseTree.names)
  | .number _ _ | .truth _ | .null => []

theorem names_bare (t : Tree) : t.bare.names = t.names := by
  induction t <;> simp_all [bare, names]

theorem value_congr {t : Tree} (h : ∀ text ∈ t.names, σ text = τ text) :
    t.value? enums σ = t.value? enums τ := by
  induction t with
  | name text => exact h text (by simp [names])
  | paren _ ih | unchecked _ ih | unary _ _ ih | cast _ _ ih => simp only [value?, ih h]
  | binary op lhs rhs ihl ihr =>
    simp only [names, List.mem_append] at h
    simp only [value?, ihl fun x hx => h x (.inl hx), ihr fun x hx => h x (.inr hx)]
  | conditional cond thenTree elseTree ihc iht ihe =>
    simp only [names, List.mem_append] at h
    simp only [value?, ihc fun x hx => h x (.inl hx), iht fun x hx => h x (.inr (.inl hx)),
      ihe fun x hx => h x (.inr (.inr hx))]
  | number | truth | null | subscript => simp only [value?]

theorem bare_bare (t : Tree) : t.bare.bare = t.bare := by
  induction t <;> simp_all [bare]

theorem assignment_bare (enums : String → Option IntegerType) (σ : String → Option Value) (t : Tree) :
    t.bare.assignment? enums σ = t.assignment? enums σ := by
  induction t with
  | paren inner ih => rw [bare, ih, assignment?]
  | binary op lhs rhs _ _ =>
    cases op with
    | assign => simp only [bare, assignment?, bare_bare, value_bare]
    | _ => simp only [bare, assignment?]
  | number | truth | null | name | unary | conditional | cast | unchecked | subscript =>
    simp only [bare, assignment?]

end Tree

/-! ## Properties -/

/-- The expression of a text that may be a cast to a type, whose name may be no single word. -/
def readAs (type text : String) : Option Tree :=
  if isTypeWord type then read text
  else do
    match ← read (← Text.dropLead? (Managed.parenthesized type) text) with
    | .paren inner => return .cast type inner
    | _ => none

theorem dropLead_append (lead rest : String) : Text.dropLead? lead (lead ++ rest) = some rest := by
  have hstrip : ∀ cs ds : List Char, Text.stripLead? cs (cs ++ ds) = some ds := by
    intro cs ds
    induction cs with
    | nil => rfl
    | cons c cs ih => simp [Text.stripLead?, ih]
  simp [Text.dropLead?, hstrip]

theorem readAs_castTo (h : Denotes e t) :
    ∃ u, readAs type.text (Managed.Expr.castTo type e).text = some u ∧ u.bare = .cast type.text t := by
  unfold readAs
  split
  · rename_i hword
    obtain ⟨u, hread, hbare, -⟩ := read_text (.cast hword h)
    exact ⟨u, hread, hbare⟩
  · have htext : (Managed.Expr.castTo type e).text =
        Managed.parenthesized type.text ++ Managed.parenthesized e.text := rfl
    obtain ⟨u, hread, rfl⟩ := read_parenthesized h
    rw [htext, dropLead_append]
    exact ⟨.cast type.text u, by simp [hread], rfl⟩

def propertyType? (enums : String → Option IntegerType) : Managed.Member → Option ValueType
  | .property _ type _ _ _ => ValueType.named? enums type.text
  | _ => none

def getProperty? (enums : String → Option IntegerType) (fields : String → Option Value) :
    Managed.Member → Option Value
  | .property _ type _ getter _ => do
    let value ← (← readAs type.text getter.text).value? enums fields
    value.convert? (← ValueType.named? enums type.text)
  | _ => none

/-- The fields of an object after a property of it was written. -/
def setProperty? (enums : String → Option IntegerType) (fields : String → Option Value) (v : Value) :
    Managed.Member → Option (String → Option Value)
  | .property _ type _ _ setter => do
    if ValueType.named? enums type.text = some v.type then
      let (field, new) ←
        (← read setter.text).assignment? enums (Function.update fields "value" (some v))
      return Function.update fields field (some new)
    else none
  | _ => none

theorem setProperty_eq_none {setter : Managed.Expr} (h : read setter.text = none) :
    setProperty? enums fields v (.property attrs type name getter setter) = none := by
  simp [setProperty?, h]

/-! ## Bits -/

/-- The bits of a value of a type, given those within its width. -/
def extended (type : IntegerType) (f : Nat → Bool) (i : Nat) : Bool :=
  if i < type.bits then f i else type.signed && f (type.bits - 1)

theorem extended_of_lt {type : IntegerType} (h : i < type.bits) : extended type f i = f i :=
  if_pos h

namespace Value

variable {i width : Nat} {type : IntegerType}
variable {v : Value}

theorem bit_of_lt (h : i < v.type.bits) : v.bit i = v.word.getLsbD i :=
  if_pos h

@[simp] theorem type_ofWord (type : IntegerType) (word : BitVec type.bits) :
    (ofWord type word).type = .integer type := rfl

theorem bit_ofWord (type : IntegerType) (word : BitVec type.bits) (i : Nat) :
    (ofWord type word).bit i = extended type word.getLsbD i := by
  rw [bit, extended, BitVec.msb_eq_getLsbD_last]
  rfl

theorem getLsbD_ofInt_toInt (v : Value) (h : i < n) : (BitVec.ofInt n v.toInt).getLsbD i = v.bit i := by
  rw [toInt, bit]
  split
  · rename_i hsigned
    change (v.word.signExtend n).getLsbD i = _
    rw [BitVec.getLsbD_signExtend]
    simp [h, hsigned]
  · rename_i hsigned
    rw [BitVec.ofInt_natCast, BitVec.getLsbD_ofNat]
    simp only [h, hsigned, decide_true, Bool.true_and, Bool.false_and]
    split
    · rfl
    · exact BitVec.getLsbD_of_ge v.word i (by omega)

theorem getLsbD_wordIn (v : Value) (h : i < type.bits) : (v.wordIn type).getLsbD i = v.bit i :=
  v.getLsbD_ofInt_toInt h

theorem exists_ofWord (h : v.type = .integer type) : ∃ word : BitVec type.bits, v = ofWord type word := by
  obtain ⟨vtype, word⟩ := v
  obtain rfl : vtype = .integer type := h
  exact ⟨word, rfl⟩

theorem extended_bit (h : v.type = .integer type) (i : Nat) : extended type v.bit i = v.bit i := by
  obtain ⟨word, rfl⟩ := exists_ofWord h
  by_cases hlt : i < type.bits
  · rw [extended_of_lt hlt]
  · unfold extended
    rw [if_neg hlt, bit_ofWord, bit_ofWord, extended, extended, if_neg hlt]
    split
    · rfl
    · cases type.signed <;> rfl

theorem exists_ofBool (h : v.type = .truth) : ∃ b, v = ofBool b := by
  obtain ⟨vtype, word⟩ := v
  obtain rfl : vtype = .truth := h
  have hall : ∀ word : BitVec 1, word = BitVec.ofBool (word.getLsbD 0) := by decide
  exact ⟨_, congrArg (Value.mk .truth) (hall word)⟩

theorem bit_ofBool (b : Bool) (i : Nat) : (ofBool b).bit i = (decide (i = 0) && b) := by
  cases i with
  | zero => cases b <;> rfl
  | succ i => cases b <;> rfl

/-- The value of a type that a group of bits stands for. -/
def ofBits {width : Nat} (type : ValueType) (signed : Bool) (bits : BitVec width) : Value :=
  if type = .truth then ofBool (bits != 0) else ofInt type (if signed then bits.toInt else bits.toNat)

@[simp] theorem type_ofBits (type : ValueType) (signed : Bool) (bits : BitVec width) :
    (ofBits type signed bits).type = type := by
  unfold ofBits
  split
  · rename_i htype
    exact htype.symm
  · rfl

/-- A value cut to a number of bits, the highest of which is a sign or not. -/
def truncated (v : Value) (width : Nat) (signed : Bool) : Value :=
  ofBits v.type signed (BitVec.ofInt width v.toInt)

theorem eq_of_bits {w : Value} (htype : v.type = w.type) (h : ∀ i < v.type.bits, v.bit i = w.bit i) :
    v = w := by
  obtain ⟨type, a⟩ := v
  obtain ⟨type', b⟩ := w
  obtain rfl : type = type' := htype
  have hword : a = b := by
    apply BitVec.eq_of_getLsbD_eq
    intro i hi
    have hbit := h i hi
    rwa [bit_of_lt hi, bit_of_lt hi] at hbit
  rw [hword]

theorem bit_ofInt_toInt (v : Value) {type : ValueType} (h : i < type.bits) :
    (ofInt type v.toInt).bit i = v.bit i := by
  rw [bit_of_lt (show i < (ofInt type v.toInt).type.bits from h)]
  exact v.getLsbD_ofInt_toInt h

theorem ofInt_toInt (v : Value) : ofInt v.type v.toInt = v :=
  eq_of_bits rfl fun _ hi => v.bit_ofInt_toInt hi

theorem bit_ofBits {type : ValueType} {signed : Bool} {bits : BitVec width} (htype : type ≠ .truth)
    (hi : i < type.bits) :
    (ofBits type signed bits).bit i = if i < width then bits.getLsbD i else signed && bits.msb := by
  rw [ofBits, if_neg htype]
  cases signed with
  | true =>
    rw [if_pos rfl, bit_of_lt (show i < (ofInt type bits.toInt).type.bits from hi)]
    change (bits.signExtend type.bits).getLsbD i = _
    rw [BitVec.getLsbD_signExtend]
    simp [hi]
  | false =>
    rw [if_neg Bool.false_ne_true, bit_of_lt (show i < (ofInt type bits.toNat).type.bits from hi)]
    change (BitVec.ofInt type.bits bits.toNat).getLsbD i = _
    rw [BitVec.ofInt_natCast, BitVec.getLsbD_ofNat]
    split
    · simp [hi, BitVec.getLsbD]
    · rw [← BitVec.getLsbD, BitVec.getLsbD_of_ge bits i (by omega)]
      simp

theorem isTrue_ofBool (b : Bool) : (ofBool b).isTrue = b := by
  cases b <;> rfl

theorem convert_self (v : Value) : v.convert? v.type = some v := by
  unfold convert?
  split
  · rename_i source target hsource htarget
    have heq : source = target := by simpa [hsource] using htarget
    have hwidens : widens source target = true := by simp [widens, heq]
    rw [if_pos hwidens, ofInt_toInt]
  · exact if_pos rfl

end Value

namespace Tree

def HasBits (enums : String → Option IntegerType) (σ : String → Option Value) (t : Tree)
    (type : IntegerType) (f : Nat → Bool) : Prop :=
  0 < type.bits ∧ ∃ word : BitVec type.bits,
    t.value? enums σ = some (.ofWord type word) ∧ ∀ i < type.bits, word.getLsbD i = f i

namespace HasBits

variable {enums : String → Option IntegerType} {σ : String → Option Value} {t u : Tree}
  {s s' type : IntegerType} {f g : Nat → Bool}
variable {n : Nat} {op : BinaryOp} {suffix : Suffix}

theorem congr (h : HasBits enums σ t type f) (hfg : ∀ i < type.bits, f i = g i) :
    HasBits enums σ t type g := by
  obtain ⟨hpos, word, hvalue, hbits⟩ := h
  exact ⟨hpos, word, hvalue, fun i hi => (hbits i hi).trans (hfg i hi)⟩

theorem exists_wordIn (h : HasBits enums σ t s f) :
    ∃ v : Value, t.value? enums σ = some v ∧ v.type = .integer s ∧ (∀ i, v.bit i = extended s f i) ∧
      ∀ (type : IntegerType), ∀ i < type.bits, (v.wordIn type).getLsbD i = extended s f i := by
  obtain ⟨hpos, word, hvalue, hbits⟩ := h
  have hbit : ∀ i, (Value.ofWord s word).bit i = extended s f i := by
    intro i
    rw [Value.bit_ofWord, extended, extended, hbits (s.bits - 1) (by omega)]
    split
    · rename_i hlt
      exact hbits i hlt
    · rfl
  exact ⟨_, hvalue, rfl, hbit, fun type i hi => by rw [Value.getLsbD_wordIn _ hi, hbit]⟩

theorem bits_of_unified {left right : IntegerType} (h : unified? left right = some type) :
    0 < type.bits ∧ type.bits ≤ 64 := by
  have hall : ∀ t ∈ arithmeticTypes, 0 < t.bits ∧ t.bits ≤ 64 := by decide
  exact hall type (List.mem_of_find?_eq_some h)

theorem number {value : Nat} (h : literalType? value suffix = some type) :
    HasBits enums σ (.number value suffix) type value.testBit := by
  have hpos : 0 < type.bits := by
    have hall : ∀ t ∈ literalTypes suffix, 0 < t.bits := by cases suffix <;> decide
    exact hall type (List.mem_of_find?_eq_some h)
  refine ⟨hpos, BitVec.ofNat _ value, by rw [value?, h]; rfl, fun i hi => ?_⟩
  rw [BitVec.getLsbD_ofNat]
  simp [hi]

theorem bitwise {word : (n : Nat) → BitVec n → BitVec n → BitVec n} {bit : Bool → Bool → Bool}
    (hop : op.onWords? = some word)
    (hbit : ∀ n (a b : BitVec n), ∀ i < n, (word n a b).getLsbD i = bit (a.getLsbD i) (b.getLsbD i))
    (ht : HasBits enums σ t s f) (hu : HasBits enums σ u s' g) (htype : unified? s s' = some type) :
    HasBits enums σ (.binary op t u) type fun i => bit (extended s f i) (extended s' g i) := by
  obtain ⟨v, hv, hvtype, -, hvbits⟩ := ht.exists_wordIn
  obtain ⟨w, hw, hwtype, -, hwbits⟩ := hu.exists_wordIn
  have hshift : ¬ (op = .shl ∨ op = .shr) := by
    rintro (rfl | rfl) <;> cases hop
  refine ⟨(bits_of_unified htype).1, word _ (v.wordIn type) (w.wordIn type), ?_, fun i hi => ?_⟩
  · simp [value?, hv, hw, Value.binary?, hvtype, hwtype, hshift, htype, hop]
  · rw [hbit _ _ _ i hi, hvbits type i hi, hwbits type i hi]

theorem and (ht : HasBits enums σ t s f) (hu : HasBits enums σ u s' g) (htype : unified? s s' = some type) :
    HasBits enums σ (.binary .and t u) type fun i => extended s f i && extended s' g i :=
  bitwise rfl (fun _ _ _ _ _ => BitVec.getLsbD_and) ht hu htype

theorem or (ht : HasBits enums σ t s f) (hu : HasBits enums σ u s' g) (htype : unified? s s' = some type) :
    HasBits enums σ (.binary .or t u) type fun i => extended s f i || extended s' g i :=
  bitwise rfl (fun _ _ _ _ _ => BitVec.getLsbD_or) ht hu htype

theorem complement (h : HasBits enums σ t type f) (htype : unified? type type = some type) :
    HasBits enums σ (.unary .complement t) type fun i => !f i := by
  obtain ⟨v, hv, hvtype, -, hvbits⟩ := h.exists_wordIn
  refine ⟨h.1, ~~~v.wordIn type, ?_, fun i hi => ?_⟩
  · simp [value?, hv, Value.unary?, hvtype, htype]
  · rw [BitVec.getLsbD_not, hvbits type i hi, extended_of_lt hi]
    simp [hi]

theorem minusOne (h : literalType? 1 suffix = some type)
    (htype : (arithmeticTypes.find? fun t => t.signed && widens type t) = some type) :
    HasBits enums σ (.unary .minus (.number 1 suffix)) type fun _ => true := by
  have hpos := (number h : HasBits enums σ _ _ _).1
  refine ⟨hpos, -(Value.ofWord type (BitVec.ofNat _ 1)).wordIn type, ?_, fun i hi => ?_⟩
  · simp [value?, h, Value.unary?, htype]
  · have hone : (Value.ofWord type (BitVec.ofNat _ 1)).wordIn type = BitVec.ofNat _ 1 := by
      apply BitVec.eq_of_getLsbD_eq
      intro j hj
      rw [Value.getLsbD_wordIn _ hj, Value.bit_of_lt hj]
      rfl
    rw [hone, BitVec.neg_one_eq_allOnes, BitVec.getLsbD_allOnes]
    simp [hi]

theorem exists_count (hn : n < 64) :
    ∃ count : Value, (Tree.number n .none).value? enums σ = some count ∧ count.type = .integer int ∧
      (count.wordIn int).toNat = n := by
  have htype : literalType? n .none = some int := by
    simp [literalType?, literalTypes, int, IntegerType.bits]
    omega
  obtain ⟨v, hv, hvtype, -, hbits⟩ := (number htype : HasBits enums σ _ _ _).exists_wordIn
  refine ⟨v, hv, hvtype, ?_⟩
  have hword : v.wordIn int = BitVec.ofNat _ n := by
    apply BitVec.eq_of_getLsbD_eq
    intro i hi
    rw [hbits int i hi, extended_of_lt hi, BitVec.getLsbD_ofNat]
    simp [hi]
  rw [hword, BitVec.toNat_ofNat, Nat.mod_eq_of_lt]
  exact Nat.lt_trans hn (by decide)

theorem value_shift {v : Value} (hop : op = .shl ∨ op = .shr) (hv : t.value? enums σ = some v)
    (hvtype : v.type = .integer s) (htype : unified? s s = some type) (hn : n < 64) :
    ∃ count : Value, (count.wordIn int).toNat = n ∧
      (Tree.binary op t (.number n .none)).value? enums σ =
        Value.shifted? op type (v.wordIn type) count := by
  obtain ⟨count, hcount, hcountType, hword⟩ := @exists_count enums σ n hn
  refine ⟨count, hword, ?_⟩
  rw [value?, hv, hcount]
  have hint : widens int int = true := by decide
  simp [Value.binary?, hvtype, hcountType, hop, htype, hint]

theorem shl (h : HasBits enums σ t s f) (htype : unified? s s = some type) (hn : n < 64) :
    HasBits enums σ (.binary .shl t (.number n .none)) type fun i =>
      decide (n % type.bits ≤ i) && extended s f (i - n % type.bits) := by
  obtain ⟨v, hv, hvtype, -, hbits⟩ := h.exists_wordIn
  obtain ⟨count, hcount, hvalue⟩ := value_shift (.inl rfl) hv hvtype htype hn
  refine ⟨(bits_of_unified htype).1, v.wordIn type <<< (n % type.bits), ?_, fun i hi => ?_⟩
  · rw [hvalue, Value.shifted?, hcount]
  · rw [BitVec.getLsbD_shiftLeft, hbits type (i - n % type.bits) (by omega)]
    by_cases hle : n % type.bits ≤ i
    · simp [hi, hle]
    · simp [hle, Nat.lt_of_not_le hle]

theorem shr (h : HasBits enums σ t s f) (htype : unified? s s = some type) (hn : n < type.bits) :
    HasBits enums σ (.binary .shr t (.number n .none)) type fun i =>
      extended type (extended s f) (n + i) := by
  obtain ⟨v, hv, hvtype, -, hbits⟩ := h.exists_wordIn
  obtain ⟨hpos, hbound⟩ := bits_of_unified htype
  obtain ⟨count, hcount, hvalue⟩ := value_shift (.inr rfl) hv hvtype htype (Nat.lt_of_lt_of_le hn hbound)
  refine ⟨hpos, if type.signed then (v.wordIn type).sshiftRight n else v.wordIn type >>> n, ?_,
    fun i hi => ?_⟩
  · rw [hvalue, Value.shifted?, hcount, Nat.mod_eq_of_lt hn]
  · have hmsb : (v.wordIn type).msb = extended s f (type.bits - 1) := by
      rw [BitVec.msb_eq_getLsbD_last, hbits type _ (by omega)]
    change _ = if n + i < type.bits then _ else _
    split
    · -- The highest bit moves in.
      rename_i hsigned
      rw [BitVec.getLsbD_sshiftRight, hmsb, hsigned]
      split
      · rename_i hlt
        rw [hbits type _ hlt]
        simp [hi]
      · simp [hi]
    · rename_i hsigned
      rw [BitVec.getLsbD_ushiftRight]
      split
      · rename_i hlt
        exact hbits type _ hlt
      · rw [BitVec.getLsbD_of_ge _ _ (by omega)]
        simp [hsigned]

theorem name (hv : σ text = some v) (hvtype : v.type = .integer s) (hpos : 0 < s.bits) :
    HasBits enums σ (.name text) s v.bit := by
  obtain ⟨word, rfl⟩ := Value.exists_ofWord hvtype
  exact ⟨hpos, word, hv, fun i hi => (if_pos hi).symm⟩

theorem conditional {c : Tree} {b : Bool} (hc : c.value? enums σ = some (.ofBool b))
    (ht : HasBits enums σ t type f) (hu : HasBits enums σ u type g) :
    HasBits enums σ (.conditional c t u) type fun i => if b then f i else g i := by
  obtain ⟨hpos, word, hvalue, hbits⟩ := ht
  obtain ⟨-, word', hvalue', hbits'⟩ := hu
  have htrue := Value.isTrue_ofBool b
  have htype : (Value.ofBool b).type = .truth := rfl
  refine ⟨hpos, if b then word else word', ?_, fun i hi => ?_⟩
  · rw [value?, hc, hvalue, hvalue']
    simp [htrue, htype]
    cases b <;> rfl
  · cases b
    · exact hbits' i hi
    · exact hbits i hi

theorem castValue {name : String} {v : Value} (hv : t.value? enums σ = some v) (htruth : v.type ≠ .truth)
    (hname : ValueType.named? enums name = some (.integer type)) (hpos : 0 < type.bits) :
    HasBits enums σ (.cast name t) type v.bit := by
  refine ⟨hpos, v.wordIn type, ?_, fun i hi => v.getLsbD_wordIn hi⟩
  rw [value?, hv, hname]
  simp only [Option.bind_eq_bind, Option.bind_some, Value.cast?, htruth, reduceCtorEq, or_self, if_false]
  rfl

theorem cast {name : String} (h : HasBits enums σ t s f)
    (hname : ValueType.named? enums name = some (.integer type)) (hpos : 0 < type.bits) :
    HasBits enums σ (.cast name t) type (extended s f) := by
  obtain ⟨v, hv, hvtype, hbits, -⟩ := h.exists_wordIn
  have htruth : v.type ≠ .truth := by simp [hvtype]
  exact (castValue hv htruth hname hpos).congr fun i _ => hbits i

end HasBits

end Tree

end Csharp

end Interop
