import Interop.Proofs.Csharp.Integers
import Interop.Proofs.ExpressionValues

/-!
# Arithmetic over `unsigned int`

C computes with words of 32 bits. The C# operators are the same, but a minus sign makes a `long` of a
`uint`, and what it is part of is computed in 64 bits from there on. The lower half of the result still is
the C value, and without a minus sign the result is that value itself.
-/

namespace Interop

def UnaryOp.onWords? : UnaryOp → Option ((n : Nat) → BitVec n → BitVec n)
  | .plus => some fun _ a => a
  | .minus => some fun _ a => -a
  | .complement => some fun _ a => ~~~a
  | _ => none

namespace Csharp

open Managed (IntegerType)

variable {enums : String → Option IntegerType} {σ : String → Option Value} {t u : Tree} {b b' : Bool}

/-- The type `long` of what has a minus sign in it, and the type `uint` of all else. -/
def width (negates : Bool) : IntegerType :=
  if negates then ⟨true, 8⟩ else ⟨false, 4⟩

theorem le_bits_width (b : Bool) : 32 ≤ (width b).bits := by
  cases b <;> decide

def Value.ofUint (word : BitVec 32) : Value :=
  ⟨.integer (width false), word⟩

def Value.low (v : Value) : BitVec 32 :=
  BitVec.ofInt 32 v.toInt

theorem setWidth_wordIn (v : Value) (b : Bool) : (v.wordIn (width b)).setWidth 32 = v.low := by
  apply BitVec.eq_of_getLsbD_eq
  intro i hi
  rw [BitVec.getLsbD_setWidth, v.getLsbD_wordIn (hi.trans_le (le_bits_width b)), Value.low,
    v.getLsbD_ofInt_toInt hi]
  simp [hi]

theorem low_ofWord (word : BitVec (width b).bits) : (Value.ofWord (width b) word).low = word.setWidth 32 := by
  apply BitVec.eq_of_getLsbD_eq
  intro i hi
  have hbit := Value.bit_of_lt (v := .ofWord (width b) word) (hi.trans_le (le_bits_width b))
  rw [Value.low, Value.getLsbD_ofInt_toInt _ hi, hbit, BitVec.getLsbD_setWidth, decide_eq_true hi]
  rfl

/-- The tree has a value of the type that its signs allow, and the lower half of it is the word. -/
def Tree.HasWord (enums : String → Option IntegerType) (σ : String → Option Value) (t : Tree) (negates : Bool)
    (word : BitVec 32) : Prop :=
  ∃ v, t.value? enums σ = some v ∧ v.type = .integer (width negates) ∧ v.low = word

namespace Tree.HasWord

theorem unary {op : UnaryOp} (h : t.HasWord enums σ b word) (hop : op.onWords? = some f) :
    (Tree.unary op t).HasWord enums σ (op == .minus || b) (f 32 word) := by
  obtain ⟨v, hv, htype, rfl⟩ := h
  have hresult : v.unary? op = some (.ofWord (width (op == .minus || b)) (f _ (v.wordIn _))) := by
    cases op <;> cases hop <;> simp only [Value.unary?, htype] <;> cases b <;> rfl
  refine ⟨_, by rw [Tree.value?, hv]; exact hresult, rfl, ?_⟩
  rw [low_ofWord, ← setWidth_wordIn v (op == .minus || b)]
  have hle := le_bits_width (op == .minus || b)
  cases op <;> cases hop
  case plus.refl => rfl
  case minus.refl => exact BitVec.setWidth_neg_of_le hle
  case complement.refl => exact BitVec.setWidth_not hle

theorem binary {op : BinaryOp} (ht : t.HasWord enums σ b word) (hu : u.HasWord enums σ b' word')
    (hop : op.onWords? = some f) : (Tree.binary op t u).HasWord enums σ (b || b') (f 32 word word') := by
  obtain ⟨v, hv, htype, rfl⟩ := ht
  obtain ⟨w, hw, hwtype, rfl⟩ := hu
  have hunified : unified? (width b) (width b') = some (width (b || b')) := by
    cases b <;> cases b' <;> rfl
  have hresult : Value.binary? op v w =
      some (.ofWord (width (b || b')) (f _ (v.wordIn _) (w.wordIn _))) := by
    have hshift : ¬ (op = .shl ∨ op = .shr) := by rintro (rfl | rfl) <;> cases hop
    simp [Value.binary?, htype, hwtype, hshift, hunified, hop]
  refine ⟨_, by rw [Tree.value?, hv, hw]; exact hresult, rfl, ?_⟩
  rw [low_ofWord, ← setWidth_wordIn v (b || b'), ← setWidth_wordIn w (b || b')]
  have hle := le_bits_width (b || b')
  cases op <;> cases hop
  case add.refl => exact BitVec.setWidth_add _ _ hle
  case sub.refl =>
    simp only [BitVec.sub_eq_add_neg, BitVec.setWidth_add _ _ hle, BitVec.setWidth_neg_of_le hle]
  case mul.refl => exact BitVec.setWidth_mul _ _ hle
  case and.refl => exact BitVec.setWidth_and
  case or.refl => exact BitVec.setWidth_or
  case xor.refl => exact BitVec.setWidth_xor

theorem eq_ofUint (h : t.HasWord enums σ false word) : t.value? enums σ = some (.ofUint word) := by
  obtain ⟨v, hv, htype, rfl⟩ := h
  obtain ⟨word, rfl⟩ := Value.exists_ofWord htype
  rw [hv, low_ofWord]
  exact congrArg (fun word => some (Value.ofUint word)) (BitVec.setWidth_eq word).symm

theorem low_eq (h : t.HasWord enums σ b word) (hv : t.value? enums σ = some v) : v.low = word := by
  obtain ⟨w, hw, -, hlow⟩ := h
  rwa [Option.some.inj (hv.symm.trans hw)]

theorem toInt_eq_iff (h : t.HasWord enums σ b word) (hv : t.value? enums σ = some v) :
    v.toInt = word.toNat ↔ 0 ≤ v.toInt ∧ v.toInt < UInt32.size := by
  have hlow := h.low_eq hv
  have hword : (word.toNat : Int) = v.toInt % UInt32.size := by
    rw [← hlow, Value.low, BitVec.toNat_ofInt]
    exact Int.toNat_of_nonneg (Int.emod_nonneg _ (by decide))
  have hlt := word.isLt
  constructor
  · intro heq
    rw [heq]
    exact ⟨Int.natCast_nonneg _, Int.ofNat_lt.mpr hlt⟩
  · rintro ⟨hnonneg, hlt⟩
    rw [hword, Int.emod_eq_of_lt hnonneg hlt]

theorem toInt_eq (h : t.HasWord enums σ false word) (hv : t.value? enums σ = some v) :
    v.toInt = word.toNat := by
  obtain rfl := Option.some.inj (hv.symm.trans h.eq_ofUint)
  rfl

theorem compare {op : BinaryOp} (ht : t.HasWord enums σ b word) (hu : u.HasWord enums σ b' word')
    (hop : op.onIntegers? = some g) : ∃ c, (Tree.binary op t u).value? enums σ = some (.ofBool c) ∧
      (b = false → b' = false → c = g word.toNat word'.toNat) := by
  obtain ⟨v, hv, htype, -⟩ := id ht
  obtain ⟨w, hw, hwtype, -⟩ := id hu
  have hunified : ∃ type, unified? (width b) (width b') = some type := by
    cases b <;> cases b' <;> exact ⟨_, rfl⟩
  obtain ⟨type, hunified⟩ := hunified
  have hwords : ¬ (op = .shl ∨ op = .shr) ∧ op.onWords? = none := by
    cases op <;> cases hop <;> exact ⟨by simp, rfl⟩
  refine ⟨g v.toInt w.toInt, ?_, ?_⟩
  · rw [Tree.value?, hv, hw]
    simp [Value.binary?, htype, hwtype, hwords, hunified, hop]
  · rintro rfl rfl
    rw [ht.toInt_eq hv, hu.toInt_eq hw]

end Tree.HasWord

end Csharp

namespace Binding

open Native (DeclId ExprId TypeKind)
open Csharp (Tree Value width)

/-! ## Expressions over `unsigned int` -/

def unsignedKind : TypeKind :=
  .builtin .uInt

/-- An expression over values of unsigned int. -/
inductive IsUnsigned : Source → Prop
  | integer {value : Nat} (h : value < UInt32.size) : IsUnsigned (.integer unsignedKind value "uint")
  | declRef {target : DeclId} {name : String} : IsUnsigned (.declRef unsignedKind target name)
  | paren {x : Source} (hx : IsUnsigned x) : IsUnsigned (.paren unsignedKind x)
  | read {x : Source} (hx : IsUnsigned x) : IsUnsigned (.implicitCast unsignedKind .lvalueToRValue x)
  | unary {op : UnaryOp} {x : Source} (hop : op.onWords?.isSome = true) (hx : IsUnsigned x) :
      IsUnsigned (.unary unsignedKind op x)
  | binary {op : BinaryOp} {x y : Source} (hop : op.onWords?.isSome = true) (hx : IsUnsigned x)
      (hy : IsUnsigned y) : IsUnsigned (.binary unsignedKind op x y)

inductive IsUnsignedComparison : Source → Prop
  | intro {type : TypeKind} {op : BinaryOp} {x y : Source} (hop : op.isComparison = true) (hx : IsUnsigned x)
      (hy : IsUnsigned y) : IsUnsignedComparison (.binary type op x y)

namespace Source

/-- The value in C, modulo 2 to the power of 32. -/
def word? (ρ : DeclId → BitVec 32) : Source → Option (BitVec 32)
  | integer _ value _ => some (BitVec.ofNat 32 value)
  | declRef _ target _ => some (ρ target)
  | paren _ x | implicitCast _ _ x => x.word? ρ
  | unary _ op x => do return (← op.onWords?) 32 (← x.word? ρ)
  | binary _ op x y => do return (← op.onWords?) 32 (← x.word? ρ) (← y.word? ρ)
  | _ => none

def compared? (ρ : DeclId → BitVec 32) : Source → Option Bool
  | binary _ op x y => do return (← op.onIntegers?) (← x.word? ρ).toNat (← y.word? ρ).toNat
  | _ => none

/-- Whether there is a minus sign in front of a part. -/
def negates : Source → Bool
  | paren _ x | implicitCast _ _ x => x.negates
  | unary _ op x => op == .minus || x.negates
  | binary _ _ x y => x.negates || y.negates
  | _ => false

end Source

theorem IsUnsigned.isSimple (h : IsUnsigned s) : s.isSimple = true := by
  induction h with
  | @unary op x hop _ ih => cases op <;> first | exact ih | cases hop
  | _ => simp_all [Source.isSimple]

theorem IsUnsignedComparison.isSimple (h : IsUnsignedComparison s) : s.isSimple = true := by
  obtain ⟨-, hx, hy⟩ := h
  exact Bool.and_eq_true_iff.mpr ⟨hx.isSimple, hy.isSimple⟩

variable (enums) in
theorem IsUnsigned.hasWord (h : IsUnsigned s)
    (hσ : ∀ target name, (target, name) ∈ s.variables →
      σ name = some (.ofUint (ρ target))) :
    ∃ word, s.word? ρ = some word ∧ s.value.HasWord enums σ s.negates word := by
  induction h with
  | @integer value hvalue =>
    refine ⟨_, rfl, .ofWord (width false) (BitVec.ofNat _ value), ?_, rfl, ?_⟩
    · have htype : Csharp.literalType? value .u = some (width false) :=
        List.find?_cons_of_pos (decide_eq_true hvalue)
      simp [Source.value, Source.forms, Csharp.Suffix.ofType, Tree.value?, htype]
    · rw [Csharp.low_ofWord]
      rfl
  | @declRef target name =>
    refine ⟨_, rfl, .ofUint (ρ target), hσ _ _ (List.mem_singleton_self _), rfl, ?_⟩
    exact (Csharp.low_ofWord (b := false) (ρ target)).trans (BitVec.setWidth_eq _)
  | paren _ ih | read _ ih => exact ih hσ
  | @unary op x hop _ ih =>
    obtain ⟨f, hop⟩ := Option.isSome_iff_exists.mp hop
    obtain ⟨word, hword, hvalue⟩ := ih hσ
    have hnot : op ≠ .logicalNot := by
      rintro rfl
      cases hop
    refine ⟨f 32 word, by simp [Source.word?, hop, hword], ?_⟩
    rw [Source.value, Source.forms_unary hnot]
    exact hvalue.unary hop
  | @binary op x y hop _ _ ihx ihy =>
    obtain ⟨f, hop⟩ := Option.isSome_iff_exists.mp hop
    simp only [Source.variables, List.mem_append] at hσ
    obtain ⟨word, hword, hx⟩ := ihx fun target name h => hσ target name (.inl h)
    obtain ⟨word', hword', hy⟩ := ihy fun target name h => hσ target name (.inr h)
    have hother : op.isLogical = false ∧ op.isComparison = false := by
      cases op <;> first | exact ⟨rfl, rfl⟩ | cases hop
    refine ⟨f 32 word word', by simp [Source.word?, hop, hword, hword'], ?_⟩
    rw [Source.value, Source.forms_binary hother.1 hother.2]
    exact hx.binary hy hop

/-- A truth value of C in the type of an expression. -/
def truthOf (type : TypeKind) (b : Bool) : Value :=
  if type.isBool then .ofBool b else .ofInt (.integer Csharp.int) (if b then 1 else 0)

theorem value_ofTruth (h : t.value? enums σ = some (.ofBool b)) (type : TypeKind) :
    (Forms.ofTruth type t).value.value? enums σ = some (truthOf type b) := by
  rw [Forms.ofTruth, truthOf]
  split
  · exact h
  · rw [Forms.asInteger, Tree.value?, h]
    cases b <;> rfl

variable (enums) in
theorem IsUnsignedComparison.truth (h : IsUnsignedComparison s)
    (hσ : ∀ target name, (target, name) ∈ s.variables → σ name = some (.ofUint (ρ target))) :
    ∃ b c, s.compared? ρ = some b ∧ s.value.value? enums σ = some (truthOf s.type c) ∧
      (s.negates = false → c = b) := by
  obtain @⟨type, op, x, y, hop, hx, hy⟩ := h
  simp only [Source.variables, List.mem_append] at hσ
  obtain ⟨a, ha, hxa⟩ := hx.hasWord enums fun target name h => hσ target name (.inl h)
  obtain ⟨b, hb, hyb⟩ := hy.hasWord enums fun target name h => hσ target name (.inr h)
  obtain ⟨g, hg⟩ : ∃ g, op.onIntegers? = some g := by
    cases op <;> first | exact ⟨_, rfl⟩ | cases hop
  obtain ⟨c, hc, hkept⟩ := hxa.compare hyb hg
  refine ⟨g a.toNat b.toNat, c, by simp [Source.compared?, hg, ha, hb], ?_, fun hnegates => ?_⟩
  · rw [Source.value, Source.forms_comparison hop]
    exact value_ofTruth hc type
  · obtain ⟨hnx, hny⟩ := Bool.or_eq_false_iff.mp hnegates
    exact hkept hnx hny

/-- **Unsigned arithmetic.** What is emitted has a value in C#, and the lower half of it is the C value; it is
the C value if it is one of `uint`, as it always is without a minus sign. Without one, comparisons agree. -/
theorem unsigned_arithmetic_kept {settings : Settings} {ast : Native.Ast} {id : ExprId}
    (hsettings : settings.fault? = none) (henv : prepare settings ast = .ok env) (hs : Holds env id s)
    (hu : IsUnsigned s ∨ IsUnsignedComparison s)
    (hσ : ∀ target name, (target, name) ∈ s.variables → σ name = some (.ofUint (ρ target))) (c : Context) :
    ∃ e c' t v, (emitValue id).run env c = (.ok e, c') ∧ Csharp.read e.text = some t ∧
      t.value? enums σ = some v ∧
      (IsUnsigned s → ∃ word, s.word? ρ = some word ∧ v.low = word ∧
        (v.toInt = word.toNat ↔ 0 ≤ v.toInt ∧ v.toInt < UInt32.size) ∧
        (s.negates = false → v = .ofUint word)) ∧
      (IsUnsignedComparison s → ∃ b c, s.compared? ρ = some b ∧ v = truthOf s.type c ∧
        (s.negates = false → c = b)) := by
  have hnames := namesLocals_of_prepare hsettings henv
  have hsimple : s.isSimple = true := hu.elim (·.isSimple) (·.isSimple)
  obtain ⟨e, he⟩ := emitValue_gives c.scope hs hsimple
  obtain ⟨c', hrun⟩ := he.run_eq
  obtain ⟨t, hread, hbare, -⟩ := Csharp.read_text (emitValue_denotes hnames hs he)
  have hvalue : ∃ v, s.value.value? enums σ = some v := by
    rcases hu with hu | hu
    · obtain ⟨_, _, v, hv, -⟩ := hu.hasWord enums hσ
      exact ⟨v, hv⟩
    · obtain ⟨_, c, _, hv, -⟩ := hu.truth enums hσ
      exact ⟨_, hv⟩
  obtain ⟨v, hv⟩ := hvalue
  refine ⟨e, c', t, v, hrun, hread, by rw [← Tree.value_bare, hbare, hv], fun hu => ?_, fun hu => ?_⟩
  · obtain ⟨word, hword, hkept⟩ := hu.hasWord enums hσ
    refine ⟨word, hword, hkept.low_eq hv, hkept.toInt_eq_iff hv, fun hnegates => ?_⟩
    rw [hnegates] at hkept
    exact Option.some.inj (hv.symm.trans hkept.eq_ofUint)
  · obtain ⟨b, c, hb, hc, hkept⟩ := hu.truth enums hσ
    exact ⟨b, c, hb, Option.some.inj (hv.symm.trans hc), hkept⟩

/-- The C expressions `-x > y` and `x + ~y * 3u`. -/
def unsignedPair : Env where
  ast :=
    { file := "pair.h"
      decls := #[{ kind := .param ⟨0⟩, name := "x" }, { kind := .param ⟨0⟩, name := "y" }]
      exprs :=
        #[{ kind := .declRef ⟨0⟩, type := ⟨0⟩ },
          { kind := .declRef ⟨1⟩, type := ⟨0⟩ },
          { kind := .unary .minus ⟨0⟩, type := ⟨0⟩ },
          { kind := .binary .gt ⟨2⟩ ⟨1⟩, type := ⟨1⟩ },
          { kind := .unary .complement ⟨1⟩, type := ⟨0⟩ },
          { kind := .integer "3", type := ⟨0⟩ },
          { kind := .binary .mul ⟨4⟩ ⟨5⟩, type := ⟨0⟩ },
          { kind := .binary .add ⟨0⟩ ⟨6⟩, type := ⟨0⟩ }]
      types := #[.ofBuiltin .uInt, .ofBuiltin .int] }
  settings := {}
  symbols := ⟨#["x", "y"], [], [], [], [], [], []⟩

def unsignedSum : Source :=
  .binary unsignedKind .add (.declRef unsignedKind ⟨0⟩ "x")
    (.binary unsignedKind .mul (.unary unsignedKind .complement (.declRef unsignedKind ⟨1⟩ "y"))
      (.integer unsignedKind 3 "uint"))

theorem unsignedSum_holds : Holds unsignedPair ⟨7⟩ unsignedSum := by
  have hx : IsLocal unsignedPair ⟨0⟩ := .param rfl rfl rfl rfl (.inr (by decide))
  have hy : IsLocal unsignedPair ⟨1⟩ := .param rfl rfl rfl rfl (.inr (by decide))
  refine .binary ⟨_, rfl, rfl, rfl⟩ (by simp) (.declRef ⟨_, rfl, rfl, rfl⟩ hx) ?_
  refine .binary ⟨_, rfl, rfl, rfl⟩ (by simp) (.unary ⟨_, rfl, rfl, rfl⟩ (by simp) ?_) ?_
  · exact .declRef ⟨_, rfl, rfl, rfl⟩ hy
  · exact .integer ⟨_, rfl, rfl, rfl⟩ (by decide) ⟨_, rfl, fun _ _ => ⟨_, rfl, rfl⟩⟩

def pairWords (target : DeclId) : BitVec 32 :=
  if target = ⟨0⟩ then 4000000000 else 5

def pairValues (name : String) : Option Value :=
  some (.ofUint (if name = "x" then 4000000000 else 5))

theorem unsignedSum_wraps : ∃ e c' t v, (emitValue ⟨7⟩).run unsignedPair {} = (.ok e, c') ∧
    Csharp.read e.text = some t ∧ t.value? (fun _ => none) pairValues = some v ∧ v.toInt = 3999999982 := by
  have hvalues : ∀ p ∈ unsignedSum.variables, pairValues p.2 = some (.ofUint (pairWords p.1)) := by decide
  have hunsigned : IsUnsigned unsignedSum :=
    .binary rfl .declRef (.binary rfl (.unary rfl .declRef) (.integer (by decide)))
  obtain ⟨e, c', t, v, hrun, hread, hv, hkept, -⟩ :=
    unsigned_arithmetic_kept (show Settings.fault? {} = none from rfl)
      (show prepare {} unsignedPair.ast = .ok unsignedPair from rfl) unsignedSum_holds (.inl hunsigned)
      (fun target name h => hvalues (target, name) h) {}
  obtain ⟨word, hword, -, -, hplain⟩ := hkept hunsigned
  obtain rfl : v = .ofUint word := hplain rfl
  have hsum : unsignedSum.word? pairWords = some 3999999982 := by decide
  obtain rfl : word = 3999999982 := Option.some.inj (hword.symm.trans hsum)
  exact ⟨e, c', t, _, hrun, hread, hv, rfl⟩

/-- For `x = 1` and `y = 0`, `-x > y` is true in C and false in C#. -/
theorem negated_word_compares_signed :
    let s : Source := .binary (.builtin .int) .gt
      (.unary unsignedKind .minus (.declRef unsignedKind ⟨0⟩ "x")) (.declRef unsignedKind ⟨1⟩ "y")
    s.compared? (fun target => if target = ⟨0⟩ then 1 else 0) = some true ∧
      ∃ e c', (emitValue ⟨3⟩).run unsignedPair {} = (.ok e, c') ∧
        (Csharp.read e.text).bind (·.value? (fun _ => none) fun name =>
          some (.ofUint (if name = "x" then 1 else 0))) = some (truthOf (.builtin .int) false) :=
  ⟨by decide, _, _, rfl, by decide +kernel⟩

end Binding

end Interop
