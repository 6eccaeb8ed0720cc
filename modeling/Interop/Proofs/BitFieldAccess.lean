import Interop.Proofs.BitFieldPlacement
import Interop.Proofs.Csharp.Integers

/-!
# Bit fields read and write their bits

What the getter and the setter of a bit field compute, for storage of a fixed width. Their texts are read
as C# and evaluated bit by bit: `Computes` has one rule for each operator, and `getter_reads` and
`setter_assigns` are what the laws are built from.
-/

namespace Interop.Binding

open Native (DeclId TypeId)
open Emit
open Managed (Member IntegerType TypeName)
open Csharp (Tree Denotes Value ValueType Suffix isName isTypeWord extended unified? literalType?)

variable {letters : String}

/-! ## Expressions with known bits -/

/-- The expression is printed as a C# expression of an integer type, and these are its bits. -/
def Computes (enums : String → Option IntegerType) (σ : String → Option Value) (e : Managed.Expr)
    (type : IntegerType) (f : Nat → Bool) : Prop :=
  ∃ t, Denotes e t ∧ t.HasBits enums σ type f

namespace Computes

variable {text : String}

theorem congr (h : Computes enums σ e type f) (hfg : ∀ i < type.bits, f i = g i) :
    Computes enums σ e type g := by
  obtain ⟨t, ht, hbits⟩ := h
  exact ⟨t, ht, hbits.congr hfg⟩

theorem literal (h : Csharp.integer? text.toList = some (n, suffix))
    (htype : literalType? n suffix = some type) : Computes enums σ (.literal text) type n.testBit :=
  ⟨_, .number h, .number htype⟩

theorem paren (h : Computes enums σ e type f) : Computes enums σ (.paren e) type f := by
  obtain ⟨t, ht, hbits⟩ := h
  exact ⟨t, .paren ht, hbits⟩

theorem name (htext : isName text = true) (hv : σ text = some v) (hvtype : v.type = .integer s)
    (hpos : 0 < s.bits) : Computes enums σ (.ident text) s v.bit :=
  ⟨_, .name htext, .name hv hvtype hpos⟩

theorem andWidened (h : Computes enums σ e s f) (h' : Computes enums σ e' s' g)
    (htype : unified? s s' = some type) :
    Computes enums σ (.binary .and e e') type fun i => extended s f i && extended s' g i := by
  obtain ⟨t, ht, hbits⟩ := h
  obtain ⟨u, hu, hbits'⟩ := h'
  exact ⟨_, .binary (by decide) ht hu, hbits.and hbits' htype⟩

theorem and (h : Computes enums σ e s f) (h' : Computes enums σ e' type g)
    (htype : unified? s type = some type) :
    Computes enums σ (.binary .and e e') type fun i => extended s f i && g i :=
  (h.andWidened h' htype).congr fun i hi => by rw [Csharp.extended_of_lt (f := g) hi]

theorem or (h : Computes enums σ e s f) (h' : Computes enums σ e' type g)
    (htype : unified? s type = some type) :
    Computes enums σ (.binary .or e e') type fun i => extended s f i || g i := by
  obtain ⟨t, ht, hbits⟩ := h
  obtain ⟨u, hu, hbits'⟩ := h'
  refine ⟨_, .binary (by decide) ht hu, (hbits.or hbits' htype).congr fun i hi => ?_⟩
  rw [Csharp.extended_of_lt (f := g) hi]

theorem complement (h : Computes enums σ e type f) (htype : unified? type type = some type) :
    Computes enums σ (.unary .complement e) type fun i => !f i := by
  obtain ⟨t, ht, hbits⟩ := h
  exact ⟨_, .unary ht nofun, hbits.complement htype⟩

theorem denotes_count (hn : n < 64) : Denotes (BitAccess.count n) (.number n .none) :=
  .number (integer_repr (Nat.lt_trans hn (by decide)))

theorem shlWrapped (h : Computes enums σ e s f) (htype : unified? s s = some type) (hn : n < 64) :
    Computes enums σ (.binary .shl e (BitAccess.count n)) type fun i =>
      decide (n % type.bits ≤ i) && extended s f (i - n % type.bits) := by
  obtain ⟨t, ht, hbits⟩ := h
  exact ⟨_, .binary (by decide) ht (denotes_count hn), hbits.shl htype hn⟩

theorem shl (h : Computes enums σ e s f) (htype : unified? s s = some type) (hn : n < type.bits) :
    Computes enums σ (.binary .shl e (BitAccess.count n)) type fun i =>
      decide (n ≤ i) && extended s f (i - n) := by
  have hcount := Nat.lt_of_lt_of_le hn (Tree.HasBits.bits_of_unified htype).2
  simpa only [Nat.mod_eq_of_lt hn] using h.shlWrapped htype hcount

theorem shr (h : Computes enums σ e s f) (htype : unified? s s = some type) (hn : n < type.bits) :
    Computes enums σ (.binary .shr e (BitAccess.count n)) type fun i =>
      extended type (extended s f) (n + i) := by
  obtain ⟨t, ht, hbits⟩ := h
  have hcount := denotes_count (Nat.lt_of_lt_of_le hn (Tree.HasBits.bits_of_unified htype).2)
  exact ⟨_, .binary (by decide) ht hcount, hbits.shr htype hn⟩

theorem castTo {name : String} (h : Computes enums σ e s f) (hname : isTypeWord name = true)
    (htype : ValueType.named? enums name = some (.integer type)) (hpos : 0 < type.bits) :
    Computes enums σ (.castTo (.named name) e) type (extended s f) := by
  obtain ⟨t, ht, hbits⟩ := h
  exact ⟨_, .cast hname ht, hbits.cast htype hpos⟩

end Computes

/-! ## Storage types -/

/-- The storage types of a fixed size. -/
def fixedStorages : List String :=
  ["sbyte", "byte", "short", "ushort", "int", "uint", "long", "ulong"]

/-- The type in which C# computes with the values of a type. -/
def wideType (type : IntegerType) : IntegerType :=
  if type.bits < 32 then Csharp.int else type

theorem named_of_ofName (h : IntegerType.ofName? name = some type) (hchar : name ≠ "char") :
    ValueType.named? enums name = some (.integer type) := by
  have hbool : name ≠ "bool" := by
    rintro rfl
    cases h
  simp [ValueType.named?, hbool, hchar, h]

/-- A bit field that lies inside of a storage field of a fixed size. -/
structure BitAccess.Fixed (a : BitAccess) (type : IntegerType) : Prop where
  mem : a.storage ∈ fixedStorages
  ofName : IntegerType.ofName? a.storage = some type
  bits_eq : a.bits = type.bits
  width_pos : 0 < a.width
  fits : a.offset + a.width ≤ a.bits
  place : isName a.place = true

namespace BitAccess.Fixed

variable {a : BitAccess} {type : IntegerType}

theorem facts (h : a.Fixed type) :
    a.storage ≠ "char" ∧ isTypeWord a.storage = true ∧ (type.bits ≤ 16 ∨ 32 ≤ type.bits) ∧
      (unified? type type = some (wideType type) ∧
        unified? type (wideType type) = some (wideType type) ∧
        unified? (wideType type) (wideType type) = some (wideType type)) ∧
      (type.signed = true → 32 ≤ type.bits →
        (Csharp.arithmeticTypes.find? fun t => t.signed && Csharp.widens type t) = some type) ∧
      Csharp.integerSuffixes.lookup a.literalSuffix.toList = some (Suffix.ofType a.storage) ∧
      (Csharp.literalTypes (Suffix.ofType a.storage)).head? = some (wideType type) := by
  let access (storage : String) : BitAccess := ⟨"", storage, 0, 0, 0, .named ""⟩
  have hall : ∀ entry ∈ IntegerType.table, entry.1 ∈ fixedStorages →
      entry.1 ≠ "char" ∧ isTypeWord entry.1 = true ∧ (entry.2.bits ≤ 16 ∨ 32 ≤ entry.2.bits) ∧
      (unified? entry.2 entry.2 = some (wideType entry.2) ∧
        unified? entry.2 (wideType entry.2) = some (wideType entry.2) ∧
        unified? (wideType entry.2) (wideType entry.2) = some (wideType entry.2)) ∧
      (entry.2.signed = true → 32 ≤ entry.2.bits →
        (Csharp.arithmeticTypes.find? fun t => t.signed && Csharp.widens entry.2 t) = some entry.2) ∧
      Csharp.integerSuffixes.lookup (access entry.1).literalSuffix.toList =
        some (Suffix.ofType entry.1) ∧
      (Csharp.literalTypes (Suffix.ofType entry.1)).head? = some (wideType entry.2) := by
    decide
  exact hall (a.storage, type) (mem_of_lookup h.ofName) h.mem

theorem unified (h : a.Fixed type) :
    unified? type type = some (wideType type) ∧ unified? type (wideType type) = some (wideType type) ∧
      unified? (wideType type) (wideType type) = some (wideType type) :=
  h.facts.2.2.2.1

theorem suffix (h : a.Fixed type) :
    Csharp.integerSuffixes.lookup a.literalSuffix.toList = some (Suffix.ofType a.storage) :=
  h.facts.2.2.2.2.2.1

theorem isSigned_eq (h : a.Fixed type) : a.isSigned = type.signed := by
  simp [BitAccess.isSigned, h.ofName]

theorem wide_of_promoted (h : a.Fixed type) (hpromoted : a.isPromoted = true) :
    type.bits ≤ 16 ∧ wideType type = Csharp.int := by
  rw [BitAccess.isPromoted, h.bits_eq, decide_eq_true_eq] at hpromoted
  rcases h.facts.2.2.1 with hle | hle
  · exact ⟨hle, if_pos hpromoted⟩
  · omega

theorem wide_of_plain (h : a.Fixed type) (hpromoted : ¬ a.isPromoted = true) :
    32 ≤ type.bits ∧ wideType type = type := by
  rw [BitAccess.isPromoted, h.bits_eq, decide_eq_true_eq] at hpromoted
  exact ⟨Nat.le_of_not_lt hpromoted, if_neg hpromoted⟩

theorem bits_le_wide (h : a.Fixed type) : type.bits ≤ (wideType type).bits := by
  by_cases hpromoted : a.isPromoted = true
  · obtain ⟨hle, hwide⟩ := h.wide_of_promoted hpromoted
    rw [hwide]
    exact Nat.le_trans hle (by decide)
  · rw [(h.wide_of_plain hpromoted).2]

theorem bits_wide_eq (h : a.Fixed type) :
    (if a.isPromoted = true then 32 else a.bits) = (wideType type).bits := by
  split
  · rename_i hpromoted
    rw [(h.wide_of_promoted hpromoted).2]
    rfl
  · rename_i hpromoted
    rw [(h.wide_of_plain hpromoted).2, h.bits_eq]

theorem wide_signed (hsigned : type.signed = true) : (wideType type).signed = true := by
  unfold wideType
  split
  · rfl
  · exact hsigned

theorem wide_bits (h : a.Fixed type) : 32 ≤ (wideType type).bits ∧ (wideType type).bits ≤ 64 := by
  refine ⟨?_, (Tree.HasBits.bits_of_unified h.unified.1).2⟩
  rw [← h.bits_wide_eq]
  split
  · exact Nat.le_refl 32
  · rename_i hpromoted
    rw [h.bits_eq]
    exact (h.wide_of_plain hpromoted).1

theorem offset_lt_wide (h : a.Fixed type) : a.offset < (wideType type).bits := by
  have hfits := h.fits
  have hbits := h.bits_eq
  have hpos := h.width_pos
  have hle := h.bits_le_wide
  omega

theorem arithmetic_ofName (h : a.Fixed type) :
    a.arithmetic ∈ fixedStorages ∧ IntegerType.ofName? a.arithmetic = some (wideType type) := by
  unfold BitAccess.arithmetic
  split
  · rename_i hpromoted
    rw [(h.wide_of_promoted hpromoted).2]
    exact ⟨by decide, rfl⟩
  · rename_i hpromoted
    rw [(h.wide_of_plain hpromoted).2]
    exact ⟨h.mem, h.ofName⟩

theorem literalType_eq (h : a.Fixed type)
    (hn : n < 2 ^ (if (wideType type).signed then (wideType type).bits - 1 else (wideType type).bits)) :
    literalType? n (Suffix.ofType a.storage) = some (wideType type) := by
  have hhead := h.facts.2.2.2.2.2.2
  unfold literalType?
  cases hlist : Csharp.literalTypes (Suffix.ofType a.storage) with
  | nil => simp [hlist] at hhead
  | cons first rest =>
    obtain rfl : first = wideType type := by simpa [hlist] using hhead
    exact List.find?_cons_of_pos (by simpa using hn)

end BitAccess.Fixed

/-! ## The parts of an access -/

theorem integer_one (h : Csharp.integerSuffixes.lookup letters.toList = some suffix) :
    Csharp.integer? ("1" ++ letters).toList = some (1, suffix) := by
  rw [String.toList_append]
  exact Csharp.integer_append rfl (by decide) h

theorem integer_zero (h : Csharp.integerSuffixes.lookup letters.toList = some suffix) :
    Csharp.integer? ("0" ++ letters).toList = some (0, suffix) := by
  rw [String.toList_append]
  exact Csharp.integer_append rfl (by decide) h

theorem two_pow_sub_one_lt {n m : Nat} (h : n ≤ m) : Nat.pow 2 n - 1 < 2 ^ m := by
  have hle : 2 ^ n ≤ 2 ^ m := Nat.pow_le_pow_right (by decide) h
  have hpos : 0 < 2 ^ n := Nat.two_pow_pos n
  simp only [Nat.pow_eq]
  omega

namespace BitAccess

variable {v : Value} {wide : IntegerType} {place : String} {a : BitAccess} {bit : Nat → Bool}

section

variable {enums : String → Option IntegerType} {σ : String → Option Value} {type : IntegerType}

theorem integer_mask (hpos : 0 < a.width)
    (hsuffix : Csharp.integerSuffixes.lookup a.literalSuffix.toList = some suffix) :
    Csharp.integer? ("0x" ++ Text.hex true 1 (Nat.pow 2 (min a.width 64) - 1) ++ a.literalSuffix).toList =
      some (Nat.pow 2 (min a.width 64) - 1, suffix) := by
  refine integer_hex ?_ (two_pow_sub_one_lt (Nat.min_le_right _ _)) hsuffix
  have hle : 2 ^ 1 ≤ 2 ^ min a.width 64 := Nat.pow_le_pow_right (by decide) (by omega)
  simp only [Nat.pow_eq]
  omega

theorem mask_computes (h : a.Fixed type) :
    Computes enums σ a.mask (wideType type) fun i => decide (i < a.width) := by
  have hfits := h.fits
  have hbits := h.bits_eq
  unfold mask
  split
  · -- All ones of a signed type.
    rename_i hfull
    simp only [h.isSigned_eq, Bool.and_eq_true, Bool.not_eq_true', decide_eq_true_eq] at hfull
    obtain ⟨⟨hsigned, hpromoted⟩, hwidth⟩ := hfull
    obtain ⟨hlarge, hwide⟩ := h.wide_of_plain (by simp [hpromoted])
    have hone : literalType? 1 (Suffix.ofType a.storage) = some type := by
      rw [h.literalType_eq, hwide]
      rw [hwide, if_pos hsigned]
      exact Nat.one_lt_two_pow (by omega)
    have hnegative := h.facts.2.2.2.2.1 hsigned hlarge
    rw [hwide]
    refine ⟨_, .paren (.unary (.number (integer_one h.suffix)) nofun), ?_⟩
    refine (Tree.HasBits.minusOne hone hnegative).congr fun i hi => ?_
    symm
    rw [decide_eq_true_eq]
    omega
  · rename_i hfull
    have hmin : min a.width 64 = a.width := by
      have := h.bits_le_wide
      have := h.wide_bits.2
      omega
    have hinteger := integer_mask h.width_pos h.suffix
    rw [hmin] at hinteger ⊢
    refine (Computes.literal hinteger (h.literalType_eq (two_pow_sub_one_lt ?_))).congr fun i _ => ?_
    · by_cases hpromoted : a.isPromoted = true
      · obtain ⟨hsmall, hwide⟩ := h.wide_of_promoted hpromoted
        rw [hwide]
        exact Nat.le_trans (show a.width ≤ 16 by omega) (by decide)
      · obtain ⟨-, hwide⟩ := h.wide_of_plain hpromoted
        rw [hwide]
        split
        · -- A signed mask is shorter than its type.
          rename_i hsigned
          simp only [h.isSigned_eq, hsigned, hpromoted, Bool.true_and, Bool.not_false,
            decide_eq_true_eq] at hfull
          omega
        · omega
    · exact Nat.testBit_two_pow_sub_one a.width i

def fieldBits (a : BitAccess) (signed : Bool) (bit : Nat → Bool) (i : Nat) : Bool :=
  if i < a.width then bit (a.offset + i) else signed && bit (a.offset + a.width - 1)

theorem field_computes (h : a.Fixed type) (hv : σ a.place = some v) (hvtype : v.type = .integer type) :
    Computes enums σ a.field type v.bit :=
  .name h.place hv hvtype (by have := h.fits; have := h.width_pos; have := h.bits_eq; omega)

theorem extended_of_top (hpos : 0 < a.width) (hfits : a.width ≤ wide.bits) (hsigned : wide.signed = true)
    (htop : ∀ i < a.width, top (wide.bits - a.width + i) = bit (a.offset + i)) (i : Nat) :
    extended wide top (wide.bits - a.width + i) = a.fieldBits true bit i := by
  unfold extended fieldBits
  by_cases hlt : i < a.width
  · rw [if_pos (by omega), if_pos hlt, htop i hlt]
  · have hlast := htop (a.width - 1) (by omega)
    rw [show wide.bits - a.width + (a.width - 1) = wide.bits - 1 by omega,
      show a.offset + (a.width - 1) = a.offset + a.width - 1 by omega] at hlast
    rw [if_neg (by omega), if_neg hlt, hlast, hsigned]

theorem signedRaw_computes (h : a.Fixed type) (hsigned : type.signed = true)
    (hfield : Computes enums σ a.field type f) :
    Computes enums σ a.raw (wideType type) (a.fieldBits true f) := by
  have hfits := h.fits
  have hbits := h.bits_eq
  have hpos := h.width_pos
  have hle := h.bits_le_wide
  obtain ⟨hself, -, hwide⟩ := h.unified
  unfold raw
  rw [h.isSigned_eq, if_pos hsigned, h.bits_wide_eq]
  dsimp only
  by_cases hleft : 0 < (wideType type).bits - a.offset - a.width
  · rw [if_pos hleft, if_pos (by omega)]
    have hcount : (wideType type).bits - a.offset - a.width < (wideType type).bits := by omega
    refine ((hfield.shl hself hcount).paren.shr hwide (by omega)).congr fun i _ => ?_
    refine extended_of_top hpos (by omega) (Fixed.wide_signed hsigned) (fun j hj => ?_) i
    rw [Csharp.extended_of_lt (by omega), decide_eq_true (by omega), Bool.true_and,
      Csharp.extended_of_lt (by omega)]
    congr 1
    omega
  · -- The field reaches up to the sign, so its storage is as wide as the word.
    rw [if_neg hleft]
    have hplain : wideType type = type := by
      apply (h.wide_of_plain _).2
      intro hpromoted
      obtain ⟨hsmall, hint⟩ := h.wide_of_promoted hpromoted
      rw [hint, show Csharp.int.bits = 32 from rfl] at hleft
      omega
    rw [hplain] at hleft hself ⊢
    split
    · refine (hfield.shr hself (by omega)).congr fun i _ => ?_
      refine extended_of_top hpos (by omega) hsigned (fun j hj => ?_) i
      rw [Csharp.extended_of_lt (by omega)]
      congr 1
      omega
    · refine hfield.congr fun i hi => ?_
      unfold fieldBits
      rw [if_pos (by omega)]
      congr 1
      omega

theorem raw_computes (h : a.Fixed type) (hv : σ a.place = some v) (hvtype : v.type = .integer type) :
    Computes enums σ a.raw (wideType type) (a.fieldBits type.signed v.bit) := by
  have hfits := h.fits
  have hbits := h.bits_eq
  have hfield : Computes enums σ a.field type v.bit := field_computes h hv hvtype
  cases hsigned : type.signed with
  | true => exact signedRaw_computes h hsigned hfield
  | false =>
    obtain ⟨hself, hmixed, hwide⟩ := h.unified
    have hle := h.bits_le_wide
    have hmask : Computes enums σ a.mask (wideType type) _ := mask_computes h
    unfold raw
    rw [h.isSigned_eq, hsigned, if_neg Bool.false_ne_true]
    split
    · rename_i hoffset
      refine (hfield.and hmask hmixed).congr fun i hi => ?_
      unfold fieldBits
      by_cases hlt : i < a.width
      · rw [Csharp.extended_of_lt (by omega)]
        simp [hlt, hoffset]
      · simp [hlt]
    · have hcount : a.offset < (wideType type).bits := by
        have := h.width_pos
        omega
      refine ((hfield.shr hself hcount).paren.and hmask hwide).congr fun i hi => ?_
      unfold fieldBits
      by_cases hlt : i < a.width
      · rw [Csharp.extended_of_lt hi, Csharp.extended_of_lt (by omega),
          Csharp.extended_of_lt (by omega)]
        simp [hlt]
      · simp [hlt]

/-! ### Writing -/

theorem unified_of_convertsImplicitly (h : Managed.convertsImplicitly source target = true)
    (hsource : source ≠ "char") (htarget : target ∈ ["int", "uint", "long", "ulong"])
    (hwide : IntegerType.ofName? target = some wide) :
    ∃ s, IntegerType.ofName? source = some s ∧ unified? s wide = some wide := by
  have hall : ∀ entry ∈ IntegerType.table, ∀ target ∈ ["int", "uint", "long", "ulong"],
      entry.1 ≠ "char" → Managed.convertsImplicitly entry.1 target = true →
      ∀ t ∈ IntegerType.ofName? target, unified? entry.2 t = some t := by
    decide
  have hnamed : ∃ s, IntegerType.ofName? source = some s := by
    unfold Managed.convertsImplicitly at h
    split at h
    · rename_i heq
      exact ⟨wide, heq ▸ hwide⟩
    split at h
    · cases h
    split at h
    · exact ⟨_, by assumption⟩
    · cases h
  obtain ⟨s, hs⟩ := hnamed
  exact ⟨s, hs, hall (source, s) (mem_of_lookup hs) target htarget hsource h wide hwide⟩

theorem arithmetic_mem (h : a.Fixed type) : a.arithmetic ∈ ["int", "uint", "long", "ulong"] := by
  have hall : ∀ name ∈ fixedStorages, ∀ t ∈ IntegerType.ofName? name, 32 ≤ t.bits →
      name ∈ ["int", "uint", "long", "ulong"] := by
    decide
  obtain ⟨hmem, hname⟩ := h.arithmetic_ofName
  exact hall _ hmem _ hname h.wide_bits.1

theorem arithmetic_word (h : a.Fixed type) : isTypeWord a.arithmetic = true ∧ a.arithmetic ≠ "char" := by
  have hall : ∀ name ∈ ["int", "uint", "long", "ulong"], isTypeWord name = true ∧ name ≠ "char" := by
    decide
  exact hall _ (arithmetic_mem h)

theorem named_eq_truth (h : ValueType.named? enums name = some .truth) : name = "bool" := by
  unfold ValueType.named? at h
  split at h
  · assumption
  split at h
  · cases h
  split at h
  · cases h
  · simp at h

theorem operand_computes (h : a.Fixed type) (hv : σ "value" = some v)
    (hvtype : ValueType.named? enums a.type.text = some v.type) :
    ∃ s f, Computes enums σ a.operand s f ∧ unified? s (wideType type) = some (wideType type) ∧
      ∀ i < (wideType type).bits, extended s f i = v.bit i := by
  have hname : isName "value" = true := by decide
  have hwide : 0 < (wideType type).bits := Nat.lt_of_lt_of_le (by decide) h.wide_bits.1
  obtain ⟨-, harithmetic⟩ := h.arithmetic_ofName
  unfold operand
  split
  · -- A truth value becomes one or zero.
    rename_i hbool
    have htruth : v.type = .truth := by
      rw [hbool] at hvtype
      exact (Option.some.inj hvtype).symm
    obtain ⟨b, rfl⟩ := Value.exists_ofBool htruth
    have hlarge : 1 < 2 ^ (if (wideType type).signed then (wideType type).bits - 1
        else (wideType type).bits) := by
      have hlarge := h.wide_bits.1
      exact Nat.one_lt_two_pow (by split <;> omega)
    refine ⟨wideType type, _, ⟨_, .paren (.conditional (.name hname) (.number (integer_one h.suffix))
      (.number (integer_zero h.suffix))), .conditional hv (.number (h.literalType_eq hlarge))
      (.number (h.literalType_eq (by omega)))⟩, h.unified.2.2, fun i hi => ?_⟩
    rw [Csharp.extended_of_lt hi, Value.bit_ofBool]
    cases b <;> cases i <;> simp [Nat.testBit_succ]
  split
  · -- An integer that is widened without a cast.
    rename_i hbool hconverts
    have hchar : a.type.text ≠ "char" := by
      intro hchar
      rw [hchar] at hvtype
      cases hvtype
    obtain ⟨s, hs, hunified⟩ :=
      unified_of_convertsImplicitly hconverts hchar (arithmetic_mem h) harithmetic
    have hinteger : v.type = .integer s := by
      rw [named_of_ofName hs hchar] at hvtype
      exact (Option.some.inj hvtype).symm
    have hpos : 0 < s.bits := Nat.lt_of_lt_of_le (by decide) (bits_bounds_of_ofName hs).1
    exact ⟨s, v.bit, .name hname hv hinteger hpos, hunified, fun i _ => Value.extended_bit hinteger i⟩
  · rename_i hbool _
    have htruth : v.type ≠ .truth := by
      intro htruth
      rw [htruth] at hvtype
      exact hbool (named_eq_truth hvtype)
    obtain ⟨hword, hchar⟩ := arithmetic_word h
    refine ⟨wideType type, v.bit, ⟨_, .cast hword (.name hname),
      .castValue hv htruth (named_of_ofName harithmetic hchar) hwide⟩, h.unified.2.2,
      fun i hi => Csharp.extended_of_lt hi⟩

/-- The bits of the storage after a value was written. -/
def writtenBits (a : BitAccess) (new old : Nat → Bool) (i : Nat) : Bool :=
  if a.offset ≤ i ∧ i < a.offset + a.width then new (i - a.offset) else old i

theorem shifted_cut {i : Nat} (hi : i < wide.bits) :
    (decide (a.offset ≤ i) && extended wide (fun j => bit j && decide (j < a.width)) (i - a.offset)) =
      (decide (a.offset ≤ i ∧ i < a.offset + a.width) && bit (i - a.offset)) := by
  rw [Csharp.extended_of_lt (by omega)]
  by_cases hle : a.offset ≤ i
  · have hiff : i - a.offset < a.width ↔ i < a.offset + a.width := by omega
    simp [hle, hiff, Bool.and_comm]
  · simp [hle]

theorem kept_computes (h : a.Fixed type) :
    Computes enums σ a.kept (wideType type) fun i => !decide (a.offset ≤ i ∧ i < a.offset + a.width) := by
  have hmask : Computes enums σ a.mask (wideType type) _ := mask_computes h
  have hwide := h.unified.2.2
  unfold kept
  split
  · rename_i hoffset
    refine (hmask.complement hwide).congr fun i _ => ?_
    simp [hoffset]
  · refine ((hmask.shl hwide h.offset_lt_wide).paren.complement hwide).congr fun i hi => ?_
    have hcut := @shifted_cut _ a (fun _ => true) i hi
    simp only [Bool.true_and, Bool.and_true] at hcut
    rw [hcut]

theorem inserted_computes (h : a.Fixed type) (hv : σ "value" = some v)
    (hvtype : ValueType.named? enums a.type.text = some v.type) :
    Computes enums σ a.inserted (wideType type) fun i =>
      decide (a.offset ≤ i ∧ i < a.offset + a.width) && v.bit (i - a.offset) := by
  obtain ⟨s, f, hoperand, hunified, hbits⟩ := operand_computes h hv hvtype
  have hmask : Computes enums σ a.mask (wideType type) _ := mask_computes h
  have hcut := ((hoperand.and hmask hunified).congr fun i hi => by rw [hbits i hi]).paren
  unfold inserted
  dsimp only
  split
  · rename_i hoffset
    refine hcut.congr fun i _ => ?_
    simp [hoffset, Bool.and_comm]
  · exact (hcut.shl h.unified.2.2 h.offset_lt_wide).paren.congr fun i hi => shifted_cut hi

/-- **The storage after the setter.** -/
theorem setter_assigns (h : a.Fixed type) (hold : σ a.place = some old) (holdType : old.type = .integer type)
    (hv : σ "value" = some v) (hvtype : ValueType.named? enums a.type.text = some v.type) :
    ∃ t word, Denotes a.setter t ∧ t.assignment? enums σ = some (a.place, .ofWord type word) ∧
      ∀ i < type.bits, word.getLsbD i = a.writtenBits v.bit old.bit i := by
  have hle := h.bits_le_wide
  obtain ⟨hself, hmixed, hwide⟩ := h.unified
  have hfield : Computes enums σ a.field type old.bit := field_computes h hold holdType
  have hcombined := ((hfield.and (kept_computes h) hmixed).paren.or
    (inserted_computes h hv hvtype) hwide).congr
      (g := a.writtenBits v.bit old.bit) fun i hi => by
    rw [Csharp.extended_of_lt hi, Value.extended_bit holdType, writtenBits]
    by_cases hin : a.offset ≤ i ∧ i < a.offset + a.width
    · simp [hin]
    · simp [hin]
  -- Storage that is narrower than the word is cut again.
  have hstored : Computes enums σ
      (if a.isPromoted then .castTo (.named a.storage)
          (.binary .or (.paren (.binary .and a.field a.kept)) a.inserted)
        else .binary .or (.paren (.binary .and a.field a.kept)) a.inserted)
      type (a.writtenBits v.bit old.bit) := by
    split
    · obtain ⟨hchar, hword, -⟩ := h.facts
      refine (hcombined.castTo hword (named_of_ofName h.ofName hchar) ?_).congr fun i hi => ?_
      · exact Nat.lt_of_lt_of_le (by decide) (bits_bounds_of_ofName h.ofName).1
      · exact Csharp.extended_of_lt (by omega)
    · rename_i hpromoted
      rwa [(h.wide_of_plain hpromoted).2] at hcombined
  obtain ⟨t, ht, -, word, hvalue, hbits⟩ := hstored
  refine ⟨.binary .assign (.name a.place) t, word, .binary (by decide) (.name h.place) ht, ?_, hbits⟩
  have hconvert : (Value.ofWord type word).convert? old.type = some (.ofWord type word) := by
    rw [holdType]
    exact (Value.ofWord type word).convert_self
  simp [Tree.assignment?, Tree.bare, hold, hvalue, hconvert]

/-! ### Reading -/

theorem toInt_of_extension {w : BitVec wide.bits} {x : BitVec n} (hle : n ≤ wide.bits)
    (hbits : ∀ i < wide.bits, w.getLsbD i = if i < n then x.getLsbD i else signed && x.msb)
    (hsigned : signed = true → wide.signed = true)
    (hroom : signed = false → wide.signed = true → n < wide.bits) :
    (Value.ofWord wide w).toInt = if signed then x.toInt else x.toNat := by
  have htoInt : (Value.ofWord wide w).toInt = if wide.signed then w.toInt else w.toNat := rfl
  rw [htoInt]
  cases signed with
  | true =>
    have hword : w = x.signExtend wide.bits := by
      apply BitVec.eq_of_getLsbD_eq
      intro i hi
      rw [hbits i hi, BitVec.getLsbD_signExtend]
      simp [hi]
    rw [if_pos (hsigned rfl), if_pos rfl, hword, BitVec.toInt_signExtend_of_le hle]
  | false =>
    have hword : w = x.setWidth wide.bits := by
      apply BitVec.eq_of_getLsbD_eq
      intro i hi
      rw [hbits i hi, BitVec.getLsbD_setWidth]
      by_cases hlt : i < n
      · simp [hi, hlt]
      · simp [hlt, BitVec.getLsbD_of_ge x i (by omega)]
    have hnat : w.toNat = x.toNat := by rw [hword, BitVec.toNat_setWidth_of_le hle]
    rw [if_neg Bool.false_ne_true]
    split
    · -- The sign of the longer word is one of the zeros.
      rename_i hwide
      have hlast := hroom rfl hwide
      have hmsb : w.msb = false := by
        rw [BitVec.msb_eq_getLsbD_last, hbits _ (by omega), if_neg (by omega), Bool.false_and]
      rw [BitVec.toInt_eq_toNat_of_msb hmsb, hnat]
    · rw [hnat]

theorem raw_toInt (h : a.Fixed type) {word : BitVec type.bits}
    (hword : σ a.place = some (.ofWord type word)) :
    ∃ t wide, Denotes a.raw t ∧ t.value? enums σ = some (.ofWord (wideType type) wide) ∧
      (Value.ofWord (wideType type) wide).toInt =
        if type.signed then (word.extractLsb' a.offset a.width).toInt
        else (word.extractLsb' a.offset a.width).toNat := by
  have hfits := h.fits
  have hbits := h.bits_eq
  have hle := h.bits_le_wide
  have hpos := h.width_pos
  obtain ⟨t, ht, -, wide, hvalue, hwide⟩ := @raw_computes _ _ enums _ _ h hword rfl
  have hbit : ∀ i < a.width, (Value.ofWord type word).bit (a.offset + i) =
      (word.extractLsb' a.offset a.width).getLsbD i := by
    intro i hi
    rw [Value.bit_ofWord, Csharp.extended_of_lt (by omega), BitVec.getLsbD_extractLsb']
    simp [hi]
  refine ⟨t, wide, ht, hvalue, toInt_of_extension (by omega) (fun i hi => ?_) Fixed.wide_signed ?_⟩
  · rw [hwide i hi, fieldBits, BitVec.msb_eq_getLsbD_last]
    split
    · exact hbit i (by assumption)
    · rw [← hbit (a.width - 1) (by omega)]
      congr 2
      omega
  · -- Only narrow storage is widened to a signed type.
    intro hunsigned hsigned
    have hpromoted : a.isPromoted = true := by
      by_contra hpromoted
      rw [(h.wide_of_plain hpromoted).2, hunsigned] at hsigned
      cases hsigned
    have hsmall := (h.wide_of_promoted hpromoted).1
    have hlarge := h.wide_bits.1
    omega

theorem toInt_eq_zero (x : BitVec n) (signed : Bool) :
    (if signed then x.toInt else x.toNat) = 0 ↔ x = 0 := by
  cases signed with
  | true =>
    rw [if_pos rfl, ← BitVec.toInt_inj]
    simp
  | false => simp [BitVec.toNat_eq]

theorem truthGetter_reads (h : a.Fixed type) (htext : a.type.text = "bool") (hbits : type.bits = 8)
    {word : BitVec type.bits} (hword : σ a.place = some (.ofWord type word)) :
    ∃ u, Csharp.readAs a.type.text a.getter.text = some u ∧
      u.value? enums σ = some (.ofBool (word.extractLsb' a.offset a.width != 0)) := by
  obtain ⟨t, wide, ht, hvalue, htoInt⟩ := @raw_toInt _ enums _ _ h _ hword
  have hwide : wideType type = Csharp.int := if_pos (by rw [hbits]; decide)
  have hzero : Csharp.integer? "0".toList = some (0, .none) := rfl
  obtain ⟨u, hread, hbare, -⟩ :=
    Csharp.read_text (.binary (show BinaryOp.ne ≠ .comma by decide) (.paren ht) (.number hzero))
  refine ⟨u, ?_, ?_⟩
  · rw [Csharp.readAs, getter, if_pos htext, htext, if_pos (by decide)]
    exact hread
  · obtain ⟨-, zero, hzeroValue, hzeroBits⟩ :=
      (Tree.HasBits.number rfl : Tree.HasBits enums σ (.number 0 .none) Csharp.int _)
    have hzeroInt : (Value.ofWord Csharp.int zero).toInt = 0 := by
      obtain rfl : zero = 0 := by
        apply BitVec.eq_of_getLsbD_eq
        intro i hi
        rw [hzeroBits i hi]
        simp
      rfl
    have hunified : unified? (wideType type) Csharp.int = some Csharp.int := by
      rw [hwide]
      decide
    have hne : ((Value.ofWord (wideType type) wide).toInt != (Value.ofWord Csharp.int zero).toInt) =
        (word.extractLsb' a.offset a.width != 0) := by
      rw [htoInt, hzeroInt, Bool.eq_iff_iff, bne_iff_ne, bne_iff_ne, ne_eq, ne_eq, toInt_eq_zero]
    rw [← Tree.value_bare, hbare, Tree.value?, hvalue, hzeroValue]
    simp [Value.binary?, hunified, BinaryOp.onWords?, BinaryOp.onIntegers?, hne]

/-- **What a getter reads.** The bits of the field, as a value of the type of the property. -/
theorem getter_reads (h : a.Fixed type) (hbool : a.type.text = "bool" → type.bits = 8)
    {word : BitVec type.bits} (hword : σ a.place = some (.ofWord type word)) :
    ∃ u, Csharp.readAs a.type.text a.getter.text = some u ∧
      u.value? enums σ = (ValueType.named? enums a.type.text).map fun target =>
        Value.ofBits target type.signed (word.extractLsb' a.offset a.width) := by
  by_cases htruth : a.type.text = "bool"
  · obtain ⟨u, hread, hu⟩ := truthGetter_reads h htruth (hbool htruth) hword
    refine ⟨u, hread, ?_⟩
    rw [hu, htruth]
    rfl
  obtain ⟨t, wide, ht, hvalue, htoInt⟩ := @raw_toInt _ enums _ _ h _ hword
  unfold getter
  rw [if_neg htruth]
  split
  · -- The word is of the type of the property already.
    rename_i htext
    obtain ⟨hword, hchar⟩ := arithmetic_word h
    obtain ⟨u, hread, hbare, -⟩ := Csharp.read_text ht
    refine ⟨u, ?_, ?_⟩
    · rw [Csharp.readAs, htext, if_pos hword, hread]
    · rw [htext, named_of_ofName h.arithmetic_ofName.2 hchar, ← Tree.value_bare, hbare, hvalue,
        Option.map_some, Value.ofBits, if_neg (by simp), ← htoInt]
      exact congrArg some (Value.ofInt_toInt _).symm
  · obtain ⟨u, hread, hbare⟩ := @Csharp.readAs_castTo a.type _ _ ht
    refine ⟨u, hread, ?_⟩
    rw [← Tree.value_bare, hbare, Tree.value?, hvalue]
    cases htarget : ValueType.named? enums a.type.text with
    | none => rfl
    | some target =>
      have hne : target ≠ .truth := by
        rintro rfl
        exact htruth (named_eq_truth htarget)
      rw [Option.map_some, Value.ofBits, if_neg hne, ← htoInt]
      simp [Value.cast?, hne]

end

/-! ### What a getter depends on -/

/-- The expression is printed as a C# expression with no other name than one. -/
def Mentions (place : String) (e : Managed.Expr) : Prop :=
  ∃ t, Denotes e t ∧ ∀ x ∈ t.names, x = place

theorem Mentions.binary (hop : op ≠ .comma) (h : Mentions place e) (h' : Mentions place e') :
    Mentions place (.binary op e e') := by
  obtain ⟨t, ht, hnames⟩ := h
  obtain ⟨u, hu, hnames'⟩ := h'
  refine ⟨.binary op t u, .binary hop ht hu, ?_⟩
  intro x hx
  rcases List.mem_append.mp hx with hx | hx
  · exact hnames x hx
  · exact hnames' x hx

theorem Mentions.paren (h : Mentions place e) : Mentions place (.paren e) := by
  obtain ⟨t, ht, hnames⟩ := h
  exact ⟨t, .paren ht, hnames⟩

theorem mentions_count (hn : n ≤ 64) : Mentions place (count n) :=
  ⟨_, .number (integer_repr (Nat.lt_of_le_of_lt hn (by decide))), by simp [Tree.names]⟩

theorem mentions_mask (hpos : 0 < a.width) : Mentions place a.mask := by
  have hsuffix : ∃ suffix, Csharp.integerSuffixes.lookup a.literalSuffix.toList = some suffix := by
    unfold literalSuffix
    split
    · exact ⟨.u, rfl⟩
    split
    · exact ⟨.ul, rfl⟩
    split
    · exact ⟨.l, rfl⟩
    · exact ⟨.none, rfl⟩
  obtain ⟨suffix, hsuffix⟩ := hsuffix
  unfold mask
  split
  · exact ⟨_, .paren (.unary (.number (integer_one hsuffix)) nofun), by simp [Tree.names]⟩
  · exact ⟨_, .number (integer_mask hpos hsuffix), by simp [Tree.names]⟩

theorem mentions_raw (hplace : isName a.place = true) (hpos : 0 < a.width)
    (hfits : a.offset + a.width ≤ a.bits) (hbits : a.bits ≤ 64) : Mentions a.place a.raw := by
  have hfield : Mentions a.place a.field := ⟨_, .name hplace, by simp [Tree.names]⟩
  have hword : (if a.isPromoted = true then 32 else a.bits) ≤ 64 := by
    split
    · decide
    · exact hbits
  unfold raw
  split
  · dsimp only
    generalize (if a.isPromoted = true then 32 else a.bits) = word at hword ⊢
    have hraised : Mentions a.place
        (if 0 < word - a.offset - a.width then
          .paren (.binary .shl a.field (count (word - a.offset - a.width)))
        else a.field) := by
      split
      · exact (Mentions.binary (by decide) hfield (mentions_count (by omega))).paren
      · exact hfield
    split
    · exact Mentions.binary (by decide) hraised (mentions_count (by omega))
    · exact hraised
  split
  · exact Mentions.binary (by decide) hfield (mentions_mask hpos)
  · have hlowered := (Mentions.binary (show BinaryOp.shr ≠ .comma by decide) hfield
      (mentions_count (show a.offset ≤ 64 by omega))).paren
    exact Mentions.binary (by decide) hlowered (mentions_mask hpos)

theorem getter_frame (hplace : isName a.place = true) (hpos : 0 < a.width)
    (hfits : a.offset + a.width ≤ a.bits) (hbits : a.bits ≤ 64)
    (harithmetic : isTypeWord a.arithmetic = true) (h : σ a.place = τ a.place) {setter : Managed.Expr} :
    Csharp.getProperty? enums σ (.property attrs a.type name a.getter setter) =
      Csharp.getProperty? enums τ (.property attrs a.type name a.getter setter) := by
  have hraw := mentions_raw hplace hpos hfits hbits
  have hread : ∃ u, Csharp.readAs a.type.text a.getter.text = some u ∧ ∀ x ∈ u.names, x = a.place := by
    unfold getter
    split
    · rename_i htext
      obtain ⟨t, ht, hnames⟩ := hraw.paren.binary (show BinaryOp.ne ≠ .comma by decide)
        (⟨_, .number (show Csharp.integer? "0".toList = some (0, .none) from rfl),
          by simp [Tree.names]⟩ : Mentions a.place (.literal "0"))
      obtain ⟨u, hread, rfl, -⟩ := Csharp.read_text ht
      rw [Tree.names_bare] at hnames
      exact ⟨u, by rw [htext, Csharp.readAs, if_pos (by decide), hread], hnames⟩
    split
    · rename_i htext
      obtain ⟨t, ht, hnames⟩ := hraw
      obtain ⟨u, hread, rfl, -⟩ := Csharp.read_text ht
      rw [Tree.names_bare] at hnames
      exact ⟨u, by rw [htext, Csharp.readAs, if_pos harithmetic, hread], hnames⟩
    · obtain ⟨t, ht, hnames⟩ := hraw
      obtain ⟨u, hread, hbare⟩ := @Csharp.readAs_castTo a.type _ _ ht
      refine ⟨u, hread, ?_⟩
      rw [← Tree.names_bare, hbare]
      exact hnames
  obtain ⟨u, hread, hnames⟩ := hread
  have hu : u.value? enums σ = u.value? enums τ := by
    apply Tree.value_congr
    intro x hx
    rw [hnames x hx, h]
  simp only [Csharp.getProperty?, hread, Option.bind_eq_bind, Option.bind_some, hu]

end BitAccess

end Interop.Binding
