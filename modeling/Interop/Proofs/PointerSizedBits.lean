import Interop.Proofs.BitFieldLaws

/-!
# Bit fields in storage of the size of a pointer

The masks for `nint` and `nuint` have no suffix, so they are of the first type that holds them
(`maskType`), and `~(mask << offset)` is computed in that type: in 32 bits for most masks. A setter changes
the right bits only if this neither loses bits nor reaches the sign, and if the result has the type of the
storage again.
-/

namespace Interop.Binding

open Emit
open Managed (Member IntegerType)
open Csharp (Denotes Value ValueType Suffix isName isTypeWord extended unified? literalType? setProperty?
  propertyType?)

namespace BitAccess

variable {a : BitAccess} {type wide : IntegerType} {enums : String → Option IntegerType}
  {σ : String → Option Value} {v old : Value}

def maskType (a : BitAccess) : IntegerType :=
  if a.width ≤ 31 ∨ a.isSigned = true ∧ a.width = 64 then Csharp.int
  else if a.width = 32 then ⟨false, 4⟩
  else if a.width < 64 then ⟨true, 8⟩
  else ⟨false, 8⟩

def maskTypes : List IntegerType :=
  [Csharp.int, ⟨false, 4⟩, ⟨true, 8⟩, ⟨false, 8⟩]

theorem maskType_mem (a : BitAccess) : a.maskType ∈ maskTypes := by
  unfold maskType
  split_ifs <;> simp [maskTypes]

/-- The bits that are kept, in the type of the mask and where that is widened. -/
def keptBits (a : BitAccess) : Nat → Bool :=
  extended a.maskType fun i =>
    !(decide (a.offset % a.maskType.bits ≤ i) && decide (i - a.offset % a.maskType.bits < a.width))

structure PointerSized (a : BitAccess) (type : IntegerType) : Prop where
  storage : a.storage = "nint" ∧ type = ⟨true, 6⟩ ∨ a.storage = "nuint" ∧ type = ⟨false, 6⟩
  bits_eq : a.bits = 64
  width_pos : 0 < a.width
  fits : a.offset + a.width ≤ 64
  place : isName a.place = true
  no_truth : a.type.text ≠ "bool"
  wide : ∀ s, IntegerType.ofName? a.type.text = some s → s.bits = 64

namespace PointerSized

variable (h : a.PointerSized type)
include h

theorem facts : IntegerType.ofName? a.storage = some type ∧ type.bits = 64 ∧ a.isPromoted = false ∧
    a.isSigned = type.signed ∧ a.literalSuffix = "" ∧ a.storage ≠ "char" ∧ isTypeWord a.storage = true := by
  have hpromoted : a.isPromoted = false := by simp [isPromoted, h.bits_eq]
  have hwords : isTypeWord "nint" = true ∧ isTypeWord "nuint" = true := by decide
  unfold isSigned literalSuffix
  rcases h.storage with ⟨hname, rfl⟩ | ⟨hname, rfl⟩
  · rw [hname]
    exact ⟨rfl, rfl, hpromoted, rfl, rfl, by decide, hwords.1⟩
  · rw [hname]
    exact ⟨rfl, rfl, hpromoted, rfl, rfl, by decide, hwords.2⟩

omit h in
theorem unified_mask (a : BitAccess) : unified? a.maskType a.maskType = some a.maskType := by
  have hall : ∀ m ∈ maskTypes, unified? m m = some m := by decide
  exact hall _ (maskType_mem a)

theorem unified_wide (hwide : unified? type a.maskType = some wide) :
    wide.bits = 64 ∧ unified? wide wide = some wide ∧ (wide ≠ type → Csharp.widens wide type = false) := by
  have hall : ∀ s ∈ [(⟨true, 6⟩ : IntegerType), ⟨false, 6⟩],
      ∀ m ∈ maskTypes, ∀ t ∈ unified? s m,
        t.bits = 64 ∧ unified? t t = some t ∧ (t ≠ s → Csharp.widens t s = false) := by decide
  refine hall type ?_ a.maskType (maskType_mem a) wide hwide
  rcases h.storage with ⟨-, rfl⟩ | ⟨-, rfl⟩ <;> simp

theorem mask_computes : Computes enums σ a.mask a.maskType fun i => decide (i < a.width) := by
  obtain ⟨-, -, hpromoted, -, hsuffix, -⟩ := h.facts
  have hfits := h.fits
  have hlookup : Csharp.integerSuffixes.lookup a.literalSuffix.toList = some .none := by rw [hsuffix]; rfl
  unfold mask
  split
  · rename_i hfull
    simp only [hpromoted, h.bits_eq, Bool.not_false, Bool.and_true, Bool.and_eq_true,
      decide_eq_true_eq] at hfull
    rw [show a.maskType = Csharp.int from if_pos (.inr ⟨hfull.1, by omega⟩)]
    refine ⟨_, .paren (.unary (.number (integer_one hlookup)) nofun), ?_⟩
    refine (Csharp.Tree.HasBits.minusOne rfl rfl).congr fun i (hi : i < 32) => ?_
    exact (decide_eq_true (by omega)).symm
  · rename_i hfull
    simp only [hpromoted, h.bits_eq, Bool.not_false, Bool.and_true, Bool.and_eq_true,
      decide_eq_true_eq] at hfull
    have hmin : min a.width 64 = a.width := by omega
    have hall : ∀ w < 65, 0 < w → literalType? (Nat.pow 2 w - 1) .none = some
        (if w ≤ 31 then Csharp.int else if w = 32 then ⟨false, 4⟩ else if w < 64 then ⟨true, 8⟩
          else ⟨false, 8⟩) := by decide +kernel
    have htype : literalType? (Nat.pow 2 (min a.width 64) - 1) .none = some a.maskType := by
      rw [hmin, hall _ (by omega) h.width_pos, maskType]
      congr 1
      grind
    refine (Computes.literal (integer_mask h.width_pos hlookup) htype).congr fun i _ => ?_
    rw [hmin]
    exact Nat.testBit_two_pow_sub_one a.width i

theorem kept_computes : Computes enums σ a.kept a.maskType fun i =>
    !(decide (a.offset % a.maskType.bits ≤ i) && decide (i - a.offset % a.maskType.bits < a.width)) := by
  have hmask : Computes enums σ a.mask a.maskType _ := h.mask_computes
  have hself := unified_mask a
  have hfits := h.fits
  have hpos := h.width_pos
  unfold kept
  split
  · rename_i hoffset
    exact (hmask.complement hself).congr fun i _ => by simp [hoffset]
  · refine ((hmask.shlWrapped hself (by omega)).paren.complement hself).congr fun i hi => ?_
    rw [Csharp.extended_of_lt (by omega)]

theorem operand_computes (hv : σ "value" = some v)
    (hvtype : ValueType.named? enums a.type.text = some v.type) :
    Computes enums σ a.operand type v.bit := by
  obtain ⟨hname, hbits, hpromoted, -, -, hchar, hword⟩ := h.facts
  have hvalue : isName "value" = true := by decide
  have harithmetic : a.arithmetic = a.storage := by simp [arithmetic, hpromoted]
  unfold operand
  rw [if_neg h.no_truth, harithmetic]
  split
  · rename_i hconverts
    have hall : ∀ entry ∈ IntegerType.table, entry.2.bits = 64 → ∀ s ∈ ["nint", "nuint"],
        Managed.convertsImplicitly entry.1 s = true → entry.1 = s := by decide
    have hstorage : a.storage ∈ ["nint", "nuint"] := by
      rcases h.storage with ⟨hs, -⟩ | ⟨hs, -⟩ <;> simp [hs]
    have hsame : a.type.text = a.storage := by
      cases hs : IntegerType.ofName? a.type.text with
      | none => simpa [Managed.convertsImplicitly, hs] using hconverts
      | some s => exact hall (a.type.text, s) (mem_of_lookup hs) (h.wide s hs) _ hstorage hconverts
    rw [hsame, named_of_ofName hname hchar] at hvtype
    exact .name hvalue hv (Option.some.inj hvtype).symm (by omega)
  · have htruth : v.type ≠ .truth := fun htruth => h.no_truth (named_eq_truth (htruth ▸ hvtype))
    exact ⟨_, .cast hword (.name hvalue), .castValue hv htruth (named_of_ofName hname hchar) (by omega)⟩

theorem inserted_computes (hwide : unified? type a.maskType = some wide) (hv : σ "value" = some v)
    (hvtype : ValueType.named? enums a.type.text = some v.type) :
    Computes enums σ a.inserted wide fun i =>
      decide (a.offset ≤ i ∧ i < a.offset + a.width) && v.bit (i - a.offset) := by
  obtain ⟨hbits, hself, -⟩ := h.unified_wide hwide
  have hfits := h.fits
  have hpos := h.width_pos
  have hoperand := h.operand_computes hv hvtype
  have hmask : ∀ i < 64, extended a.maskType (fun i => decide (i < a.width)) i = decide (i < a.width) := by
    intro i hi
    unfold extended maskType
    split_ifs <;> simp_all [IntegerType.bits, Csharp.int]
    all_goals omega
  have hcut := ((hoperand.andWidened h.mask_computes hwide).congr
    (g := fun i => v.bit i && decide (i < a.width)) fun i hi => by
      rw [hmask i (by omega), Csharp.extended_of_lt (by rw [h.facts.2.1]; omega)]).paren
  unfold inserted
  dsimp only
  split
  · rename_i hoffset
    exact hcut.congr fun i _ => by simp [hoffset, Bool.and_comm]
  · exact (hcut.shl hself (by omega)).paren.congr fun i hi => shifted_cut hi

/-- **The storage after the setter**, or nothing if it is computed in another type. -/
theorem setter_assigns (hold : σ a.place = some old) (holdType : old.type = .integer type)
    (hv : σ "value" = some v) (hvtype : ValueType.named? enums a.type.text = some v.type) :
    ∃ t, Denotes a.setter t ∧
      if unified? type a.maskType = some type then
        ∃ word, t.assignment? enums σ = some (a.place, .ofWord type word) ∧ ∀ i < 64, word.getLsbD i =
          (old.bit i && a.keptBits i || decide (a.offset ≤ i ∧ i < a.offset + a.width) && v.bit (i - a.offset))
      else t.assignment? enums σ = none := by
  obtain ⟨-, hbits, hpromoted, -⟩ := h.facts
  have hfield : Computes enums σ a.field type old.bit := .name h.place hold holdType (by omega)
  have hsetter : a.setter = .binary .assign a.field
      (.binary .or (.paren (.binary .and a.field a.kept)) a.inserted) := by simp [setter, hpromoted]
  rw [hsetter]
  cases hwide : unified? type a.maskType with
  | none =>
    -- Nothing is computed with operands of these types, whatever is inserted.
    obtain ⟨t, ht, hfield⟩ := hfield
    obtain ⟨u, hu, hkept⟩ : Computes enums σ a.kept _ _ := h.kept_computes
    obtain ⟨x, hx, -⟩ := h.operand_computes hv hvtype
    obtain ⟨y, hy, -⟩ : Computes enums σ a.mask _ _ := h.mask_computes
    obtain ⟨z, hz⟩ : ∃ z, Denotes a.inserted z := by
      have hcut : Denotes (.paren (.binary .and a.operand a.mask)) _ := .paren (.binary (by decide) hx hy)
      have hfits := h.fits
      have hpos := h.width_pos
      unfold inserted
      dsimp only
      split
      · exact ⟨_, hcut⟩
      · exact ⟨_, .paren (.binary (by decide) hcut (Computes.denotes_count (by omega)))⟩
    refine ⟨_, .binary (by decide) (.name h.place)
      (.binary (by decide) (.paren (.binary (by decide) ht hu)) hz), ?_⟩
    obtain ⟨w, hw, hwtype, -⟩ := hfield.exists_wordIn
    obtain ⟨k, hk, hktype, -⟩ := hkept.exists_wordIn
    simp [Csharp.Tree.assignment?, Csharp.Tree.bare, Csharp.Tree.value?, Value.binary?, hw, hk, hwtype,
      hktype, hwide]
  | some wide =>
    obtain ⟨hwideBits, hself, hwidens⟩ := h.unified_wide hwide
    have hkept : Computes enums σ _ wide _ := (hfield.andWidened h.kept_computes hwide).paren
    obtain ⟨t, ht, -, word, hvalue, hword⟩ := hkept.or (h.inserted_computes hwide hv hvtype) hself
    refine ⟨_, .binary (by decide) (.name h.place) ht, ?_⟩
    by_cases hsame : wide = type
    · subst hsame
      rw [if_pos rfl]
      refine ⟨word, ?_, fun i hi => ?_⟩
      · have hconvert : (Value.ofWord wide word).convert? old.type = some (.ofWord wide word) := by
          rw [holdType]
          exact (Value.ofWord wide word).convert_self
        simp [Csharp.Tree.assignment?, Csharp.Tree.bare, hold, hvalue, hconvert]
      · rw [hword i (by omega)]
        dsimp only
        rw [Csharp.extended_of_lt (by omega), Value.extended_bit holdType]
        rfl
    · rw [if_neg (fun heq => hsame (Option.some.inj heq))]
      have hconvert : (Value.ofWord wide word).convert? (.integer type) = none := by
        simp [Value.convert?, hwidens hsame]
      simp [Csharp.Tree.assignment?, Csharp.Tree.bare, hold, hvalue, holdType, hconvert]

theorem keptBits_eq (hsigned : type.signed = true) (hwidth : a.offset + a.width ≤ 31 ∨ a.width = 64) :
    unified? type a.maskType = some type ∧
      ∀ i < 64, a.keptBits i = !decide (a.offset ≤ i ∧ i < a.offset + a.width) := by
  obtain ⟨-, -, -, hsame, -⟩ := h.facts
  have hfits := h.fits
  have hmask : a.maskType = Csharp.int := by
    refine if_pos (hwidth.imp (by omega) fun hfull => ⟨hsame.trans hsigned, hfull⟩)
  refine ⟨?_, fun i hi => ?_⟩
  · rcases h.storage with ⟨-, rfl⟩ | ⟨-, rfl⟩
    · rw [hmask]
      rfl
    · cases hsigned
  · unfold keptBits extended
    rw [hmask]
    simp only [show Csharp.int.bits = 32 from rfl, show Csharp.int.signed = true from rfl, Bool.true_and]
    grind

theorem width_of_keptBits (hunified : unified? type a.maskType = some type)
    (hkept : ∀ i < 64, ¬ (a.offset ≤ i ∧ i < a.offset + a.width) → a.keptBits i = true) :
    a.storage = "nint" ∧ (a.offset + a.width ≤ 31 ∨ a.width = 64) := by
  obtain ⟨-, -, -, hsame, -⟩ := h.facts
  have hfits := h.fits
  have hpos := h.width_pos
  have hlow := hkept (a.offset - 32) (by omega)
  have hhigh := hkept 63 (by omega)
  unfold keptBits extended at hlow hhigh
  rcases h.storage with ⟨hname, rfl⟩ | ⟨hname, rfl⟩
  · have hall : ∀ m ∈ maskTypes, unified? ⟨true, 6⟩ m = some ⟨true, 6⟩ → m = Csharp.int := by decide
    have hmask := hall _ (maskType_mem a) hunified
    have hwidth : a.width ≤ 31 ∨ a.width = 64 := by
      by_contra hne
      rw [maskType, if_neg fun hint => hne (hint.imp id And.right)] at hmask
      split_ifs at hmask <;> exact absurd hmask (by decide)
    simp only [hmask, show Csharp.int.bits = 32 from rfl, show Csharp.int.signed = true from rfl] at hlow hhigh
    exact ⟨hname, by grind⟩
  · have hall : ∀ m ∈ maskTypes, unified? ⟨false, 6⟩ m = some ⟨false, 6⟩ → m = ⟨false, 4⟩ := by decide
    have hmask := hall _ (maskType_mem a) hunified
    have hwidth : a.width = 32 := by
      by_contra hne
      rw [maskType, if_neg hne] at hmask
      split_ifs at hmask <;> exact absurd hmask (by decide)
    have hbits : IntegerType.bits ⟨false, 4⟩ = 32 := rfl
    simp only [hmask, hbits] at hlow hhigh
    grind

end PointerSized

end BitAccess

variable {settings : Settings} {ast : Native.Ast} {env : Env} {scope : Scope} {m : BitMember}
  {type : IntegerType} {enums : String → Option IntegerType} {target : ValueType}

/-- The setter writes the bits of the field and no others. -/
def BitMember.SetsOwnBits (m : BitMember) (enums : String → Option IntegerType) (type : IntegerType)
    (target : ValueType) : Prop :=
  ∀ fields (word : BitVec type.bits) (v : Value), v.type = target →
    fields m.place = some (.ofWord type word) → ∃ word', setProperty? enums fields v m.property =
        some (Function.update fields m.place (some (.ofWord type word'))) ∧
      ∀ i < type.bits, word'.getLsbD i =
        if m.slot.offset ≤ i ∧ i < m.slot.offset + m.slot.width then v.bit (i - m.slot.offset)
        else word.getLsbD i

theorem BitMember.Emitted.pointerSized (h : m.Emitted env scope) (henv : prepare settings ast = .ok env)
    (hplain : m.Plain) (hstorage : m.unit.storage = "nint" ∨ m.unit.storage = "nuint")
    (htype : IntegerType.ofName? m.unit.storage = some type) :
    ∃ target attrs name getter, m.property = .property attrs target name getter
        (BitAccess.ofSlot m.place m.unit m.slot target).setter ∧
      (BitAccess.ofSlot m.place m.unit m.slot target).PointerSized type := by
  obtain ⟨target, attrs, name, storage, heq, hcases, hbits, -⟩ := h.property_eq henv
  have hstorage : m.unit.storage = "nint" ∧ type = ⟨true, 6⟩ ∨ m.unit.storage = "nuint" ∧ type = ⟨false, 6⟩ := by
    rcases hstorage with hs | hs
    · rw [hs] at htype
      exact .inl ⟨hs, Option.mem_unique htype rfl⟩
    · rw [hs] at htype
      exact .inr ⟨hs, Option.mem_unique htype rfl⟩
  have hunit : m.unit.bits = 64 := by
    rw [h.bits_eq htype]
    rcases hstorage with ⟨-, rfl⟩ | ⟨-, rfl⟩ <;> rfl
  have hbool : target.text ≠ "bool" := fun htext => by
    have := bits_of_truth hcases hbits htext
    omega
  refine ⟨target, attrs, name, _, heq, hstorage, hunit, h.slot_bounds.1, hunit ▸ h.slot_bounds.2,
    isName_storageName hplain, hbool, fun s hs => ?_⟩
  rcases hcases with hsame | hkeyword
  · have hchar : target.text ≠ "char" := fun htext => by simp [storageOf?, htext] at hsame
    obtain ⟨-, rfl⟩ : _ ∧ target.text = storage := by simpa [storageOf?, hbool, hchar] using hsame
    exact (storageBits_eq hs).symm.trans (hbits.trans hunit)
  · exact bits_of_not_keyword hs hkeyword

/-- **Which setters of pointer-sized storage are right**: for storage `nint`, those of bit fields that end
below the sign of a mask of 32 bits or take up the whole storage. -/
theorem pointer_sized_setter_right_iff (henv : prepare settings ast = .ok env) (h : m.Emitted env scope)
    (hplain : m.Plain) (hstorage : m.unit.storage = "nint" ∨ m.unit.storage = "nuint")
    (htype : IntegerType.ofName? m.unit.storage = some type)
    (htarget : propertyType? enums m.property = some target) :
    m.SetsOwnBits enums type target ↔
      m.unit.storage = "nint" ∧ (m.slot.offset + m.slot.width ≤ 31 ∨ m.slot.width = 64) := by
  obtain ⟨managed, attrs, name, getter, heq, hsized⟩ := h.pointerSized henv hplain hstorage htype
  have hbits := hsized.facts.2.1
  have hplace := storageName_ne_value m.position m.units.length m.base
  rw [heq] at htarget
  have hnamed : ∀ v : Value, v.type = target →
      ValueType.named? enums (BitAccess.ofSlot m.place m.unit m.slot managed).type.text = some v.type :=
    fun v hv => htarget.trans (congrArg some hv.symm)
  constructor
  · intro hright
    -- All ones, and zeros are written: whatever is not kept shows.
    let ones : String → Option Value :=
      Function.update (fun _ => none) m.place (some (.ofWord type (BitVec.allOnes _)))
    let zero : Value := .ofInt target 0
    have hones : ones m.place = some (.ofWord type (BitVec.allOnes _)) := Function.update_self _ _ _
    obtain ⟨word', hset, hword'⟩ := hright ones (BitVec.allOnes _) zero rfl hones
    obtain ⟨t, ht, hassign⟩ := hsized.setter_assigns ((Function.update_of_ne hplace _ _).trans hones) rfl
      (Function.update_self "value" (some zero) ones) (hnamed zero rfl)
    rw [heq] at hset
    replace hset := (BitAccess.setProperty_of_denotes ht (hnamed zero rfl)).symm.trans hset
    split at hassign
    · rename_i hunified
      obtain ⟨word, hassign, hword⟩ := hassign
      rw [hassign] at hset
      have hsame : word = word' := by
        have hat := congrFun (Option.some.inj hset) m.place
        have hvalue : Value.ofWord type word = .ofWord type word' := by simpa [BitAccess.ofSlot] using hat
        exact eq_of_heq (Value.mk.inj hvalue).2
      refine hsized.width_of_keptBits hunified fun i hi hout => ?_
      have hkept := (hword' i (by omega)).trans (if_neg hout)
      rw [← hsame, hword i hi, Value.bit_ofWord, Csharp.extended_of_lt (by omega)] at hkept
      simpa [hbits, hi, zero, Value.bit, Value.ofInt] using hkept
    · rw [hassign] at hset
      cases hset
  · rintro ⟨hnint, hwidth⟩ fields word v hv hword
    have hsigned : type.signed = true := by
      rw [hnint] at htype
      obtain rfl : type = ⟨true, 6⟩ := Option.mem_unique htype rfl
      rfl
    obtain ⟨hunified, hkept⟩ := hsized.keptBits_eq hsigned hwidth
    obtain ⟨t, ht, hassign⟩ := hsized.setter_assigns ((Function.update_of_ne hplace _ _).trans hword) rfl
      (Function.update_self "value" (some v) fields) (hnamed v hv)
    rw [if_pos hunified] at hassign
    obtain ⟨word', hassign, hword'⟩ := hassign
    refine ⟨word', ?_, fun i hi => ?_⟩
    · rw [heq]
      refine (BitAccess.setProperty_of_denotes ht (hnamed v hv)).trans ?_
      rw [hassign]
      rfl
    · rw [hword' i (by omega), hkept i (by omega), Value.bit_ofWord, Csharp.extended_of_lt hi]
      by_cases hin : m.slot.offset ≤ i ∧ i < m.slot.offset + m.slot.width
      · simp [BitAccess.ofSlot, hin]
      · simp [BitAccess.ofSlot, hin]

/-- Two bit fields of 20 bits each. The upper one goes beyond a mask of 32 bits. -/
def words : Env where
  ast :=
    { file := "words.h"
      topLevel := [⟨0⟩, ⟨1⟩]
      decls :=
        #[{ kind := .typedef ⟨0⟩, name := "ptrdiff_t" },
          { kind := .record { tag := .struct, members := [⟨2⟩, ⟨3⟩] }, name := "Words" },
          { kind := .field { type := ⟨1⟩, bitWidth := some 20 }, name := "low", parent := some ⟨1⟩ },
          { kind := .field { type := ⟨1⟩, bitWidth := some 20 }, name := "high", parent := some ⟨1⟩ }]
      types := #[.ofBuiltin .long, { kind := .typedef ⟨0⟩ ⟨0⟩, spelling := "ptrdiff_t" }] }
  settings := {}
  symbols := ⟨#["ptrdiff_t", "Words", "low", "high"], [], [], [], [], [], []⟩

def wordsMember (name : String) (slot : BitSlot) : BitMember :=
  let unit : BitUnit := ⟨⟨2⟩, "nint", 64, 40, [⟨⟨2⟩, 0, 20⟩, ⟨⟨3⟩, 20, 20⟩]⟩
  let access := BitAccess.ofSlot "_bitfield" unit slot (.named "nint")
  { base := none, units := [unit], position := 0, unit, slot
    property := .property [.nativeTypeName "ptrdiff_t : 20"] (.named "nint") name access.getter
      access.setter }

theorem wordsLow_set :
    prepare {} words.ast = .ok words ∧ (wordsMember "low" ⟨⟨2⟩, 0, 20⟩).Emitted words {} ∧
      (wordsMember "low" ⟨⟨2⟩, 0, 20⟩).SetsOwnBits (fun _ => none) ⟨true, 6⟩ (.integer ⟨true, 6⟩) := by
  have henv : prepare {} words.ast = .ok words := rfl
  have hlow : (wordsMember "low" ⟨⟨2⟩, 0, 20⟩).Emitted words {} :=
    ⟨⟨[⟨2⟩, ⟨3⟩], gives_of_run (c := {}) rfl⟩, rfl, .head _, gives_of_run (c := {}) rfl⟩
  refine ⟨henv, hlow, ?_⟩
  exact (pointer_sized_setter_right_iff henv hlow nofun (.inl rfl) rfl rfl).mpr ⟨rfl, .inl (by decide)⟩

/-- Writing zero to the upper bit field also clears all bits above it. -/
theorem wordsHigh_clears_other_bits :
    (wordsMember "high" ⟨⟨3⟩, 20, 20⟩).Emitted words {} ∧
      ((setProperty? (fun _ => none) (packetOnes ⟨true, 6⟩) (.ofWord ⟨true, 6⟩ 0)
        (wordsMember "high" ⟨⟨3⟩, 20, 20⟩).property).bind (· "_bitfield")) =
          some (.ofWord ⟨true, 6⟩ 0xFFFFF) := by
  refine ⟨⟨⟨[⟨2⟩, ⟨3⟩], gives_of_run (c := {}) rfl⟩, rfl, .tail _ (.head _), gives_of_run (c := {}) rfl⟩, ?_⟩
  decide +kernel

end Interop.Binding
