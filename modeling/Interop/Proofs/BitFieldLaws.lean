import Interop.Proofs.BitFieldAccess
import Interop.Proofs.TypeNames

/-!
# The laws of bit fields

The properties of a struct's bit fields behave like variables of their own
(`bitField_properties_are_lenses`). The base that a bit field is taken over from must have a name without
an escape, since it becomes a part of the name of the storage field (`nodeMode_not_assignable`), and the
bit field must have the sign of its storage; `mixedSign_reads_back_iff` says which values survive
otherwise.
-/

namespace Interop.Binding

open Native (DeclId TypeId)
open Emit
open Managed (Member IntegerType TypeName)
open Csharp (Value ValueType isWord getProperty? setProperty? propertyType?)

/-! ## Cut values -/

section

variable {v : Value}

theorem bit_truncated (htype : v.type ≠ .truth) (hpos : 0 < width) (hi : i < v.type.bits) :
    (v.truncated width signed).bit i = if i < width then v.bit i else signed && v.bit (width - 1) := by
  rw [Value.truncated, Value.bit_ofBits htype hi, BitVec.msb_eq_getLsbD_last,
    v.getLsbD_ofInt_toInt (show width - 1 < width by omega)]
  split
  · rename_i hlt
    rw [v.getLsbD_ofInt_toInt hlt]
  · rfl

theorem truncated_truth (htype : v.type = .truth) (hpos : 0 < width) : v.truncated width signed = v := by
  obtain ⟨b, rfl⟩ := Value.exists_ofBool htype
  rw [Value.truncated, Value.ofBits, if_pos htype]
  have hbit : ∀ i < width, (BitVec.ofInt width (Value.ofBool b).toInt).getLsbD i = (decide (i = 0) && b) :=
    fun i hi => by rw [Value.getLsbD_ofInt_toInt _ hi, Value.bit_ofBool]
  congr 1
  cases b with
  | false =>
    have hzero : BitVec.ofInt width (Value.ofBool false).toInt = 0 := by
      apply BitVec.eq_of_getLsbD_eq
      intro i hi
      rw [hbit i hi]
      simp
    rw [hzero]
    simp
  | true =>
    rw [bne_iff_ne]
    intro hzero
    have hlow := hbit 0 hpos
    rw [hzero] at hlow
    simp at hlow

theorem truncated_not_iff (htype : v.type ≠ .truth) (hpos : 0 < width) (hlt : width < v.type.bits)
    (h : v.truncated width signed = v) : v.truncated width (!signed) = v ↔ v.bit (width - 1) = false := by
  have hbits : ∀ i < v.type.bits,
      v.bit i = if i < width then v.bit i else signed && v.bit (width - 1) := by
    intro i hi
    rw [← bit_truncated htype hpos hi, h]
  constructor
  · intro hother
    -- The bit above the highest one has to be the sign and zero.
    have hnext := hbits width hlt
    have hnext' : (v.truncated width (!signed)).bit width = _ := bit_truncated htype hpos hlt
    rw [hother] at hnext'
    rw [if_neg (Nat.lt_irrefl _)] at hnext hnext'
    cases hbit : v.bit (width - 1) with
    | false => rfl
    | true =>
      rw [hbit] at hnext hnext'
      rw [hnext] at hnext'
      cases signed <;> cases hnext'
  · intro hbit
    apply Value.eq_of_bits (by simp [Value.truncated])
    intro i hi
    rw [Value.truncated, Value.type_ofBits] at hi
    rw [bit_truncated htype hpos hi, hbits i hi, hbit]
    simp

end

/-! ## The access to a bit field -/

namespace BitAccess

def ofSlot (place : String) (u : BitUnit) (slot : BitSlot) (type : TypeName) : BitAccess where
  place := place
  storage := u.storage
  bits := u.bits
  offset := slot.offset
  width := slot.width
  type := type

variable {a : BitAccess} {type : IntegerType}

theorem getProperty_eq (h : a.Fixed type) (hbool : a.type.text = "bool" → type.bits = 8)
    (hword : fields a.place = some (.ofWord type word)) {setter : Managed.Expr} :
    getProperty? enums fields (.property attrs a.type name a.getter setter) =
      (ValueType.named? enums a.type.text).map fun target =>
        Value.ofBits target type.signed (word.extractLsb' a.offset a.width) := by
  obtain ⟨u, hread, hvalue⟩ := @getter_reads _ enums _ _ h hbool _ hword
  rw [getProperty?, hread]
  cases htarget : ValueType.named? enums a.type.text with
  | none => simp
  | some target =>
    rw [htarget, Option.map_some] at hvalue
    have hconvert := (Value.ofBits target type.signed (word.extractLsb' a.offset a.width)).convert_self
    rw [Value.type_ofBits] at hconvert
    simp only [Option.bind_eq_bind, Option.bind_some, hvalue, hconvert, Option.map_some]

theorem setProperty_of_denotes (ht : Csharp.Denotes a.setter t) {v : Value}
    (hv : ValueType.named? enums a.type.text = some v.type) {getter : Managed.Expr} :
    setProperty? enums fields v (.property attrs a.type name getter a.setter) =
      (t.assignment? enums (Function.update fields "value" (some v))).map fun new =>
        Function.update fields new.1 (some new.2) := by
  obtain ⟨u, hread, rfl, -⟩ := Csharp.read_text ht
  rw [Csharp.Tree.assignment_bare]
  simp only [setProperty?, hv, if_true, hread, Option.bind_eq_bind, Option.bind_some]
  cases u.assignment? enums (Function.update fields "value" (some v)) <;> rfl

/-- **Writing a property.** The bits of the field become those of the value, all other bits stay. -/
theorem setProperty_eq (h : a.Fixed type) (hplace : a.place ≠ "value")
    (hword : fields a.place = some (.ofWord type word)) {v : Value}
    (hv : ValueType.named? enums a.type.text = some v.type) {getter : Managed.Expr} :
    ∃ word', setProperty? enums fields v (.property attrs a.type name getter a.setter) =
        some (Function.update fields a.place (some (.ofWord type word'))) ∧
      ∀ i < type.bits, word'.getLsbD i =
        if a.offset ≤ i ∧ i < a.offset + a.width then v.bit (i - a.offset) else word.getLsbD i := by
  let σ := Function.update fields "value" (some v)
  have hold : σ a.place = some (.ofWord type word) := by
    rw [← hword]
    exact Function.update_of_ne hplace _ _
  have hnew : σ "value" = some v := Function.update_self _ _ _
  obtain ⟨t, word', ht, hassign, hbits⟩ := setter_assigns h hold rfl hnew hv
  refine ⟨word', ?_, fun i hi => ?_⟩
  · rw [setProperty_of_denotes ht hv, hassign]
    rfl
  · rw [hbits i hi, writtenBits, Value.bit_ofWord, Csharp.extended_of_lt hi]

theorem getProperty_of_written (h : a.Fixed type) (hbool : a.type.text = "bool" → type.bits = 8)
    {word word' : BitVec type.bits} {v : Value} (hv : ValueType.named? enums a.type.text = some v.type)
    (hbits : ∀ i < type.bits, word'.getLsbD i =
      if a.offset ≤ i ∧ i < a.offset + a.width then v.bit (i - a.offset) else word.getLsbD i)
    (hword : fields a.place = some (.ofWord type word')) {setter : Managed.Expr} :
    getProperty? enums fields (.property attrs a.type name a.getter setter) =
      some (v.truncated a.width type.signed) := by
  have hfits := h.fits
  have heq := h.bits_eq
  have hslot : word'.extractLsb' a.offset a.width = BitVec.ofInt a.width v.toInt := by
    apply BitVec.eq_of_getLsbD_eq
    intro i hi
    rw [BitVec.getLsbD_extractLsb', v.getLsbD_ofInt_toInt hi, hbits _ (by omega), if_pos (by omega)]
    simp [hi]
  rw [getProperty_eq h hbool hword, hv, Option.map_some, hslot]
  rfl

end BitAccess

/-! ## The bit fields of a struct -/

/-- A bit field of a struct, which may come from a base, with its storage field and its property. -/
structure BitMember where
  base : Option String
  units : List BitUnit
  position : Nat
  unit : BitUnit
  slot : BitSlot
  property : Member

namespace BitMember

def place (m : BitMember) : String :=
  storageName m.position m.units.length m.base

structure Emitted (env : Env) (scope : Scope) (m : BitMember) : Prop where
  units : ∃ members, (bitUnitsOf false members).Gives env scope m.units
  unit : m.units[m.position]? = some m.unit
  slot : m.slot ∈ m.unit.slots
  property : (bitProperty m.place m.unit m.slot).Gives env scope m.property

/-- The name of the record that declares the bit field is written without an escape. -/
def Plain (m : BitMember) : Prop :=
  ∀ base ∈ m.base, isWord base.toList = true

def Holds (env : Env) (scope : Scope) (m : BitMember) (own : IntegerType) : Prop :=
  ∃ d field storage, env.ast.decl? m.slot.field = some d ∧ d.kind = .field field ∧
    (bitStorage field.type d.location).Gives env scope storage ∧
    IntegerType.ofName? storage = some own

end BitMember

theorem bitProperty_cases {env : Env} {scope : Scope}
    (h : (bitProperty place u slot).Gives env scope property) :
    ∃ d field mapped attrs name, env.ast.decl? slot.field = some d ∧ d.kind = .field field ∧
      (mapType field.type .field d.location).Gives env scope mapped ∧
      property = .property attrs mapped.type name (BitAccess.ofSlot place u slot mapped.type).getter
        (BitAccess.ofSlot place u slot mapped.type).setter := by
  simp only [bitProperty, gives_bind, gives_decl] at h
  obtain ⟨d, hd, h⟩ := h
  split at h
  · rename_i type declared offset hkind
    simp only [gives_bind, gives_pure] at h
    obtain ⟨mapped, hmapped, obsolete, -, name, -, rfl⟩ := h
    exact ⟨d, _, mapped, _, name, hd, hkind, hmapped, rfl⟩
  · simp at h

theorem held_eq_or_not_keyword {env : Env} {scope : Scope} (hs : env.symbols.Describes env.ast settings)
    (hheld : HeldType env type held) (hmapped : (mapType type .field location).Gives env scope mapped) :
    held = type ∨ Managed.keywords.contains mapped.name = false := by
  obtain ⟨kind, hkind, hheld⟩ := hheld
  cases kind with
  | enum id =>
    right
    simp only [Native.Ast.canonicalKind?, bind, Option.bind_eq_some_iff, pure, Option.some.injEq] at hkind
    obtain ⟨target, htarget, t, ht, hkind⟩ := hkind
    obtain ⟨usesPointers, hm⟩ := managedFrom_of_mapType hmapped
    rw [MappedType.name]
    have hnamed : directlyNamed t.kind = some id := by rw [hkind]; rfl
    have hcases := managedFrom_of_named (c := ⟨env.ast, env.symbols, scope.record, location⟩) htarget ht
      hnamed hm
    rcases hcases with ⟨_, _, name, -, ⟨_, _, _, _, -, -, -, hknown⟩, hm⟩ | ⟨name, hname, hm⟩ <;>
      rw [(Prod.mk.inj hm).1]
    · have hname : name = "nuint" ∨ name = "nint" := by
        unfold wellKnownTypedef? at hknown
        split at hknown
        · exact .inl (Option.some.inj hknown).symm
        split at hknown
        · exact .inr (Option.some.inj hknown).symm
        · cases hknown
      rcases hname with rfl | rfl
      · exact (by decide : Managed.keywords.contains "nuint" = false)
      · exact (by decide : Managed.keywords.contains "nint" = false)
    · exact qualifiedName_not_keyword hs hname
  | _ => exact .inl hheld

theorem property_type_cases {env : Env} {scope : Scope} (hs : env.symbols.Describes env.ast settings)
    (hmapped : (mapType type .field location).Gives env scope mapped)
    (hstorage : (bitStorage type location).Gives env scope storage) :
    storageOf? mapped.name = some storage ∨ Managed.keywords.contains mapped.name = false := by
  obtain ⟨held, mapped', hheld, hmapped', hname⟩ := gives_bitStorage.mp hstorage
  rcases held_eq_or_not_keyword hs hheld hmapped with rfl | hkeyword
  · rw [hmapped.unique hmapped']
    exact .inl hname
  · exact .inr hkeyword

namespace BitMember

variable {settings : Settings} {ast : Native.Ast} {env : Env} {scope : Scope} {m m' : BitMember}
  {type : IntegerType} {enums : String → Option IntegerType} {fields : String → Option Value}
variable {word word' : BitVec type.bits} {v : Value}

theorem Emitted.placed (h : m.Emitted env scope) : m.unit.Placed env scope := by
  obtain ⟨members, hunits⟩ := h.units
  exact bitUnits_placed hunits m.unit (List.mem_of_getElem? h.unit)

theorem Emitted.bits_eq (h : m.Emitted env scope) (htype : IntegerType.ofName? m.unit.storage = some type) :
    m.unit.bits = type.bits := by
  obtain ⟨-, t, ht, hbits⟩ := h.placed.storage
  obtain rfl := Option.mem_unique ht htype
  exact hbits

theorem Emitted.slot_bounds (h : m.Emitted env scope) :
    0 < m.slot.width ∧ m.slot.offset + m.slot.width ≤ m.unit.bits := by
  obtain ⟨hpos, hend⟩ := h.placed.packed.slots m.slot h.slot
  exact ⟨hpos, Nat.le_trans hend h.placed.packed.used_le⟩

theorem Emitted.fixed (h : m.Emitted env scope) (hplain : m.Plain)
    (hstorage : m.unit.storage ∈ fixedStorages) (htype : IntegerType.ofName? m.unit.storage = some type)
    (target : TypeName) : (BitAccess.ofSlot m.place m.unit m.slot target).Fixed type :=
  ⟨hstorage, htype, h.bits_eq htype, h.slot_bounds.1, h.slot_bounds.2, isName_storageName hplain⟩

theorem Emitted.property_eq (h : m.Emitted env scope) (henv : prepare settings ast = .ok env) :
    ∃ target attrs name storage,
      m.property = .property attrs target name (BitAccess.ofSlot m.place m.unit m.slot target).getter
        (BitAccess.ofSlot m.place m.unit m.slot target).setter ∧
      (storageOf? target.text = some storage ∨ Managed.keywords.contains target.text = false) ∧
      storageBits storage = m.unit.bits ∧ (m.slot.offset = 0 → storage = m.unit.storage) ∧
      ∀ own, m.Holds env scope own → IntegerType.ofName? storage = some own := by
  obtain ⟨d, field, mapped, attrs, name, hd, hkind, hmapped, heq⟩ := bitProperty_cases h.property
  obtain ⟨f, hf, hfield, -, hbits, hlowest⟩ := h.placed.fields m.slot h.slot
  obtain ⟨d', field', -, hd', hkind', -, -, hstorage, -⟩ := hf.declared
  rw [hfield] at hd'
  obtain rfl := Option.mem_unique hd' hd
  obtain rfl : field' = field := Native.DeclKind.field.inj (hkind'.symm.trans hkind)
  refine ⟨mapped.type, attrs, name, f.storage, heq,
    property_type_cases (Symbols.describes_of_prepare henv) hmapped hstorage, hf.bits ▸ hbits, hlowest,
    ?_⟩
  rintro own ⟨d'', field'', storage, hd'', hkind'', hstorage', hown⟩
  obtain rfl := Option.mem_unique hd'' hd
  obtain rfl : field'' = field' := Native.DeclKind.field.inj (hkind''.symm.trans hkind)
  rw [hstorage.unique hstorage']
  exact hown

theorem bits_of_truth (hcases : storageOf? text = some storage ∨ Managed.keywords.contains text = false)
    (hbits : storageBits storage = bits) (htext : text = "bool") : bits = 8 := by
  subst htext
  rcases hcases with hbyte | hkeyword
  · obtain rfl : "byte" = storage := Option.some.inj hbyte
    rw [← hbits]
    rfl
  · exact absurd hkeyword (by decide)

theorem Emitted.storage_facts (h : m.Emitted env scope) (target : TypeName) :
    m.unit.bits ≤ 64 ∧
      Csharp.isTypeWord (BitAccess.ofSlot m.place m.unit m.slot target).arithmetic = true := by
  have hall : ∀ entry ∈ IntegerType.table, Csharp.isTypeWord entry.1 = true := by decide
  obtain ⟨-, t, ht, hbits⟩ := h.placed.storage
  have hword := hall (m.unit.storage, t) (mem_of_lookup ht)
  refine ⟨hbits ▸ (bits_bounds_of_ofName ht).2, ?_⟩
  unfold BitAccess.arithmetic
  split
  · decide
  · exact hword

theorem Emitted.unit_eq (h : m.Emitted env scope) (h' : m'.Emitted env scope)
    (hunits : m'.base = m.base → m'.units = m.units) (hplace : m'.place = m.place) : m'.unit = m.unit := by
  have hbase : m'.base = m.base := base_of_storageName_eq hplace
  have hunits := hunits hbase
  obtain ⟨hlt, -⟩ := List.getElem?_eq_some_iff.mp h.unit
  obtain ⟨hlt', -⟩ := List.getElem?_eq_some_iff.mp h'.unit
  have hposition : m'.position = m.position := by
    rw [hunits] at hlt'
    apply storageName_injective hlt' hlt
    rw [place, place, hbase, hunits] at hplace
    exact hplace
  have hunit := h'.unit
  rw [hunits, hposition, h.unit] at hunit
  exact (Option.some.inj hunit).symm

/-- **Other bit fields are not changed** when only the bits of one of them change in its storage. -/
theorem Emitted.getProperty_frame (h : m.Emitted env scope) (henv : prepare settings ast = .ok env)
    (hstorage : m.unit.storage ∈ fixedStorages) (htype : IntegerType.ofName? m.unit.storage = some type)
    (hword : fields m.place = some (.ofWord type word))
    (hkept : ∀ i < type.bits, ¬(m.slot.offset ≤ i ∧ i < m.slot.offset + m.slot.width) →
      word'.getLsbD i = word.getLsbD i)
    (h' : m'.Emitted env scope) (hplain : m'.Plain) (hunits : m'.base = m.base → m'.units = m.units)
    (hother : m'.slot.field ≠ m.slot.field) :
    getProperty? enums (Function.update fields m.place (some (.ofWord type word'))) m'.property =
      getProperty? enums fields m'.property := by
  obtain ⟨target, attrs, name, storage, heq, hcases, hbits, -⟩ := h'.property_eq henv
  rw [heq]
  by_cases hplace : m'.place = m.place
  · -- Two slots of one storage field have no bit in common.
    have hunit := h.unit_eq h' hunits hplace
    have hslot := h'.slot
    rw [hunit] at hslot
    rw [← hunit] at hstorage htype
    have hfixed := h'.fixed hplain hstorage htype target
    have hbool : target.text = "bool" → type.bits = 8 :=
      bits_of_truth hcases (hbits.trans (h'.bits_eq htype))
    have hnew : Function.update fields m.place (some (.ofWord type word')) m'.place =
        some (.ofWord type word') := by
      rw [hplace, Function.update_self]
    have hdisjoint := h.placed.packed.disjoint hslot h.slot (fun heq => hother (congrArg _ heq))
    have hfits := h'.slot_bounds.2
    rw [h'.bits_eq htype] at hfits
    have hbits : word'.extractLsb' m'.slot.offset m'.slot.width =
        word.extractLsb' m'.slot.offset m'.slot.width := by
      apply BitVec.eq_of_getLsbD_eq
      intro i hi
      rw [BitVec.getLsbD_extractLsb', BitVec.getLsbD_extractLsb',
        hkept (m'.slot.offset + i) (by omega) (by omega)]
    have hold : fields m'.place = some (.ofWord type word) := hplace ▸ hword
    refine (BitAccess.getProperty_eq hfixed hbool hnew).trans
      (Eq.trans ?_ (BitAccess.getProperty_eq hfixed hbool hold).symm)
    simp only [BitAccess.ofSlot, hbits]
  · obtain ⟨hle, harithmetic⟩ := h'.storage_facts target
    exact BitAccess.getter_frame (isName_storageName hplain) h'.slot_bounds.1 h'.slot_bounds.2 hle
      harithmetic (Function.update_of_ne hplace _ _)

theorem Emitted.write_read (h : m.Emitted env scope) (henv : prepare settings ast = .ok env)
    (hplain : m.Plain) (hstorage : m.unit.storage ∈ fixedStorages)
    (htype : IntegerType.ofName? m.unit.storage = some type)
    (hword : fields m.place = some (.ofWord type word)) (hv : propertyType? enums m.property = some v.type) :
    ∃ word', setProperty? enums fields v m.property =
        some (Function.update fields m.place (some (.ofWord type word'))) ∧
      (∀ i < type.bits, word'.getLsbD i =
        if m.slot.offset ≤ i ∧ i < m.slot.offset + m.slot.width then v.bit (i - m.slot.offset)
        else word.getLsbD i) ∧
      getProperty? enums (Function.update fields m.place (some (.ofWord type word'))) m.property =
        some (v.truncated m.slot.width type.signed) := by
  obtain ⟨target, attrs, name, storage, heq, hcases, hbits, -⟩ := h.property_eq henv
  rw [heq] at hv ⊢
  have hfixed := h.fixed hplain hstorage htype target
  have hbool : target.text = "bool" → type.bits = 8 :=
    bits_of_truth hcases (hbits.trans (h.bits_eq htype))
  obtain ⟨word', hset, hbits⟩ := BitAccess.setProperty_eq hfixed
    (storageName_ne_value m.position m.units.length m.base) hword hv
  refine ⟨word', hset, hbits, ?_⟩
  exact BitAccess.getProperty_of_written hfixed hbool hv hbits (Function.update_self _ _ _)

theorem bits_of_not_keyword (h : IntegerType.ofName? name = some t)
    (hkeyword : Managed.keywords.contains name = false) : t.bits = 64 := by
  have hall : ∀ entry ∈ IntegerType.table, Managed.keywords.contains entry.1 = false →
      entry.2.bits = 64 := by
    decide
  exact hall (name, t) (mem_of_lookup h) hkeyword

theorem Emitted.width_lt (h : m.Emitted env scope) (henv : prepare settings ast = .ok env)
    (htype : IntegerType.ofName? m.unit.storage = some type) (hown : m.Holds env scope own)
    (hsigned : own.signed ≠ type.signed) (hv : propertyType? enums m.property = some v.type)
    (henum : ∀ name underlying, v.type = .enumeration name underlying → underlying = own)
    (htruth : v.type ≠ .truth) : m.slot.width < v.type.bits := by
  obtain ⟨target, attrs, name, storage, heq, hcases, hbits, hlowest, hholds⟩ := h.property_eq henv
  have hown := hholds own hown
  have hoffset : m.slot.offset ≠ 0 := by
    intro hzero
    rw [hlowest hzero, htype] at hown
    exact hsigned (congrArg IntegerType.signed (Option.some.inj hown).symm)
  have hfits := h.slot_bounds.2
  rw [← hbits, storageBits_eq hown] at hfits
  -- Every type that the property can have is as wide as the type that the field holds.
  have hwide : own.bits ≤ v.type.bits := by
    rw [heq] at hv
    simp only [propertyType?, ValueType.named?] at hv
    split at hv
    · exact absurd (Option.some.inj hv).symm htruth
    split at hv
    · cases hv
    rename_i hbool hchar
    split at hv
    · rename_i t ht
      rw [← Option.some.inj hv]
      show own.bits ≤ t.bits
      rcases hcases with hname | hkeyword
      · -- The property has the type that the field holds.
        obtain rfl : target.text = storage := by simpa [storageOf?, hbool, hchar, ht] using hname
        rw [Option.mem_unique ht hown]
      · rw [bits_of_not_keyword ht hkeyword]
        exact (bits_bounds_of_ofName hown).2
    · obtain ⟨underlying, -, hunderlying⟩ := Option.map_eq_some_iff.mp hv
      rw [← henum _ _ hunderlying.symm, ← hunderlying]
      exact Nat.le_refl _
  omega

end BitMember

/-- **Bit fields are lenses.** A setter replaces the bits of the field and keeps all others, the getter then
returns the value, cut to the width of the field, and no other bit field reads differently. -/
theorem bitField_properties_are_lenses {settings : Settings} {ast : Native.Ast} {env : Env}
    {scope : Scope} (henv : prepare settings ast = .ok env) {m : BitMember}
    (hm : m.Emitted env scope) (hplain : m.Plain) (hstorage : m.unit.storage ∈ fixedStorages)
    {type own : IntegerType} (htype : IntegerType.ofName? m.unit.storage = some type)
    (_hown : m.Holds env scope own) (hsigned : own.signed = type.signed)
    {enums : String → Option IntegerType} {fields : String → Option Value} {word : BitVec type.bits}
    (hword : fields m.place = some (.ofWord type word)) {v : Value}
    (hv : propertyType? enums m.property = some v.type) :
    ∃ word', setProperty? enums fields v m.property =
        some (Function.update fields m.place (some (.ofWord type word'))) ∧
      (∀ i < type.bits, word'.getLsbD i =
        if m.slot.offset ≤ i ∧ i < m.slot.offset + m.slot.width then v.bit (i - m.slot.offset)
        else word.getLsbD i) ∧
      getProperty? enums (Function.update fields m.place (some (.ofWord type word'))) m.property =
        some (v.truncated m.slot.width own.signed) ∧
      (v.type = .truth → v.truncated m.slot.width own.signed = v) ∧
      ∀ m' : BitMember, m'.Emitted env scope → m'.Plain → (m'.base = m.base → m'.units = m.units) →
        m'.slot.field ≠ m.slot.field →
        getProperty? enums (Function.update fields m.place (some (.ofWord type word'))) m'.property =
          getProperty? enums fields m'.property := by
  obtain ⟨word', hset, hbits, hget⟩ := hm.write_read henv hplain hstorage htype hword hv
  refine ⟨word', hset, hbits, by rw [hsigned, hget], fun htruth =>
    truncated_truth htruth hm.slot_bounds.1, fun m' hm' hplain' hunits hother => ?_⟩
  refine hm.getProperty_frame henv hstorage htype hword (fun i hi hout => ?_) hm' hplain' hunits hother
  rw [hbits i hi, if_neg hout]

def packet (first second : Native.Builtin) : Env where
  ast :=
    { file := "packet.h"
      topLevel := [⟨0⟩, ⟨1⟩]
      decls :=
        #[{ kind := .enum { integerType := ⟨1⟩ }, name := "Mode" },
          { kind := .record { tag := .struct, members := [⟨2⟩, ⟨3⟩, ⟨4⟩] }, name := "Packet" },
          { kind := .field { type := ⟨0⟩, bitWidth := some 5 }, name := "lead", parent := some ⟨1⟩ },
          { kind := .field { type := ⟨1⟩, bitWidth := some 4 }, name := "size", parent := some ⟨1⟩ },
          { kind := .field { type := ⟨2⟩, bitWidth := some 7 }, name := "mode", parent := some ⟨1⟩ }]
      types := #[.ofBuiltin first, .ofBuiltin second, { kind := .enum ⟨0⟩, spelling := "Mode" }] }
  settings := {}
  symbols := ⟨#["Mode", "Packet", "lead", "size", "mode"], [], [], [], [], [], []⟩

def packetUnit (storage : String) : BitUnit where
  first := ⟨2⟩
  storage := storage
  bits := storageBits storage
  used := 16
  slots := [⟨⟨2⟩, 0, 5⟩, ⟨⟨3⟩, 5, 4⟩, ⟨⟨4⟩, 9, 7⟩]

def packetMember (storage spelled type name : String) (slot : BitSlot) : BitMember where
  base := none
  units := [packetUnit storage]
  position := 0
  unit := packetUnit storage
  slot := slot
  property := .property [.nativeTypeName spelled] (.named type) name
    (BitAccess.ofSlot "_bitfield" (packetUnit storage) slot (.named type)).getter
    (BitAccess.ofSlot "_bitfield" (packetUnit storage) slot (.named type)).setter

def packetMode (storage : String) : BitMember :=
  packetMember storage "Mode : 7" "Mode" "mode" ⟨⟨4⟩, 9, 7⟩

def packetSize (storage spelled type : String) : BitMember :=
  packetMember storage spelled type "size" ⟨⟨3⟩, 5, 4⟩

def packetOnes (type : IntegerType) : String → Option Value :=
  Function.update (fun _ => none) "_bitfield" (some (.ofWord type (BitVec.allOnes _)))

def modes (type : IntegerType) (name : String) : Option IntegerType :=
  if name = "Mode" then some type else none

def mode (type : IntegerType) (value : Int) : Value :=
  ⟨.enumeration "Mode" type, BitVec.ofInt _ value⟩

theorem packetMode_is_lens :
    let short : IntegerType := ⟨true, 2⟩
    let env := packet .short .short
    let size := packetSize "short" "short : 4" "short"
    (packetMode "short").Emitted env {} ∧ (packetMode "short").Holds env {} short ∧
    ∃ fields, setProperty? (modes short) (packetOnes short) (mode short (-3)) (packetMode "short").property =
        some fields ∧
      getProperty? (modes short) fields (packetMode "short").property = some (mode short (-3)) ∧
      getProperty? (modes short) fields size.property =
        getProperty? (modes short) (packetOnes short) size.property := by
  intro short env size
  have hunits : (bitUnitsOf false [⟨2⟩, ⟨3⟩, ⟨4⟩]).Gives env {} [packetUnit "short"] :=
    gives_of_run (c := {}) rfl
  have hmode : (packetMode "short").Emitted env {} :=
    ⟨⟨_, hunits⟩, rfl, .tail _ (.tail _ (.head _)), gives_of_run (c := {}) rfl⟩
  have hsize : size.Emitted env {} :=
    ⟨⟨_, hunits⟩, rfl, .tail _ (.head _), gives_of_run (c := {}) rfl⟩
  have hown : (packetMode "short").Holds env {} short :=
    ⟨_, _, "short", rfl, rfl, gives_of_run (c := {}) rfl, rfl⟩
  obtain ⟨word', hset, -, hget, -, hframe⟩ := bitField_properties_are_lenses (show
    prepare {} env.ast = .ok env from rfl) hmode nofun (by decide) rfl hown rfl
    (show packetOnes short (packetMode "short").place = some (.ofWord short (BitVec.allOnes _)) from rfl)
    (show propertyType? (modes short) (packetMode "short").property = some (mode short (-3)).type from rfl)
  refine ⟨hmode, hown, _, hset, ?_, hframe size hsize nofun (fun _ => rfl) (by decide)⟩
  rw [hget]
  exact congrArg some (by decide +kernel)

/-- A record with a vtable and a bit field that has the name of a keyword, and one derived from it. -/
def nodes : Env where
  ast :=
    { file := "nodes.h"
      topLevel := [⟨0⟩, ⟨3⟩]
      decls :=
        #[{ kind := .record { tag := .struct, members := [⟨1⟩, ⟨2⟩] }, name := "base" },
          { kind := .method { type := ⟨2⟩, isVirtual := true }, name := "run", parent := some ⟨0⟩ },
          { kind := .field { type := ⟨0⟩, bitWidth := some 3 }, name := "mode", parent := some ⟨0⟩ },
          { kind := .record { tag := .struct, bases := [{ type := ⟨3⟩ }] }, name := "Node" }]
      types :=
        #[.ofBuiltin .uInt, .ofBuiltin .void,
          { kind := .function { result := ⟨1⟩, params := [] }, spelling := "void ()" },
          { kind := .record ⟨0⟩, spelling := "base" }] }
  settings := {}
  symbols := ⟨#["@base", "run", "mode", "Node"], [], [], [], [], [], [(⟨3⟩, .ok [⟨1⟩]), (⟨0⟩, .ok [⟨1⟩])]⟩

def nodeMode : BitMember :=
  let slot : BitSlot := ⟨⟨2⟩, 0, 3⟩
  let unit : BitUnit := ⟨⟨2⟩, "uint", 32, 3, [slot]⟩
  let access := BitAccess.ofSlot "_@base_bitfield" unit slot (.named "uint")
  { base := some "@base", units := [unit], position := 0, unit, slot
    property := .property [.nativeTypeName "unsigned int : 3"] (.named "uint") "mode" access.getter
      access.setter }

/-- The escape of the name of a base ends up inside the name of the storage field. -/
theorem nodeMode_not_assignable :
    prepare {} nodes.ast = .ok nodes ∧ nodeMode.Emitted nodes ⟨some ⟨3⟩, none⟩ ∧
    nodeMode.Holds nodes ⟨some ⟨3⟩, none⟩ ⟨false, 4⟩ ∧
    (∃ attrs usesPointers name members,
      (emitRecord ⟨3⟩).Gives nodes {} (.record attrs usesPointers name members) ∧
        nodeMode.property ∈ members) ∧
    ∀ enums fields v, setProperty? enums fields v nodeMode.property = none := by
  refine ⟨rfl, ⟨⟨[⟨1⟩, ⟨2⟩], gives_of_run (c := { records := [⟨3⟩] }) rfl⟩, rfl, .head _,
    gives_of_run (c := { records := [⟨3⟩] }) rfl⟩, ⟨_, _, "uint", rfl, rfl,
    gives_of_run (c := { records := [⟨3⟩] }) rfl, rfl⟩,
    ⟨_, _, _, _, gives_of_run (c := {}) rfl, .tail _ (.tail _ (.head _))⟩, ?_⟩
  intro enums fields v
  have hread : Csharp.read (BitAccess.ofSlot nodeMode.place nodeMode.unit nodeMode.slot
      (.named "uint")).setter.text = none := by
    decide +kernel
  exact Csharp.setProperty_eq_none hread

/-- **A bit field without the sign of its storage** reads back what was written exactly if the value is a
truth value or the highest bit of the field is zero. -/
theorem mixedSign_reads_back_iff {settings : Settings} {ast : Native.Ast} {env : Env} {scope : Scope}
    (henv : prepare settings ast = .ok env) {m : BitMember} (hm : m.Emitted env scope)
    (hplain : m.Plain) (hstorage : m.unit.storage ∈ fixedStorages) {type own : IntegerType}
    (htype : IntegerType.ofName? m.unit.storage = some type) (hown : m.Holds env scope own)
    (hsigned : own.signed ≠ type.signed) {enums : String → Option IntegerType}
    {fields : String → Option Value} {word : BitVec type.bits}
    (hword : fields m.place = some (.ofWord type word)) {v : Value}
    (hv : propertyType? enums m.property = some v.type)
    (henum : ∀ name underlying, v.type = .enumeration name underlying → underlying = own)
    (hfits : v.truncated m.slot.width own.signed = v) :
    ∃ fields', setProperty? enums fields v m.property = some fields' ∧
      (getProperty? enums fields' m.property = some v ↔
        v.type = .truth ∨ v.bit (m.slot.width - 1) = false) := by
  obtain ⟨word', hset, -, hget⟩ := hm.write_read henv hplain hstorage htype hword hv
  refine ⟨_, hset, ?_⟩
  rw [hget, Option.some.injEq]
  by_cases htruth : v.type = .truth
  · simp [htruth, truncated_truth htruth hm.slot_bounds.1]
  have hother : type.signed = !own.signed := by
    revert hsigned
    cases own.signed <;> cases type.signed <;> simp
  rw [hother, truncated_not_iff htruth hm.slot_bounds.1
    (hm.width_lt henv htype hown hsigned hv henum htruth) hfits]
  simp [htruth]

theorem packetMode_reads_back_iff :
    let short : IntegerType := ⟨true, 2⟩
    let ushort : IntegerType := ⟨false, 2⟩
    let env := packet .uShort .short
    let property := (packetMode "ushort").property
    (packetMode "ushort").Emitted env {} ∧ (packetMode "ushort").Holds env {} short ∧
    (∃ fields, setProperty? (modes short) (packetOnes ushort) (mode short 5) property = some fields ∧
      getProperty? (modes short) fields property = some (mode short 5)) ∧
    (∃ fields, setProperty? (modes short) (packetOnes ushort) (mode short (-3)) property = some fields ∧
      getProperty? (modes short) fields property ≠ some (mode short (-3))) := by
  intro short ushort env property
  have hmode : (packetMode "ushort").Emitted env {} :=
    ⟨⟨[⟨2⟩, ⟨3⟩, ⟨4⟩], gives_of_run (c := {}) rfl⟩, rfl, .tail _ (.tail _ (.head _)),
      gives_of_run (c := {}) rfl⟩
  have hown : (packetMode "ushort").Holds env {} short :=
    ⟨_, _, "short", rfl, rfl, gives_of_run (c := {}) rfl, rfl⟩
  have hiff : ∀ n : Int, (mode short n).truncated 7 true = mode short n →
      ∃ fields, setProperty? (modes short) (packetOnes ushort) (mode short n) property = some fields ∧
        (getProperty? (modes short) fields property = some (mode short n) ↔
          (mode short n).type = .truth ∨ (mode short n).bit 6 = false) := by
    intro n hn
    refine mixedSign_reads_back_iff (show prepare {} env.ast = .ok env from rfl) hmode nofun (by decide)
      (show IntegerType.ofName? (packetMode "ushort").unit.storage = some ushort from rfl) hown nofun
      (show packetOnes ushort (packetMode "ushort").place = some (.ofWord ushort (BitVec.allOnes _))
        from rfl) rfl ?_ hn
    rintro name underlying ⟨⟩
    rfl
  obtain ⟨kept, hkept, hfive⟩ := hiff 5 (by decide +kernel)
  obtain ⟨lost, hlost, hminusThree⟩ := hiff (-3) (by decide +kernel)
  refine ⟨hmode, hown, ⟨kept, hkept, hfive.mpr (by decide +kernel)⟩, lost, hlost, ?_⟩
  intro hget
  exact absurd (hminusThree.mp hget) (by decide +kernel)

theorem packetSize_not_read_back :
    let uint : IntegerType := ⟨false, 4⟩
    let env := packet .int .uInt
    let size := packetSize "int" "unsigned int : 4" "uint"
    let fifteen : Value := .ofWord uint 15
    size.Emitted env {} ∧ size.Holds env {} uint ∧ fifteen.truncated size.slot.width uint.signed = fifteen ∧
    ∃ fields, setProperty? (fun _ => none) (packetOnes Csharp.int) fifteen size.property = some fields ∧
      getProperty? (fun _ => none) fields size.property = some (.ofWord uint (BitVec.allOnes _)) := by
  intro uint env size fifteen
  have hsize : size.Emitted env {} :=
    ⟨⟨[⟨2⟩, ⟨3⟩, ⟨4⟩], gives_of_run (c := {}) rfl⟩, rfl, .tail _ (.head _),
      gives_of_run (c := {}) rfl⟩
  have hown : size.Holds env {} uint :=
    ⟨_, _, "uint", rfl, rfl, gives_of_run (c := {}) rfl, rfl⟩
  obtain ⟨word', hset, -, hget⟩ := hsize.write_read (show prepare {} env.ast = .ok env from rfl) nofun
    (by decide) (show IntegerType.ofName? size.unit.storage = some Csharp.int from rfl)
    (show packetOnes Csharp.int size.place = some (.ofWord Csharp.int (BitVec.allOnes _)) from rfl)
    (show propertyType? (fun _ => none) size.property = some fifteen.type from rfl)
  refine ⟨hsize, hown, by decide +kernel, _, hset, ?_⟩
  rw [hget]
  exact congrArg some (by decide +kernel)

end Interop.Binding
