import Interop.Binding.Record
import Interop.Proofs.ExpressionForms

/-!
# Where bit fields are placed

Bit fields share a storage field as long as their types have the same size and there is room. What every
storage field is like (`bitUnits_placed`) follows from what one more bit field does to it
(`placeBits_forall`), and the storage fields divide the bit fields of a record (`placeBits_partition`).
Their names are no keywords and differ from each other (`storageName_injective`).
-/

namespace Interop.Binding

open Native (DeclId TypeId)
open Emit
open Managed (IntegerType)

variable {env : Env} {scope : Scope} {isUnion : Bool}

/-! ## The type of a storage field -/

theorem bits_bounds_of_ofName (h : IntegerType.ofName? name = some type) :
    8 ≤ type.bits ∧ type.bits ≤ 64 := by
  have hall : ∀ entry ∈ IntegerType.table, 8 ≤ entry.2.bits ∧ entry.2.bits ≤ 64 := by decide
  exact hall (name, type) (mem_of_lookup h)

theorem storageBits_eq (h : IntegerType.ofName? storage = some type) : storageBits storage = type.bits := by
  simp [storageBits, h]

/-- The type whose values a bit field of a type holds: for an enumeration, its underlying type. -/
def HeldType (env : Env) (type held : TypeId) : Prop :=
  ∃ kind, env.ast.canonicalKind? type = some kind ∧
    match kind with
    | .enum id => ∃ d, env.ast.decl? id = some d ∧
      match d.kind with
      | .enum e => held = e.integerType
      | _ => held = type
    | _ => held = type

/-- The storage type of a type by its C# name. There is none of characters. -/
def storageOf? (name : String) : Option String :=
  if name = "bool" then some "byte"
  else if name = "char" then none
  else (IntegerType.ofName? name).map fun _ => name

theorem gives_bitStorage {type : TypeId} :
    (bitStorage type location).Gives env scope storage ↔
      ∃ held mapped, HeldType env type held ∧ (mapType held .field location).Gives env scope mapped ∧
        storageOf? mapped.name = some storage := by
  -- What is done with the C# type is the same whatever the type is.
  have htail : ∀ mapped : MappedType,
      (if mapped.name = "bool" then (pure "byte" : Emit String)
        else if mapped.name = "char" then
          unsupported "bitfield" location "character bitfields are not supported"
        else if (IntegerType.ofName? mapped.name).isSome then pure mapped.name
        else
          unsupported "bitfield" location
            ("bitfield of type `" ++ mapped.name ++ "` is not supported")).Gives env scope storage ↔
        storageOf? mapped.name = some storage := by
    intro mapped
    unfold storageOf?
    split
    · simp
    split
    · simp
    cases IntegerType.ofName? mapped.name <;> simp
  simp only [bitStorage, gives_bind, gives_ast, gives_canonicalKind, exists_eq_left, HeldType]
  constructor
  · rintro ⟨kind, hkind, h⟩
    cases kind with
    | enum id =>
      simp only [gives_bind, gives_lift_option] at h
      obtain ⟨d, hd, h⟩ := h
      cases hdkind : d.kind with
      | enum e =>
        rw [hdkind] at h
        simp only [gives_bind, gives_pure, exists_eq_left', htail] at h
        obtain ⟨mapped, hmapped, h⟩ := h
        exact ⟨_, mapped, ⟨_, hkind, d, hd, by rw [hdkind]⟩, hmapped, h⟩
      | _ =>
        rw [hdkind] at h
        simp only [gives_bind, gives_pure, exists_eq_left', htail] at h
        obtain ⟨mapped, hmapped, h⟩ := h
        exact ⟨_, mapped, ⟨_, hkind, d, hd, by rw [hdkind]⟩, hmapped, h⟩
    | _ =>
      simp only [gives_bind, gives_pure, exists_eq_left', htail] at h
      obtain ⟨mapped, hmapped, h⟩ := h
      exact ⟨_, mapped, ⟨_, hkind, rfl⟩, hmapped, h⟩
  · rintro ⟨held, mapped, ⟨kind, hkind, hheld⟩, hmapped, h⟩
    refine ⟨kind, hkind, ?_⟩
    cases kind with
    | enum id =>
      obtain ⟨d, hd, hheld⟩ := hheld
      simp only [gives_bind, gives_lift_option]
      refine ⟨d, hd, ?_⟩
      cases hdkind : d.kind with
      | enum e =>
        rw [hdkind] at hheld
        simp only [gives_bind, gives_pure, exists_eq_left', htail]
        exact ⟨mapped, hheld ▸ hmapped, h⟩
      | _ =>
        rw [hdkind] at hheld
        simp only [gives_bind, gives_pure, exists_eq_left', htail]
        exact ⟨mapped, hheld ▸ hmapped, h⟩
    | _ =>
      simp only [gives_bind, gives_pure, exists_eq_left', htail]
      exact ⟨mapped, hheld ▸ hmapped, h⟩

theorem ofName_storageOf (h : storageOf? name = some storage) :
    storage ≠ "char" ∧ ∃ t, IntegerType.ofName? storage = some t := by
  unfold storageOf? at h
  split at h
  · obtain rfl := Option.some.inj h
    exact ⟨by decide, _, rfl⟩
  split at h
  · cases h
  · rename_i hchar
    obtain ⟨t, ht, rfl⟩ := Option.map_eq_some_iff.mp h
    exact ⟨hchar, t, ht⟩

/-! ## Placement -/

namespace BitUnit

variable {f : BitField} {u : BitUnit}

/-- The bit fields of a storage field are in order, and there is room for all of them. -/
structure Packed (u : BitUnit) : Prop where
  used_pos : 0 < u.used
  used_le : u.used ≤ u.bits
  slots : ∀ slot ∈ u.slots, 0 < slot.width ∧ slot.offset + slot.width ≤ u.used
  ordered : u.slots.Pairwise fun a b => a.offset + a.width ≤ b.offset

theorem packed_start (hpos : 0 < f.width) (hle : f.width ≤ f.bits) : (start f).Packed where
  used_pos := hpos
  used_le := hle
  slots := by
    intro slot hslot
    obtain rfl := List.mem_singleton.mp hslot
    exact ⟨hpos, by simp [start]⟩
  ordered := List.pairwise_singleton _ _

theorem Packed.add (h : u.Packed) (hfits : u.fits f = true) (hpos : 0 < f.width) : (u.add f).Packed := by
  simp only [fits, Bool.and_eq_true, decide_eq_true_eq] at hfits
  refine ⟨Nat.add_pos_left h.used_pos _, hfits.2, ?_, ?_⟩
  · intro slot hslot
    rcases List.mem_append.mp hslot with hslot | hslot
    · obtain ⟨hwidth, hend⟩ := h.slots slot hslot
      exact ⟨hwidth, Nat.le_trans hend (Nat.le_add_right _ _)⟩
    · obtain rfl := List.mem_singleton.mp hslot
      exact ⟨hpos, Nat.le_refl _⟩
  · refine List.pairwise_append.mpr ⟨h.ordered, List.pairwise_singleton _ _, ?_⟩
    intro a ha b hb
    obtain rfl := List.mem_singleton.mp hb
    exact (h.slots a ha).2

theorem Packed.disjoint (h : u.Packed) (ha : a ∈ u.slots) (hb : b ∈ u.slots) (hne : a ≠ b) :
    a.offset + a.width ≤ b.offset ∨ b.offset + b.width ≤ a.offset := by
  let apart (a b : BitSlot) := a.offset + a.width ≤ b.offset ∨ b.offset + b.width ≤ a.offset
  have hsymm : Std.Symm apart := ⟨fun _ _ => Or.symm⟩
  have hapart : u.slots.Pairwise apart := h.ordered.imp fun h => .inl h
  exact hapart.forall ha hb hne

end BitUnit

/-- **What holds of every storage field**: whatever one more bit field preserves. -/
theorem placeBits_forall {P : BitUnit → Prop} {items : List BitItem}
    (hstart : ∀ f, .bitField f ∈ items → P (.start f))
    (hadd : ∀ u f, .bitField f ∈ items → P u → u.fits f = true → P (u.add f)) {current : Option BitUnit}
    (hcurrent : ∀ u ∈ current, P u) : ∀ u ∈ placeBits isUnion current items, P u := by
  induction items generalizing current with
  | nil => simpa [placeBits] using hcurrent
  | cons item items ih =>
    have ih := @ih (fun f hf => hstart f (.tail _ hf)) (fun u f hf => hadd u f (.tail _ hf))
    cases item with
    | neutral =>
      cases current with
      | none => simpa [placeBits] using ih hcurrent
      | some u => simpa [placeBits] using ih hcurrent
    | boundary =>
      cases current with
      | none => simpa [placeBits] using @ih none nofun
      | some u =>
        intro v hv
        rcases List.mem_cons.mp hv with rfl | hv
        · exact hcurrent v rfl
        · exact @ih none nofun v hv
    | bitField f =>
      have hone : ∀ v ∈ some (BitUnit.start f), P v := by
        rintro v ⟨⟩
        exact hstart f (.head _)
      cases current with
      | none => simpa [placeBits] using ih hone
      | some u =>
        simp only [placeBits]
        split
        · -- The bit field joins the storage field that is being filled.
          rename_i hfits
          simp only [Bool.and_eq_true] at hfits
          refine @ih (some (u.add f)) ?_
          rintro v ⟨⟩
          exact hadd u f (.head _) (hcurrent u rfl) hfits.2
        · intro v hv
          rcases List.mem_cons.mp hv with rfl | hv
          · exact hcurrent v rfl
          · exact ih hone v hv

structure IsBitField (env : Env) (scope : Scope) (f : BitField) : Prop where
  declared : ∃ d field width, env.ast.decl? f.field = some d ∧ d.kind = .field field ∧
    field.bitWidth = some width ∧ width ≠ 0 ∧
    (bitStorage field.type d.location).Gives env scope f.storage ∧
    f.width = min width.toNat f.bits
  bits : f.bits = storageBits f.storage

@[simp] theorem gives_reportLayout : (reportLayout message location).Gives env scope u :=
  gives_report

def takesBits : Native.DeclKind → Bool
  | .field f => f.bitWidth.any (· ≠ 0)
  | _ => false

/-- No storage field goes on behind the declaration. -/
def endsUnit : Native.DeclKind → Bool
  | .field f => !f.bitWidth.any (· ≠ 0)
  | .record _ => true
  | _ => false

def IsMember (ast : Native.Ast) (p : Native.DeclKind → Bool) (id : DeclId) : Bool :=
  (ast.decl? id).any (p ·.kind)

inductive BitItem.IsFor (env : Env) (scope : Scope) (id : DeclId) : BitItem → Prop
  | bitField {f : BitField} (hid : f.field = id) (hf : IsBitField env scope f)
      (htakes : IsMember env.ast takesBits id = true) (hends : IsMember env.ast endsUnit id = false) :
      IsFor env scope id (.bitField f)
  | boundary (htakes : IsMember env.ast takesBits id = false) : IsFor env scope id .boundary
  | neutral (htakes : IsMember env.ast takesBits id = false)
      (hends : IsMember env.ast endsUnit id = false) : IsFor env scope id .neutral

theorem isFor_of_item {id : DeclId} (h : (bitItemOf isUnion id).Gives env scope item) :
    item.IsFor env scope id := by
  simp only [bitItemOf, gives_bind, gives_decl] at h
  obtain ⟨d, hd, h⟩ := h
  have hmember : ∀ p, IsMember env.ast p id = p d.kind := fun p => by simp [IsMember, hd]
  split at h
  · rename_i type width offset hkind
    split at h
    · rename_i hzero
      obtain rfl := gives_pure.mp h
      exact .boundary (by simp [hmember, hkind, takesBits, hzero])
    · rename_i hne
      simp only [gives_bind] at h
      obtain ⟨storage, hstorage, h⟩ := h
      -- Reports do not change the result.
      have hitem : item = .bitField ⟨id, storage, storageBits storage,
          min width.toNat (storageBits storage)⟩ := by
        split at h <;> split at h <;> simpa [eq_comm] using h
      subst hitem
      exact .bitField rfl ⟨⟨d, _, width, hd, hkind, rfl, hne, hstorage, rfl⟩, rfl⟩
        (by simp [hmember, hkind, takesBits, hne]) (by simp [hmember, hkind, endsUnit, hne])
  · rename_i f hwidth hkind
    obtain rfl := gives_pure.mp h
    refine .boundary ?_
    cases hbits : f.bitWidth with
    | none => simp [hmember, hkind, takesBits, hbits]
    | some width => exact absurd hkind (by simpa [← hbits] using hwidth f.type width f.offsetBits)
  · rename_i hkind
    obtain rfl := gives_pure.mp h
    exact .boundary (by simp [hmember, hkind, takesBits])
  · rename_i hfield hrecord
    obtain rfl := gives_pure.mp h
    refine .neutral ?_ ?_
    · cases hkind : d.kind <;> simp_all [takesBits]
    · cases hkind : d.kind <;> simp_all [endsUnit]

theorem isBitField_of_item {id : DeclId} (h : (bitItemOf isUnion id).Gives env scope (.bitField f)) :
    f.field = id ∧ IsBitField env scope f := by
  cases isFor_of_item h with
  | bitField hid hf => exact ⟨hid, hf⟩

namespace IsBitField

variable {env : Env} {scope : Scope}

theorem storage_integer (h : IsBitField env scope f) :
    f.storage ≠ "char" ∧ ∃ t, IntegerType.ofName? f.storage = some t ∧ f.bits = t.bits := by
  obtain ⟨⟨d, field, width, -, -, -, -, hstorage, -⟩, hbits⟩ := h
  obtain ⟨held, mapped, -, -, hname⟩ := gives_bitStorage.mp hstorage
  obtain ⟨hchar, t, ht⟩ := ofName_storageOf hname
  exact ⟨hchar, t, ht, by rw [hbits, storageBits_eq ht]⟩

theorem width_bounds (h : IsBitField env scope f) : 0 < f.width ∧ f.width ≤ f.bits := by
  obtain ⟨-, t, ht, hbits⟩ := h.storage_integer
  obtain ⟨d, field, width, -, -, -, hne, -, hwidth⟩ := h.declared
  have hpos : 0 < width.toNat := by
    rw [Nat.pos_iff_ne_zero]
    intro hzero
    exact hne (UInt32.toNat_inj.mp hzero)
  have height := (bits_bounds_of_ofName ht).1
  omega

end IsBitField

/-- A storage field has the type of its lowest bit field, and its bit fields do not overlap. -/
structure BitUnit.Placed (env : Env) (scope : Scope) (u : BitUnit) : Prop where
  packed : u.Packed
  storage : u.storage ≠ "char" ∧ ∃ t, IntegerType.ofName? u.storage = some t ∧ u.bits = t.bits
  fields : ∀ slot ∈ u.slots, ∃ f, IsBitField env scope f ∧ f.field = slot.field ∧
    f.width = slot.width ∧ f.bits = u.bits ∧ (slot.offset = 0 → f.storage = u.storage)

theorem bitUnits_placed {members : List DeclId} {units : List BitUnit}
    (h : (bitUnitsOf isUnion members).Gives env scope units) : ∀ u ∈ units, u.Placed env scope := by
  simp only [bitUnitsOf, gives_bind, gives_pure] at h
  obtain ⟨items, hitems, rfl⟩ := h
  have hfield : ∀ f, .bitField f ∈ items → IsBitField env scope f := by
    intro f hf
    obtain ⟨id, -, hid⟩ := hitems.exists_of_mem_forEach hf
    exact (isBitField_of_item hid).2
  refine placeBits_forall (fun f hf => ?_) (fun u f hf hu hfits => ?_) (by simp)
  · obtain ⟨hpos, hle⟩ := (hfield f hf).width_bounds
    refine ⟨BitUnit.packed_start hpos hle, (hfield f hf).storage_integer, ?_⟩
    intro slot hslot
    obtain rfl := List.mem_singleton.mp hslot
    exact ⟨f, hfield f hf, rfl, rfl, rfl, fun _ => rfl⟩
  · have hbits : u.bits = f.bits := by
      simp only [BitUnit.fits, Bool.and_eq_true, decide_eq_true_eq] at hfits
      exact hfits.1
    refine ⟨hu.packed.add hfits (hfield f hf).width_bounds.1, hu.storage, ?_⟩
    intro slot hslot
    rcases List.mem_append.mp hslot with hslot | hslot
    · exact hu.fields slot hslot
    · obtain rfl := List.mem_singleton.mp hslot
      have hpos := hu.packed.used_pos
      exact ⟨f, hfield f hf, rfl, rfl, hbits.symm, fun hzero => absurd hzero (Nat.ne_of_gt hpos)⟩

/-! ## Every bit field has its place -/

section Partition

variable {members : List DeclId} {units : List BitUnit}

def BitUnit.ids (u : BitUnit) : List DeclId :=
  u.slots.map BitSlot.field

/-- The storage field is for the bit fields of a run of members that nothing ends. -/
def BitUnit.Spans (ast : Native.Ast) (u : BitUnit) (run : List DeclId) : Prop :=
  run.filter (IsMember ast takesBits) = u.ids ∧ ∀ id ∈ run, IsMember ast endsUnit id = false

def BitUnit.IsPart (ast : Native.Ast) (isUnion : Bool) (members : List DeclId) (u : BitUnit) : Prop :=
  (isUnion = true → u.ids.length = 1) ∧
    ∃ before run after, members = before ++ run ++ after ∧ u.Spans ast run

def BitUnit.IsOpen (ast : Native.Ast) (isUnion : Bool) (members : List DeclId) (u : BitUnit) : Prop :=
  (isUnion = true → u.ids.length = 1) ∧ ∃ before run, members = before ++ run ∧ u.Spans ast run

/-- **The storage fields divide the bit fields** into runs. -/
theorem placeBits_partition (h : List.Forall₂ (fun id item => item.IsFor env scope id) members items)
    (hcurrent : ∀ u ∈ current, u.IsOpen env.ast isUnion done) :
    (placeBits isUnion current items).flatMap BitUnit.ids =
        current.toList.flatMap BitUnit.ids ++ members.filter (IsMember env.ast takesBits) ∧
      ∀ u ∈ placeBits isUnion current items, u.IsPart env.ast isUnion (done ++ members) := by
  induction h generalizing current done with
  | nil =>
    refine ⟨by simp [placeBits], fun u hu => ?_⟩
    obtain ⟨hunion, before, run, rfl, hspans⟩ := hcurrent u (by simpa [placeBits] using hu)
    exact ⟨hunion, before, run, [], by simp, hspans⟩
  | @cons id item members items hitem _ ih =>
    have hclosed : ∀ u ∈ current, u.IsPart env.ast isUnion (done ++ id :: members) := by
      intro u hu
      obtain ⟨hunion, before, run, rfl, hspans⟩ := hcurrent u hu
      exact ⟨hunion, before, run, id :: members, by simp, hspans⟩
    have hrest : ∀ {next : Option BitUnit}, (∀ u ∈ next, u.IsOpen env.ast isUnion (done ++ [id])) →
        (placeBits isUnion next items).flatMap BitUnit.ids =
            next.toList.flatMap BitUnit.ids ++ members.filter (IsMember env.ast takesBits) ∧
          ∀ u ∈ placeBits isUnion next items, u.IsPart env.ast isUnion (done ++ id :: members) := by
      intro next hnext
      simpa using ih hnext
    cases hitem with
    | neutral htakes hends =>
      have hlonger : ∀ u ∈ current, u.IsOpen env.ast isUnion (done ++ [id]) := by
        intro u hu
        obtain ⟨hunion, before, run, rfl, hids, hrun⟩ := hcurrent u hu
        refine ⟨hunion, before, run ++ [id], by simp, by simp [htakes, hids], ?_⟩
        exact List.forall_mem_append.mpr ⟨hrun, by simpa using hends⟩
      cases current <;> simpa [placeBits, htakes] using hrest hlonger
    | boundary htakes =>
      obtain ⟨hids, hparts⟩ := @hrest none (by simp)
      cases current with
      | none => simpa [placeBits, htakes] using ⟨hids, hparts⟩
      | some u =>
        refine ⟨by simpa [placeBits, htakes] using hids, ?_⟩
        simpa [placeBits] using ⟨hclosed u rfl, hparts⟩
    | @bitField f hid _ htakes hends =>
      have hstart : ∀ u ∈ some (BitUnit.start f), u.IsOpen env.ast isUnion (done ++ [id]) := by
        rintro _ ⟨⟩
        exact ⟨fun _ => rfl, done, [id], rfl, by simp [BitUnit.ids, BitUnit.start, htakes, hid],
          by simpa using hends⟩
      obtain ⟨hids, hparts⟩ := hrest hstart
      have hone : (BitUnit.start f).ids = [id] := by simp [BitUnit.ids, BitUnit.start, hid]
      cases current with
      | none => exact ⟨by simpa [placeBits, htakes, hone] using hids, by simpa [placeBits] using hparts⟩
      | some u =>
        simp only [placeBits]
        split
        · rename_i hfits
          simp only [Bool.and_eq_true, Bool.not_eq_true'] at hfits
          have hadd : (u.add f).ids = u.ids ++ [id] := by simp [BitUnit.ids, BitUnit.add, hid]
          obtain ⟨-, before, run, rfl, hrun, hopen⟩ := hcurrent u rfl
          have hadded : (u.add f).IsOpen env.ast isUnion (before ++ run ++ [id]) := by
            refine ⟨fun hunion => by simp [hunion] at hfits, before, run ++ [id], by simp, ?_, ?_⟩
            · simp [htakes, hrun, hadd]
            · exact List.forall_mem_append.mpr ⟨hopen, by simpa using hends⟩
          simpa [hadd, htakes] using @hrest (some (u.add f)) (by simpa using hadded)
        · refine ⟨by simp [hids, htakes, hone], ?_⟩
          simpa using ⟨hclosed u rfl, hparts⟩

theorem flatMap_ids_bitUnits (h : (bitUnitsOf isUnion members).Gives env scope units) :
    units.flatMap BitUnit.ids = members.filter (IsMember env.ast takesBits) ∧
      ∀ u ∈ units, u.IsPart env.ast isUnion members := by
  simp only [bitUnitsOf, gives_bind, gives_pure] at h
  obtain ⟨items, hitems, rfl⟩ := h
  have hfor := (gives_forEach.mp hitems).imp fun _ _ => isFor_of_item
  exact @placeBits_partition env scope isUnion members items none [] hfor (by simp)

/-- The slots follow each other without a gap from the first bit to the last. -/
def Tiles : Nat → List BitSlot → Nat → Prop
  | first, [], last => first = last
  | first, slot :: rest, last => slot.offset = first ∧ Tiles (first + slot.width) rest last

theorem tiles_concat {slots : List BitSlot} {slot : BitSlot} (h : Tiles first slots last)
    (hslot : slot.offset = last) : Tiles first (slots ++ [slot]) (last + slot.width) := by
  induction slots generalizing first with
  | nil =>
    obtain rfl : first = last := h
    exact ⟨hslot, rfl⟩
  | cons head rest ih => exact ⟨h.1, ih h.2⟩

theorem bitUnits_tiled (h : (bitUnitsOf isUnion members).Gives env scope units) :
    ∀ u ∈ units, Tiles 0 u.slots u.used := by
  simp only [bitUnitsOf, gives_bind, gives_pure] at h
  obtain ⟨items, -, rfl⟩ := h
  exact placeBits_forall (P := fun u => Tiles 0 u.slots u.used)
    (fun f _ => by simp [BitUnit.start, Tiles]) (fun u f _ hu _ => tiles_concat hu rfl) (by simp)

/-- **The storage fields of a record divide its bit fields.** Each is for a run of members, and its bit
fields lie side by side from its lowest bit on. -/
theorem storage_fields_divide_bit_fields (h : (bitUnitsOf isUnion members).Gives env scope units) :
    units.flatMap BitUnit.ids = members.filter (IsMember env.ast takesBits) ∧
      ∀ u ∈ units, u.IsPart env.ast isUnion members ∧ Tiles 0 u.slots u.used ∧ u.used ≤ u.bits ∧
        u.bits ≤ 64 ∧ (∀ v ∈ units, u.used + v.used < UInt32.size) ∧
        ∀ slot ∈ u.slots, ∃ f d field width, IsBitField env scope f ∧ f.field = slot.field ∧
          storageBits f.storage = u.bits ∧ env.ast.decl? slot.field = some d ∧ d.kind = .field field ∧
          field.bitWidth = some width ∧ 1 ≤ slot.width ∧ slot.width ≤ width.toNat ∧
          slot.offset + slot.width ≤ u.bits := by
  obtain ⟨hids, hparts⟩ := flatMap_ids_bitUnits h
  have hplaced := bitUnits_placed h
  have hbits : ∀ u ∈ units, u.used ≤ u.bits ∧ u.bits ≤ 64 := by
    intro u hu
    obtain ⟨-, t, ht, hbits⟩ := (hplaced u hu).storage
    exact ⟨(hplaced u hu).packed.used_le, hbits ▸ (bits_bounds_of_ofName ht).2⟩
  refine ⟨hids, fun u hu => ⟨hparts u hu, bitUnits_tiled h u hu, (hbits u hu).1, (hbits u hu).2, ?_, ?_⟩⟩
  · intro v hv
    have hu := hbits u hu
    have hv := hbits v hv
    have hsize : UInt32.size = 4294967296 := rfl
    omega
  · intro slot hslot
    obtain ⟨f, hf, hfield, hwidth, hsize, -⟩ := (hplaced u hu).fields slot hslot
    obtain ⟨d, field, width, hd, hkind, hdeclared, -, -, hmin⟩ := hf.declared
    obtain ⟨hpos, hend⟩ := (hplaced u hu).packed.slots slot hslot
    have hused := (hbits u hu).1
    refine ⟨f, d, field, width, hf, hfield, hf.bits ▸ hsize, hfield ▸ hd, hkind, hdeclared, hpos, ?_, ?_⟩
    · omega
    · omega

def registers : Env where
  ast :=
    { file := "registers.h"
      decls :=
        #[{ kind := .field { type := ⟨0⟩, bitWidth := some 3 }, name := "mode" },
          { kind := .field { type := ⟨0⟩, bitWidth := some 30 }, name := "level" },
          { kind := .field { type := ⟨0⟩, bitWidth := some 0 }, name := "" },
          { kind := .field { type := ⟨0⟩, bitWidth := some 40 }, name := "wide" }]
      types := #[.ofBuiltin .int] }
  settings := {}
  symbols := ⟨#["mode", "level", "", "wide"], [], [], [], [], [], []⟩

theorem registers_divided : ∃ units, (bitUnitsOf false [⟨0⟩, ⟨1⟩, ⟨2⟩, ⟨3⟩]).Gives registers {} units ∧
    units.map BitUnit.used = [3, 30, 32] ∧ units.flatMap BitUnit.ids = [⟨0⟩, ⟨1⟩, ⟨3⟩] := by
  have hunits : (bitUnitsOf false [⟨0⟩, ⟨1⟩, ⟨2⟩, ⟨3⟩]).Gives registers {} _ := gives_of_run (c := {}) rfl
  exact ⟨_, hunits, rfl, (storage_fields_divide_bit_fields hunits).1⟩

end Partition

/-! ## Names of storage fields -/

open Csharp (isWord isName isWordChar)

theorem storageName_head (position count : Nat) (base : Option String) :
    (storageName position count base).toList.head? = some '_' := by
  unfold storageName
  cases base with
  | some base => simp
  | none =>
    dsimp only
    split
    · simp
    · rfl

theorem storageName_ne_value (position count : Nat) (base : Option String) :
    storageName position count base ≠ "value" := by
  intro h
  have hhead := storageName_head position count base
  rw [h] at hhead
  exact absurd hhead (by decide)

theorem isWordChar_of_toDigits : ∀ c ∈ Nat.toDigits 10 n, isWordChar c = true := by
  intro c hc
  have hdigit := Nat.isDigit_of_mem_toDigits (by decide) (by decide) hc
  exact Csharp.isWordChar_of_isAlphanum (by simp [Char.isAlphanum, hdigit])

theorem isName_storageName (hbase : ∀ b ∈ base, isWord b.toList = true) :
    isName (storageName position count base) = true := by
  have hplain : isWord "_bitfield".toList = true := by decide
  have hword : isWord
      (if 1 < count then "_bitfield" ++ (position + 1).repr else "_bitfield").toList = true := by
    split
    · rw [String.toList_append, Nat.toList_repr]
      exact Csharp.isWord_append hplain isWordChar_of_toDigits
    · exact hplain
  apply Csharp.isName_of_isWord
  · unfold storageName
    cases base with
    | none => exact hword
    | some b =>
      -- A name of a base stands between two underscores.
      have hb := hbase b rfl
      obtain ⟨_, _, -, -, hchars⟩ := Csharp.isWord_cons hb
      obtain ⟨_, _, -, -, hchars'⟩ := Csharp.isWord_cons hword
      have hlead : isWord "_".toList = true := by decide
      simp only [String.toList_append]
      exact Csharp.isWord_append (Csharp.isWord_append hlead hchars) hchars'
  · have hall : ∀ keyword ∈ Managed.keywords, keyword.toList.head? ≠ some '_' := by decide
    rw [Bool.eq_false_iff]
    intro hmem
    exact hall _ (List.contains_iff_mem.mp hmem) (storageName_head position count base)

theorem storageName_injective (hi : i < count) (hj : j < count)
    (h : storageName i count base = storageName j count base) : i = j := by
  unfold storageName at h
  by_cases hcount : 1 < count
  · simp only [if_pos hcount] at h
    have hdigits : Nat.toDigits 10 (i + 1) = Nat.toDigits 10 (j + 1) := by
      have hlist := congrArg String.toList h
      cases base <;> simpa [String.toList_append, Nat.toList_repr] using hlist
    -- Digits are read back as the number they were written for.
    have hread := magnitude_toDigits (i + 1)
    rw [hdigits, magnitude_toDigits] at hread
    have hnext : j + 1 = i + 1 := Option.some.inj hread
    omega
  · omega

def storageLead : Option String → List Char
  | some b => '_' :: b.toList
  | none => []

theorem exists_digits_storageName (i count : Nat) (base : Option String) :
    ∃ digits : List Char,
    (∀ c ∈ digits, c.isDigit = true) ∧
      (storageName i count base).toList = storageLead base ++ "_bitfield".toList ++ digits := by
  refine ⟨if 1 < count then Nat.toDigits 10 (i + 1) else [], ?_, ?_⟩
  · intro c hc
    split at hc
    · exact Nat.isDigit_of_mem_toDigits (by decide) (by decide) hc
    · cases hc
  · unfold storageName
    cases base <;> split <;> simp [storageLead, String.toList_append, Nat.toList_repr]

theorem base_of_storageName_eq (h : storageName i count base = storageName j count' base') :
    base = base' := by
  -- Without its last digits, the name ends in the fixed word.
  have hstrip : ∀ (l digits : List Char), (∀ c ∈ digits, c.isDigit = true) →
      (l ++ "_bitfield".toList ++ digits).reverse.dropWhile Char.isDigit =
        "_bitfield".toList.reverse ++ l.reverse := by
    intro l digits hdigits
    rw [List.reverse_append, List.dropWhile_append_of_pos (by simpa using hdigits),
      List.reverse_append]
    exact List.dropWhile_cons_of_neg (by decide)
  obtain ⟨digits, hdigits, hname⟩ := exists_digits_storageName i count base
  obtain ⟨digits', hdigits', hname'⟩ := exists_digits_storageName j count' base'
  have hlead : storageLead base = storageLead base' := by
    have hdrop := hstrip (storageLead base) digits hdigits
    rw [← hname, h, hname', hstrip _ _ hdigits'] at hdrop
    exact (List.reverse_inj.mp (List.append_cancel_left hdrop)).symm
  cases base with
  | none =>
    cases base' with
    | none => rfl
    | some b => cases hlead
  | some b =>
    cases base' with
    | none => cases hlead
    | some b' => exact congrArg some (String.toList_inj.mp (List.cons.inj hlead).2)

end Interop.Binding
