import Interop.Proofs.RecordLayout

/-!
# Members of structs

Which member of a struct is emitted for a field of a record: a field, or a property if it is a bit field.
A struct with a vtable also has the fields of all bases (`Provides`); without one it has a field `Base` in
their place.
-/

namespace Interop.Binding

open Native (DeclId TypeId)
open Emit
open Managed (Member TypeName)
open Vtable (FirstBase firstBase_unique)

variable {env : Env} {scope : Scope}
variable {id record struct : DeclId} {isUnion isInherited : Bool} {items : RecordItems} {d : Native.Decl}
  {nested : DeclId → Emit Member} {f : Native.Field} {member : AnonymousMember} {m : Member}
  {settings : Settings}

/-! ## Lookup -/

def valueName? : Member → Option String
  | .field _ _ _ name _ => some name
  | .property _ _ name _ _ => some name
  | .accessor _ _ _ name _ => some name
  | _ => none

def lookup? (members : List Member) (name : String) : Option Member :=
  members.find? fun m => valueName? m = some name

/-- No two values of the struct have the same name. -/
def HasDistinctNames (members : List Member) : Prop :=
  (members.filterMap valueName?).Nodup

instance (members : List Member) : Decidable (HasDistinctNames members) :=
  inferInstanceAs (Decidable (List.Nodup _))

theorem lookup_eq_of_mem (h : HasDistinctNames members) (hm : m ∈ members)
    (hname : valueName? m = some name) : lookup? members name = some m := by
  unfold HasDistinctNames at h
  unfold lookup?
  induction members with
  | nil => cases hm
  | cons first rest ih =>
    rcases List.mem_cons.mp hm with rfl | hrest
    · simp [hname]
    · have hne : valueName? first ≠ some name := by
        intro hfirst
        rw [List.filterMap_cons_some hfirst, List.nodup_cons] at h
        exact h.1 (List.mem_filterMap.mpr ⟨m, hrest, hname⟩)
      rw [List.find?_cons_of_neg (by simpa using hne)]
      refine ih ?_ hrest
      exact h.sublist ((List.sublist_cons_self first rest).filterMap _)

/-! ## Bit fields -/

theorem exists_unit_of_bitField {members : List DeclId}
    (h : (bitUnitsOf isUnion members).Gives env scope units) (hmembers : members.Nodup) (hid : id ∈ members)
    (hd : env.ast.decl? id = some d) (hkind : d.kind = .field f) (hwidth : f.bitWidth = some width)
    (hne : width ≠ 0) :
    ∃ u position, units.zipIdx.find? (fun (u', _) => u'.first = u.first) = some (u, position) ∧
      u.first ∈ members ∧ u.first ∈ u.ids ∧ u.Placed env scope ∧ ∃ slot ∈ u.slots, slot.field = id := by
  have hplaced := bitUnits_placed h
  obtain ⟨hids, -⟩ := flatMap_ids_bitUnits h
  simp only [bitUnitsOf, gives_bind, gives_pure] at h
  obtain ⟨items, -, rfl⟩ := h
  have hfirst : ∀ u ∈ placeBits isUnion none items, u.first ∈ u.ids := by
    refine placeBits_forall (fun f _ => ?_) (fun u f _ hu _ => ?_) (by simp)
    · exact .head _
    · simp only [BitUnit.ids, BitUnit.add, List.map_append, List.mem_append]
      exact .inl hu
  -- The bit fields of the storage fields are some members of the record, each at most once.
  have hnodup : ((placeBits isUnion none items).flatMap BitUnit.ids).Nodup := by
    rw [hids]
    exact hmembers.filter _
  obtain ⟨u, hu, hslot⟩ : ∃ u ∈ placeBits isUnion none items, id ∈ u.ids := by
    rw [← List.mem_flatMap, hids]
    exact List.mem_filter.mpr ⟨hid, by simp [IsMember, hd, hkind, takesBits, hwidth, hne]⟩
  obtain ⟨i, hi⟩ := List.getElem?_of_mem hu
  have hsome : ((placeBits isUnion none items).zipIdx.find? (fun (u', _) => u'.first = u.first)).isSome := by
    rw [List.find?_isSome]
    exact ⟨(u, i), List.mk_mem_zipIdx_iff_getElem?.mpr hi, by simp⟩
  obtain ⟨⟨u', position⟩, hfind⟩ := Option.isSome_iff_exists.mp hsome
  have heq : u'.first = u.first := by simpa using List.find?_some hfind
  have hu' : u' ∈ placeBits isUnion none items :=
    List.fst_mem_of_mem_zipIdx (List.mem_of_find?_eq_some hfind)
  obtain rfl : u' = u := by
    by_contra hne
    have hsymm : Std.Symm (Function.onFun List.Disjoint BitUnit.ids) :=
      ⟨fun _ _ (h : List.Disjoint _ _) => h.symm⟩
    have hdisjoint := (List.nodup_flatMap.mp hnodup).2.forall hu' hu hne
    exact hdisjoint (hfirst u' hu') (heq ▸ hfirst u hu)
  refine ⟨u', position, hfind, ?_, hfirst u' hu, hplaced u' hu, List.mem_map.mp hslot⟩
  exact List.mem_of_mem_filter (hids ▸ List.mem_flatMap.mpr ⟨u', hu, hfirst u' hu⟩)

/-! ## Emitted fields -/

structure IsFieldIn (env : Env) (record id : DeclId) : Prop where
  listed : ∃ d r, env.ast.decl? record = some d ∧ d.kind = .record r ∧ r.members.Nodup ∧ id ∈ r.members
  declared : ∃ d f, env.ast.decl? id = some d ∧ d.kind = .field f ∧ f.bitWidth ≠ some 0

inductive IsEmittedFor (env : Env) (struct id : DeclId) : Member → Prop
  | field {scope : Scope} {d : Native.Decl} {f : Native.Field} {isUnion : Bool} {items : RecordItems}
      {m : Member} (hstruct : scope.record = some struct) (hd : env.ast.decl? id = some d)
      (hkind : d.kind = .field f) (hwidth : f.bitWidth = none)
      (hitems : (emitField id d f isUnion).Gives env scope items) (hm : m ∈ items.fields) :
      IsEmittedFor env struct id m
  | property {scope : Scope} {place : String} {u : BitUnit} {slot : BitSlot} {m : Member}
      (hstruct : scope.record = some struct) (hplaced : u.Placed env scope) (hslot : slot ∈ u.slots)
      (hfield : slot.field = id) (hm : (bitProperty place u slot).Gives env scope m) :
      IsEmittedFor env struct id m

theorem emitField_single (h : (emitField id d f isUnion).Gives env scope items) :
    ∃ m, items.fields = [m] ∧ valueName? m = some (env.symbols.name id) ∧ isDataField m = true := by
  obtain ⟨offset, -, ⟨element, size, -, harray⟩ | ⟨mapped, attrs, -, -, rfl⟩⟩ := emitField_cases h
  · simp only [arrayField, gives_bind, gives_nameOf] at harray
    obtain ⟨element, -, spelled, -, obsolete, -, name, rfl, harray⟩ := harray
    split at harray
    · simp only [gives_bind, gives_pure] at harray
      obtain ⟨_, -, rfl⟩ := harray
      exact ⟨_, rfl, rfl, rfl⟩
    · simp only [gives_bind, gives_pure] at harray
      obtain ⟨_, -, rfl⟩ := harray
      exact ⟨_, rfl, rfl, rfl⟩
  · exact ⟨_, rfl, rfl, rfl⟩

theorem IsEmittedFor.valueName_eq (h : IsEmittedFor env struct id m) :
    valueName? m = some (env.symbols.name id) := by
  cases h with
  | field hstruct hd hkind hwidth hitems hm =>
    obtain ⟨single, hfields, hname, -⟩ := emitField_single hitems
    rw [hfields, List.mem_singleton] at hm
    rw [hm, hname]
  | property hstruct hplaced hslot hfield hm =>
    simp only [bitProperty, gives_bind, gives_decl] at hm
    obtain ⟨d, -, hm⟩ := hm
    split at hm
    · simp only [gives_bind, gives_pure, gives_nameOf] at hm
      obtain ⟨mapped, -, obsolete, -, name, rfl, rfl⟩ := hm
      rw [← hfield]
      rfl
    · simp at hm

theorem part_of_collect {α : Type} {f : α → Emit RecordItems} {as : List α}
    (h : (collect f as).Gives env scope items) {a : α} (ha : a ∈ as) :
    ∃ part, (f a).Gives env scope part ∧ part.members ⊆ items.members := by
  induction as generalizing items with
  | nil => cases ha
  | cons first rest ih =>
    simp only [collect, gives_bind, gives_pure] at h
    obtain ⟨part, hpart, others, hothers, rfl⟩ := h
    have hsub := RecordItems.members_append_subset.mp (List.Subset.refl (part ++ others).members)
    rcases List.mem_cons.mp ha with rfl | hrest
    · exact ⟨part, hpart, hsub.1⟩
    · obtain ⟨part', hpart', hsub'⟩ := ih hothers hrest
      exact ⟨part', hpart', fun _ hm => hsub.2 (hsub' hm)⟩

theorem property_of_emitMember {u : BitUnit}
    (h : (emitMember nested record isUnion isInherited units u.first).Gives env scope part)
    (hplaced : u.Placed env scope) (hids : u.first ∈ u.ids)
    (hfind : units.zipIdx.find? (fun (u', _) => u'.first = u.first) = some (u, position))
    (hslot : slot ∈ u.slots) :
    ∃ place, ∃ m ∈ part.accessors, (bitProperty place u slot).Gives env scope m := by
  obtain ⟨lowest, hlowest, hfirst⟩ := List.mem_map.mp hids
  obtain ⟨f, hf, hfield, -⟩ := hplaced.fields lowest hlowest
  obtain ⟨d, ⟨type, bitWidth, offset⟩, width, hd, hkind, hwidth, -⟩ := hf.declared
  obtain rfl : bitWidth = some width := hwidth
  rw [hfield, hfirst] at hd
  obtain ⟨base, hunit⟩ : ∃ base, (emitBitUnit u.first units isUnion base).Gives env scope part := by
    simp only [emitMember, gives_bind, gives_decl] at h
    obtain ⟨d', hd', h⟩ := h
    obtain rfl := Option.mem_unique hd' hd
    simp only [hkind] at h
    cases isInherited with
    | true =>
      simp only [if_true, gives_bind, gives_pure, exists_eq_left'] at h
      obtain ⟨name, -, h⟩ := h
      exact ⟨some name, h⟩
    | false =>
      simp only [Bool.false_eq_true, if_false, gives_bind, gives_pure, exists_eq_left'] at h
      exact ⟨none, h⟩
  simp only [emitBitUnit, hfind, gives_bind, gives_pure] at hunit
  obtain ⟨properties, hproperties, rfl⟩ := hunit
  exact ⟨_, hproperties.exists_result_of_mem hslot⟩

theorem emitMembers_cases (h : (emitMembers nested record isUnion isInherited).Gives env scope items)
    (hd : env.ast.decl? record = some d) (hkind : d.kind = .record r) :
    ∃ units, (bitUnitsOf isUnion r.members).Gives env scope units ∧
      (collect (emitMember nested record isUnion isInherited units) r.members).Gives env scope items := by
  simp only [emitMembers, gives_bind, gives_ast, exists_eq_left, gives_lift_option] at h
  obtain ⟨members, hmembers, units, hunits, h⟩ := h
  simp only [Native.Ast.recordMembers?, hd, hkind, bind, Option.bind_some, pure,
    Option.some.injEq] at hmembers
  subst hmembers
  exact ⟨units, hunits, h⟩

theorem exists_emitted_of_field (h : (emitMembers nested record isUnion isInherited).Gives env scope items)
    (hstruct : scope.record = some struct) (hid : IsFieldIn env record id) :
    ∃ m ∈ items.members, IsEmittedFor env struct id m := by
  obtain ⟨⟨rd, r, hrd, hrkind, hnodup, hmem⟩, d, ⟨type, bitWidth, offset⟩, hd, hkind, hne⟩ := hid
  obtain ⟨units, hunits, h⟩ := emitMembers_cases h hrd hrkind
  cases bitWidth with
  | none =>
    obtain ⟨part, hpart, hsub⟩ := part_of_collect h hmem
    simp only [emitMember, gives_bind, gives_decl] at hpart
    obtain ⟨d', hd', hpart⟩ := hpart
    obtain rfl := Option.mem_unique hd' hd
    simp only [hkind] at hpart
    obtain ⟨m, hfields, -⟩ := emitField_single hpart
    have hm : m ∈ part.fields := hfields ▸ List.mem_singleton.mpr rfl
    refine ⟨m, hsub (RecordItems.mem_members.mpr (.inl hm)), ?_⟩
    exact .field hstruct hd hkind rfl hpart hm
  | some width =>
    have hwidth : width ≠ 0 := fun hzero => hne (congrArg some hzero)
    obtain ⟨u, position, hfind, hfirst, hids, hplaced, slot, hslot, rfl⟩ :=
      exists_unit_of_bitField hunits hnodup hmem hd hkind rfl hwidth
    -- The property stands where the first bit field of the storage field does.
    obtain ⟨part, hpart, hsub⟩ := part_of_collect h hfirst
    obtain ⟨place, m, hm, hproperty⟩ := property_of_emitMember hpart hplaced hids hfind hslot
    refine ⟨m, hsub (RecordItems.mem_members.mpr (.inr (.inr (.inl hm)))), ?_⟩
    exact .property hstruct hplaced hslot rfl hproperty

theorem exists_field_of_anonymous (hs : env.symbols.Describes env.ast settings)
    (h : (emitMembers nested member.enclosing isUnion isInherited).Gives env scope items)
    (hid : env.symbols.anonymous? id = some member) :
    ∃ attrs type, .field attrs .plain (.named type) member.field none ∈ items.members ∧
      qualifiedName? env.ast env.symbols id scope.record = some type := by
  obtain ⟨⟨rd, r, hrd, hrkind, hmem⟩, d, inner, hd, hkind, hanonymous⟩ := hs.anonymous_mem hid
  obtain ⟨units, hunits, h⟩ := emitMembers_cases h hrd hrkind
  obtain ⟨part, hpart, hsub⟩ := part_of_collect h hmem
  obtain ⟨tag, isDefinition, isAnonymous, bases, others⟩ := inner
  obtain rfl : isAnonymous = true := hanonymous
  simp only [emitMember, gives_bind, gives_decl] at hpart
  obtain ⟨d', hd', hpart⟩ := hpart
  obtain rfl := Option.mem_unique hd' hd
  simp only [hkind] at hpart
  obtain ⟨member', type, types, accessors, hmember', htype, -, -, rfl⟩ := emitAnonymous_cases hpart
  obtain rfl := Option.mem_unique hid hmember'
  exact ⟨_, type, hsub (RecordItems.mem_members.mpr (.inl (.head _))), htype⟩

/-! ## Structs with the members of a record -/

def IsLegalStruct (env : Env) (struct : DeclId) (members : List Member) : Prop :=
  IsStructOf env struct members ∧ HasDistinctNames members

def Provides (env : Env) (struct record : DeclId) : Prop :=
  ∃ members items, IsLegalStruct env struct members ∧ ItemsOf env record struct members items

theorem Provides.field (h : Provides env struct record) (hid : IsFieldIn env record id) :
    ∃ members m, IsLegalStruct env struct members ∧ lookup? members (env.symbols.name id) = some m ∧
      IsEmittedFor env struct id m := by
  obtain ⟨members, items, hlegal, ⟨nested, isUnion, isInherited, scope, -, hstruct, hitems⟩, hsub⟩ := h
  obtain ⟨m, hm, hemitted⟩ := exists_emitted_of_field hitems hstruct hid
  exact ⟨members, m, hlegal, lookup_eq_of_mem hlegal.2 (hsub hm) hemitted.valueName_eq, hemitted⟩

theorem Provides.anonymous (hs : env.symbols.Describes env.ast settings)
    (h : Provides env struct member.enclosing) (hid : env.symbols.anonymous? id = some member) :
    ∃ members attrs type, IsLegalStruct env struct members ∧
      lookup? members member.field = some (.field attrs .plain (.named type) member.field none) ∧
      qualifiedName? env.ast env.symbols id (some struct) = some type := by
  obtain ⟨members, items, hlegal, ⟨nested, isUnion, isInherited, scope, -, hstruct, hitems⟩, hsub⟩ := h
  obtain ⟨attrs, type, hm, htype⟩ := exists_field_of_anonymous hs hitems hid
  rw [hstruct] at htype
  exact ⟨members, attrs, type, hlegal, lookup_eq_of_mem hlegal.2 (hsub hm) rfl, htype⟩

section

variable {settings : Settings} (hs : env.symbols.Describes env.ast settings)
  (htypedefs : PlainTypedefs env.ast)
include hs htypedefs

theorem provides_self (h : IsLegalStruct env record members) : Provides env record record := by
  obtain ⟨own, -, hown⟩ := h.1.shape hs htypedefs
  exact ⟨members, own, h, hown⟩

omit htypedefs in
theorem InheritedItems.itemsOf (h : InheritedItems env record struct members items)
    (hbase : Relation.TransGen (FirstBase env.ast env.symbols.definition) record base)
    (hstructs : ∀ between,
      Relation.TransGen (FirstBase env.ast env.symbols.definition) record between → ∃ members,
      IsStructOf env between members) : ∃ items, ItemsOf env base struct members items := by
  -- The first base is flattened, and so are its own bases in front of it.
  have hstep : ∀ {record first items}, InheritedItems env record struct members items →
      FirstBase env.ast env.symbols.definition record first →
      (∃ members, IsStructOf env first members) →
      ∃ inherited own, InheritedItems env first struct members inherited ∧
        ItemsOf env first struct members own := by
    rintro record first items h hfirst ⟨members', hstruct⟩
    cases h with
    | root hroot => exact absurd hfirst (hroot first)
    | derived hbase hflat =>
      obtain rfl := firstBase_unique hfirst hbase
      obtain ⟨inherited, own, hinherited, hown, -⟩ := hflat.cases hs hstruct.1 hstruct.noFault
      exact ⟨inherited, own, hinherited, hown⟩
  induction hbase using Relation.TransGen.head_induction_on generalizing items with
  | single hfirst =>
    obtain ⟨-, own, -, hown⟩ := hstep h hfirst (hstructs _ (.single hfirst))
    exact ⟨own, hown⟩
  | head hfirst hrest ih =>
    obtain ⟨inherited, -, hinherited, -⟩ := hstep h hfirst (hstructs _ (.single hfirst))
    exact ih hinherited fun between hbetween => hstructs between (.head hfirst hbetween)

theorem provides_of_polymorphic (h : IsLegalStruct env record members)
    (hpolymorphic : env.symbols.isPolymorphic record = true)
    (hbase : Relation.ReflTransGen (FirstBase env.ast env.symbols.definition) record base)
    (hstructs : ∀ between,
      Relation.TransGen (FirstBase env.ast env.symbols.definition) record between → ∃ members,
      IsStructOf env between members) : Provides env record base := by
  rcases Relation.reflTransGen_iff_eq_or_transGen.mp hbase with rfl | hbase
  · exact provides_self hs htypedefs h
  · obtain ⟨own, hshape, -⟩ := h.1.shape hs htypedefs
    cases hshape with
    | polymorphic _ hinherited _ =>
      obtain ⟨items, hitems⟩ := hinherited.itemsOf hs hbase hstructs
      exact ⟨members, items, h, hitems⟩
    | root hplain => simp [hpolymorphic] at hplain
    | derived hplain => simp [hpolymorphic] at hplain

end

end Interop.Binding
