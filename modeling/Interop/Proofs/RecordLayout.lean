import Interop.Proofs.RecordFields
import Interop.Proofs.VtableSlots

/-!
# Layouts of records and their bases

The struct of a record without a vtable starts with a field for its base, that of a record with a vtable
with the pointer to it and the data of all its bases. `Sequence` lists the data of an object in order,
whichever way the structs are written. The sequence of a record starts with that of its base, unless the
record is the first of its chain with a vtable.
-/

namespace Interop.Binding

open Native (DeclId TypeId)
open Emit
open Managed (Member TypeName)
open Vtable (FirstBase firstBase_unique layoutOf)
open Symbols (IsRecordDefinition)

variable {env : Env} {scope : Scope}
variable {record base : DeclId} {members : List Member} {items inherited : RecordItems}

/-! ## Structs -/

def Scope.inside (scope : Scope) (record : DeclId) : Scope :=
  { scope with record := some record }

theorem recordRule_cases {id : DeclId} (h : (recordRule nested id).Gives env scope m) :
    ∃ d r, env.ast.decl? id = some d ∧ d.kind = .record r ∧
      ((r.isDefinition = false ∧ ∃ name, m = .record [] false name []) ∨
        r.isDefinition = true ∧ (∀ u, env.symbols.vtable? id ≠ some (.error u)) ∧
          ∃ attrs usesPointers name inherited own,
            (emitBases nested id d r).Gives env (scope.inside id) inherited ∧
            (emitMembers nested id (decide (r.tag = .union)) false).Gives env (scope.inside id) own ∧
            m = .record attrs usesPointers name (inherited ++ own).members) := by
  simp only [recordRule, gives_bind, gives_decl] at h
  obtain ⟨d, hd, h⟩ := h
  split at h
  · rename_i r hkind
    refine ⟨d, r, hd, hkind, ?_⟩
    cases hdef : r.isDefinition with
    | false =>
      simp only [hdef, Bool.not_false, if_true, gives_bind, gives_pure] at h
      obtain ⟨name, -, rfl⟩ := h
      exact .inl ⟨rfl, name, rfl⟩
    | true =>
      right
      simp only [hdef, Bool.not_true, Bool.false_eq_true, if_false, gives_bind, gives_symbols,
        exists_eq_left] at h
      split at h
      · simp at h
      rename_i hnoFault
      simp only [gives_bind, gives_within, gives_pure] at h
      obtain ⟨⟨items, usesPointers⟩, hitems, layout, -, bases, -, obsolete, -, name, -, rfl⟩ := h
      have hitems := hitems.of_contained
      simp only [gives_bind, gives_pure] at hitems
      obtain ⟨inherited, hinherited, own, hown, rfl⟩ := hitems
      exact ⟨rfl, fun u hu => hnoFault u hu, _, usesPointers, name, inherited, own, hinherited, hown, rfl⟩
  · simp at h

theorem recordTo_emitsTypes (env : Env) (depth : Nat) : EmitsTypes env (recordTo depth) := by
  intro id scope m h
  cases depth with
  | zero => simp [recordTo] at h
  | succ depth =>
    obtain ⟨d, r, -, -, ⟨-, name, rfl⟩ | ⟨-, -, attrs, usesPointers, name, inherited, own, -, -, rfl⟩⟩ :=
      recordRule_cases h
    · rfl
    · rfl

def vtableField : Member :=
  .field [] .plain (.pointer (.pointer (.named "void"))) "lpVtbl" none

theorem emitBases_cases (h : (emitBases nested record d r).Gives env scope inherited) :
    (env.symbols.isPolymorphic record = true ∧ ∃ records flat methods,
        (baseRecords r.bases).Gives env scope records ∧
        (collect (flattenFrom nested (env.ast.decls.size + 1)) records).Gives env scope flat ∧
        (emitTrampolines record).Gives env scope methods ∧
        inherited = { fields := [vtableField] } ++ flat ++ { methods := methods }) ∨
      (env.symbols.isPolymorphic record = false ∧
        ((r.bases = [] ∧ inherited = {}) ∨ ∃ base rest mapped, r.bases = base :: rest ∧
          (mapType base.type .field d.location).Gives env scope mapped ∧
          inherited = { fields := [.field (startOffset (r.tag = .union)) .plain mapped.type "Base" none] })) := by
  simp only [emitBases, gives_bind, gives_symbols, exists_eq_left] at h
  split at h
  · rename_i hpolymorphic
    simp only [gives_bind, gives_markPointers, gives_ast, gives_pure, true_and, exists_const,
      exists_eq_left] at h
    obtain ⟨records, hrecords, flat, hflat, methods, hmethods, rfl⟩ := h
    exact .inl ⟨hpolymorphic, records, flat, methods, hrecords, hflat, hmethods, rfl⟩
  · rename_i hpolymorphic
    refine .inr ⟨by simpa using hpolymorphic, ?_⟩
    split at h
    · rename_i hbases
      rw [gives_pure] at h
      exact .inl ⟨hbases, h.symm⟩
    · rename_i base rest hbases
      simp only [gives_bind, gives_pure] at h
      obtain ⟨mapped, hmapped, rfl⟩ := h
      exact .inr ⟨base, rest, mapped, hbases, hmapped, rfl⟩

theorem emitTrampolines_not_data :
    (emitTrampolines record).Ensures env imports fun ms => ∀ m ∈ ms, isDataField m = false := by
  refine .skip fun symbols => ?_
  split
  · refine (Ensures.forEach fun slot _ => emitTrampoline_not_data.skippableMember).bind
      fun results hresults => .pure fun m hm => ?_
    obtain ⟨result, hresult, rfl⟩ := List.mem_filterMap.mp hm
    exact hresults _ hresult m rfl
  · exact .pure (List.forall_mem_nil _)

theorem emitBases_sorted (hnested : EmitsTypes env nested) :
    (emitBases nested record d r).Ensures env imports RecordItems.Sorted := by
  refine .skip fun symbols => .ite (.skip fun _ => .skip fun ast => .skip fun records => ?_) ?_
  · refine (collect_sorted fun _ => flattenFrom_sorted hnested).bind fun flat hflat => ?_
    refine emitTrampolines_not_data.bind fun methods hmethods => .pure ?_
    refine (RecordItems.Sorted.append (.of_nil rfl) hflat).append fun m hm => hmethods m ?_
    simpa [RecordItems.others] using hm
  · split
    · exact .pure (.of_nil rfl)
    · exact .skip fun mapped => .pure (.of_nil rfl)

/-- The members of the struct that a record definition is emitted as. -/
def IsStructOf (env : Env) (record : DeclId) (members : List Member) : Prop :=
  IsRecordDefinition env.ast record ∧ ∃ depth scope attrs usesPointers name,
    (recordTo depth record).Gives env scope (.record attrs usesPointers name members)

theorem isStructOf_of_emitRecord (hrecord : IsRecordDefinition env.ast record)
    (h : (emitRecord record).Gives env scope (.record attrs usesPointers name members)) :
    IsStructOf env record members := by
  simp only [emitRecord, gives_bind, gives_ast, exists_eq_left] at h
  exact ⟨hrecord, _, scope, attrs, usesPointers, name, h⟩

theorem IsStructOf.cases (h : IsStructOf env record members) :
    ∃ d r depth scope inherited own, env.ast.decl? record = some d ∧ d.kind = .record r ∧
      (∀ u, env.symbols.vtable? record ≠ some (.error u)) ∧
      (emitBases (recordTo depth) record d r).Gives env (Scope.inside scope record) inherited ∧
      (emitMembers (recordTo depth) record (decide (r.tag = .union)) false).Gives env
        (Scope.inside scope record) own ∧
      members = (inherited ++ own).members ∧
      members.filter isDataField = inherited.data ++ own.data := by
  obtain ⟨⟨d, r, hd, hkind, hdef⟩, depth, scope, attrs, usesPointers, name, h⟩ := h
  cases depth with
  | zero => simp [recordTo] at h
  | succ depth =>
    obtain ⟨d', r', hd', hkind', hcases⟩ := recordRule_cases h
    obtain ⟨rfl, rfl⟩ := record_unique hd' hkind' hd hkind
    rcases hcases with ⟨hforward, -⟩ | ⟨-, hnoFault, attrs', usesPointers', name', inherited, own,
      hinherited, hown, heq⟩
    · rw [hdef] at hforward
      cases hforward
    · have hmembers : members = (inherited ++ own).members := (Member.record.inj heq).2.2.2
      refine ⟨d', r', depth, scope, inherited, own, hd, hkind, hnoFault, hinherited, hown, hmembers, ?_⟩
      have htypes := recordTo_emitsTypes env depth
      have hsorted := (hinherited.of_ensures fun _ => emitBases_sorted htypes).append
        (hown.of_ensures fun _ => emitMembers_sorted htypes)
      rw [hmembers, hsorted.filter_members, RecordItems.data_append]

/-! ## Inheritance -/

theorem isPolymorphic_of_layoutOf (h : layoutOf s record = .ok layout) :
    s.isPolymorphic record = !layout.isEmpty := by
  unfold layoutOf at h
  unfold Symbols.isPolymorphic
  cases hvtable : s.vtable? record with
  | none =>
    rw [hvtable] at h
    obtain rfl := Except.ok.inj h
    rfl
  | some result =>
    rw [hvtable] at h
    obtain rfl : result = .ok layout := h
    cases layout <;> rfl

/-- **The bases of a record that is emitted**: at most one, with no vtable if the record has none. -/
theorem bases_of_noFault (hs : env.symbols.Describes env.ast settings) (hd : env.ast.decl? record = some d)
    (hkind : d.kind = .record r) (hdef : r.isDefinition = true)
    (hnoFault : ∀ u, env.symbols.vtable? record ≠ some (.error u)) :
    r.bases = [] ∨ ∃ base id, r.bases = [base] ∧ env.ast.recordOf? base.type = some (some id) ∧
      (env.symbols.isPolymorphic record = false →
        env.symbols.isPolymorphic (env.symbols.definition id) = false) := by
  have hrecord : IsRecordDefinition env.ast record := ⟨d, r, hd, hkind, hdef⟩
  obtain ⟨known, hsound, htable, hall⟩ := Vtable.sound_of_vtables hs.vtables
  obtain ⟨result, hresult⟩ := hall record hrecord
  have hlayout := Vtable.layoutOf_eq_of_lookup hsound htable hresult
  rw [hs.definition_of_isRecordDefinition hrecord] at hresult
  obtain ⟨layout, rfl⟩ : ∃ layout, result = .ok layout := by
    cases result with
    | ok layout => exact ⟨layout, rfl⟩
    | error u =>
      exfalso
      unfold layoutOf at hlayout
      cases hvtable : env.symbols.vtable? record with
      | none =>
        rw [hvtable] at hlayout
        cases hlayout
      | some entry =>
        rw [hvtable] at hlayout
        exact hnoFault u (hvtable.trans (congrArg some hlayout))
  cases hsound.laidOut record layout hresult with
  | root hd' hkind' hbases _ =>
    obtain ⟨rfl, rfl⟩ := record_unique hd hkind hd' hkind'
    exact .inl hbases
  | derived hd' hkind' hbases hid hinherited hplaced =>
    rename_i base id inherited
    obtain ⟨rfl, rfl⟩ := record_unique hd hkind hd' hkind'
    refine .inr ⟨base, id, hbases, hid, fun hplain => ?_⟩
    -- The layout of the base is not longer than that of the record.
    rw [isPolymorphic_of_layoutOf hlayout] at hplain
    have hle := (Vtable.placeMembers_refines hplaced).length_le
    have hbase : layoutOf env.symbols (env.symbols.definition id) = .ok inherited := by
      apply Vtable.layoutOf_eq_of_lookup hsound htable
      rw [hs.definition_definition]
      exact hinherited
    rw [isPolymorphic_of_layoutOf hbase]
    cases layout with
    | nil =>
      cases inherited with
      | nil => rfl
      | cons slot rest => simp at hle
    | cons slot rest => cases hplain
  | noRecord hd' hnone =>
    obtain rfl := Option.mem_unique hd hd'
    exact absurd hkind (hnone r)

def PlainBases (env : Env) : Prop :=
  ∀ record base d r, FirstBase env.ast env.symbols.definition record base →
    env.ast.decl? base = some d → d.kind = .record r → r.tag ≠ .union

/-! ## What a struct takes over -/

def IsNoUnion (env : Env) (record : DeclId) : Prop :=
  ∀ d r, env.ast.decl? record = some d → d.kind = .record r → r.tag ≠ .union

/-- The items of a record, its bases left out, inside of the struct of another. -/
structure ItemsOf (env : Env) (record struct : DeclId) (members : List Member) (items : RecordItems) :
    Prop where
  emitted : ∃ nested isUnion isInherited scope, (IsNoUnion env record → isUnion = false) ∧
    scope.record = some struct ∧ (emitMembers nested record isUnion isInherited).Gives env scope items
  subset : items.members ⊆ members

/-- The items of a record and of all its bases, inside of the struct of another. -/
structure FlatItemsOf (env : Env) (record struct : DeclId) (members : List Member) (items : RecordItems) :
    Prop where
  emitted : ∃ nested fuel id scope, scope.record = some struct ∧ env.symbols.definition id = record ∧
    (flattenFrom nested fuel id).Gives env scope items
  subset : items.members ⊆ members

inductive InheritedItems (env : Env) (record struct : DeclId) (members : List Member) :
    RecordItems → Prop
  | root (hbase : ∀ base, ¬ FirstBase env.ast env.symbols.definition record base) :
      InheritedItems env record struct members {}
  | derived {base : DeclId} {items : RecordItems}
      (hbase : FirstBase env.ast env.symbols.definition record base)
      (hitems : FlatItemsOf env base struct members items) :
      InheritedItems env record struct members items

theorem firstBase_iff (hd : env.ast.decl? record = some d) (hkind : d.kind = .record r) :
    FirstBase env.ast env.symbols.definition record base ↔ ∃ b rest id, r.bases = b :: rest ∧
      env.ast.recordOf? b.type = some (some id) ∧ base = env.symbols.definition id := by
  constructor
  · rintro ⟨d', r', b, rest, id, hd', hkind', h⟩
    obtain ⟨rfl, rfl⟩ := record_unique hd' hkind' hd hkind
    exact ⟨b, rest, id, h⟩
  · rintro ⟨b, rest, id, h⟩
    exact ⟨d, r, b, rest, id, hd, hkind, h⟩

theorem RecordItems.append_empty (items : RecordItems) : items ++ {} = items := by
  cases items
  show RecordItems.append _ _ = _
  simp [RecordItems.append]

namespace RecordItems

variable {items a b : RecordItems} {members : List Member}

theorem mem_members :
    m ∈ items.members ↔ m ∈ items.fields ∨ m ∈ items.nested ∨ m ∈ items.accessors ∨
    m ∈ items.methods ∨ m ∈ items.named := by
  simp [RecordItems.members]

theorem mem_members_append : m ∈ (a ++ b).members ↔ m ∈ a.members ∨ m ∈ b.members := by
  show m ∈ (RecordItems.append a b).members ↔ _
  simp only [mem_members, RecordItems.append, List.mem_append]
  tauto

theorem members_append_subset : (a ++ b).members ⊆ members ↔ a.members ⊆ members ∧ b.members ⊆ members := by
  simp only [List.subset_def, mem_members_append, or_imp, forall_and]

theorem nested_subset (h : items.members ⊆ members) : items.nested ⊆ members :=
  fun _ hm => h (mem_members.mpr (.inr (.inl hm)))

end RecordItems

theorem inheritedItems_of_collect (hs : env.symbols.Describes env.ast settings)
    (hd : env.ast.decl? record = some d) (hkind : d.kind = .record r) (hdef : r.isDefinition = true)
    (hnoFault : ∀ u, env.symbols.vtable? record ≠ some (.error u)) (hstruct : scope.record = some struct)
    (hrecords : (baseRecords r.bases).Gives env scope records)
    (hitems : (collect (flattenFrom nested fuel) records).Gives env scope items)
    (hsub : items.members ⊆ members) : InheritedItems env record struct members items := by
  simp only [baseRecords, gives_bind, gives_ast, exists_eq_left, gives_forEach, gives_lift_option,
    gives_pure] at hrecords
  obtain ⟨found, hfound, rfl⟩ := hrecords
  rcases bases_of_noFault hs hd hkind hdef hnoFault with hnil | ⟨base, id, hsingle, hid, -⟩
  · rw [hnil, List.forall₂_nil_left_iff] at hfound
    obtain rfl := hfound
    simp only [List.filterMap_nil, collect, gives_pure] at hitems
    obtain rfl := hitems
    refine .root fun base hbase => ?_
    obtain ⟨b, rest, id, hcons, -⟩ := (firstBase_iff hd hkind).mp hbase
    rw [hnil] at hcons
    cases hcons
  · rw [hsingle] at hfound
    cases hfound with
    | cons hfirst hrest =>
      cases hrest
      obtain rfl := Option.mem_unique hid hfirst
      change (collect (flattenFrom nested fuel) [id]).Gives env scope items at hitems
      simp only [collect, gives_bind, gives_pure, exists_eq_left'] at hitems
      obtain ⟨first, hfirst, rfl⟩ := hitems
      rw [RecordItems.append_empty] at hsub ⊢
      refine .derived ((firstBase_iff hd hkind).mpr ⟨base, [], id, hsingle, hid, rfl⟩) ⟨?_, hsub⟩
      exact ⟨nested, fuel, id, scope, hstruct, rfl, hfirst⟩

theorem FlatItemsOf.cases (hs : env.symbols.Describes env.ast settings)
    (h : FlatItemsOf env record struct members items) (hrecord : IsRecordDefinition env.ast record)
    (hnoFault : ∀ u, env.symbols.vtable? record ≠ some (.error u)) :
    ∃ inherited own, InheritedItems env record struct members inherited ∧
      ItemsOf env record struct members own ∧ items = inherited ++ own := by
  obtain ⟨⟨nested, fuel, id, scope, hstruct, rfl, h⟩, hsub⟩ := h
  obtain ⟨d, r, hd, hkind, hdef⟩ := hrecord
  cases fuel with
  | zero => simp [flattenFrom] at h
  | succ fuel =>
    simp only [flattenFrom, gives_bind, gives_symbols, exists_eq_left, gives_decl] at h
    obtain ⟨d', hd', h⟩ := h
    obtain rfl := Option.mem_unique hd' hd
    simp only [hkind, gives_bind, gives_pure] at h
    obtain ⟨records, hrecords, inherited, hinherited, own, hown, rfl⟩ := h
    rw [RecordItems.members_append_subset] at hsub
    refine ⟨inherited, own, ?_, ⟨⟨nested, false, true, scope, fun _ => rfl, hstruct, hown⟩, hsub.2⟩, rfl⟩
    exact inheritedItems_of_collect hs hd hkind hdef hnoFault hstruct hrecords hinherited hsub.1

/-! ## The sequence of data -/

/-- A field and the struct that it stands in. -/
structure PlacedField where
  record : DeclId
  members : List Member
  field : Member

/-- Both fields hold the same native datum. -/
def PlacedField.HoldsSame (env : Env) (f g : PlacedField) : Prop :=
  ∃ datum : Datum, datum.IsHeldBy env (some f.record) f.members f.field ∧
    datum.IsHeldBy env (some g.record) g.members g.field

def placed (record : DeclId) (members fields : List Member) : List PlacedField :=
  fields.map fun field => ⟨record, members, field⟩

def IsBaseField (env : Env) (record base : DeclId) (field : Member) : Prop :=
  FirstBase env.ast env.symbols.definition record base ∧ ∃ attrs name,
    qualifiedName? env.ast env.symbols base (some record) = some name ∧
    field = .field attrs .plain (.named name) "Base" none

/-- **The data of the objects of a record**, in order. -/
inductive Sequence (env : Env) : DeclId → List PlacedField → Prop
  | flat {record : DeclId} {members : List Member} (hstruct : IsStructOf env record members)
      (hfirst : ∀ base field, (members.filter isDataField).head? = some field →
        ¬ IsBaseField env record base field) :
      Sequence env record (placed record members (members.filter isDataField))
  | derived {record base : DeclId} {members : List Member} {field : Member} {rest : List Member}
      {fields : List PlacedField} (hstruct : IsStructOf env record members)
      (hdata : members.filter isDataField = field :: rest) (hfirst : IsBaseField env record base field)
      (hbase : Sequence env base fields) :
      Sequence env record (fields ++ placed record members rest)

theorem placed_append :
    placed record members (fields ++ fields') =
      placed record members fields ++ placed record members fields' :=
  List.map_append

abbrev HoldSame (env : Env) : List PlacedField → List PlacedField → Prop :=
  List.Forall₂ (PlacedField.HoldsSame env)

theorem SameData.placed (h : SameData env outer items outer' items') (hrecord : outer = some record)
    (hrecord' : outer' = some record') (hsub : items.members ⊆ members) (hsub' : items'.members ⊆ members') :
    HoldSame env (placed record members items.data) (placed record' members' items'.data) := by
  subst hrecord hrecord'
  unfold HoldSame Binding.placed
  rw [List.forall₂_map_left_iff, List.forall₂_map_right_iff]
  refine h.imp ?_
  rintro field field' ⟨datum, hheld, hheld'⟩
  exact ⟨datum, hheld.mono (RecordItems.nested_subset hsub), hheld'.mono (RecordItems.nested_subset hsub')⟩

section

variable {settings : Settings} (hs : env.symbols.Describes env.ast settings)
include hs

theorem ItemsOf.holdsSame (h : ItemsOf env record struct members items)
    (h' : ItemsOf env record struct' members' items') (hnoUnion : IsNoUnion env record) :
    HoldSame env (placed struct members items.data) (placed struct' members' items'.data) := by
  obtain ⟨⟨nested, isUnion, isInherited, scope, hisUnion, hstruct, hgives⟩, hsub⟩ := h
  obtain ⟨⟨nested', isUnion', isInherited', scope', hisUnion', hstruct', hgives'⟩, hsub'⟩ := h'
  rw [hisUnion hnoUnion] at hgives
  rw [hisUnion' hnoUnion] at hgives'
  exact (emitMembers_sameData hs hgives hgives').placed hstruct hstruct' hsub hsub'

theorem FlatItemsOf.holdsSame (h : FlatItemsOf env record struct members items)
    (h' : FlatItemsOf env record struct' members' items') :
    HoldSame env (placed struct members items.data) (placed struct' members' items'.data) := by
  obtain ⟨⟨nested, fuel, id, scope, hstruct, hid, hgives⟩, hsub⟩ := h
  obtain ⟨⟨nested', fuel', id', scope', hstruct', hid', hgives'⟩, hsub'⟩ := h'
  exact (flattenFrom_sameData hs (hid.trans hid'.symm) hgives hgives').placed hstruct hstruct' hsub hsub'

theorem InheritedItems.holdsSame (h : InheritedItems env record struct members items)
    (h' : InheritedItems env record struct' members' items') :
    HoldSame env (placed struct members items.data) (placed struct' members' items'.data) := by
  cases h with
  | root hroot =>
    cases h' with
    | root => exact .nil
    | derived hbase => exact absurd hbase (hroot _)
  | derived hbase hitems =>
    cases h' with
    | root hroot => exact absurd hbase (hroot _)
    | derived hbase' hitems' =>
      obtain rfl := firstBase_unique hbase hbase'
      exact hitems.holdsSame hs hitems'

end

/-! ## The shapes of structs -/

inductive Shape (env : Env) (record : DeclId) (members : List Member) (own : RecordItems) : Prop
  | polymorphic {inherited : RecordItems} (hpolymorphic : env.symbols.isPolymorphic record = true)
      (hinherited : InheritedItems env record record members inherited)
      (hdata : members.filter isDataField = vtableField :: (inherited.data ++ own.data))
  | root (hpolymorphic : env.symbols.isPolymorphic record = false)
      (hroot : ∀ base, ¬ FirstBase env.ast env.symbols.definition record base)
      (hdata : members.filter isDataField = own.data)
  | derived {base : DeclId} {field : Member} (hpolymorphic : env.symbols.isPolymorphic record = false)
      (hbase : env.symbols.isPolymorphic base = false) (hfield : IsBaseField env record base field)
      (hdata : members.filter isDataField = field :: own.data)

theorem vtableField_not_base : ¬ IsBaseField env record base vtableField := by
  rintro ⟨-, attrs, name, -, hfield⟩
  simp [vtableField] at hfield

theorem IsStructOf.noFault (h : IsStructOf env record members) :
    ∀ u, env.symbols.vtable? record ≠ some (.error u) := by
  obtain ⟨d, r, depth, scope, inherited, own, -, -, hnoFault, -⟩ := h.cases
  exact hnoFault

theorem IsStructOf.shape (hs : env.symbols.Describes env.ast settings) (htypedefs : PlainTypedefs env.ast)
    (h : IsStructOf env record members) :
    ∃ own, Shape env record members own ∧ ItemsOf env record record members own := by
  obtain ⟨d, r, depth, scope, inherited, own, hd, hkind, hnoFault, hinherited, hown, hmembers, hdata⟩ :=
    h.cases
  obtain ⟨⟨d', r', hd', hkind', hdef⟩, -⟩ := h
  obtain ⟨rfl, rfl⟩ := record_unique hd' hkind' hd hkind
  have hsub : (inherited ++ own).members ⊆ members := hmembers ▸ List.Subset.refl _
  rw [RecordItems.members_append_subset] at hsub
  refine ⟨own, ?_, ⟨recordTo depth, _, false, Scope.inside scope record, fun hnoUnion => ?_, rfl, hown⟩,
    hsub.2⟩
  · rcases emitBases_cases hinherited with
      ⟨hpolymorphic, records, flat, methods, hrecords, hflat, hmethods, rfl⟩ |
      ⟨hpolymorphic, ⟨hnil, rfl⟩ | ⟨base, rest, mapped, hcons, hmapped, rfl⟩⟩
    · rw [RecordItems.members_append_subset, RecordItems.members_append_subset] at hsub
      refine .polymorphic hpolymorphic
        (inheritedItems_of_collect hs hd hkind hdef hnoFault rfl hrecords hflat hsub.1.1.2) ?_
      have hpointer : ({ fields := [vtableField] } : RecordItems).data = [vtableField] := rfl
      have hmethods : ({ methods := methods } : RecordItems).data = [] := rfl
      rw [hdata, RecordItems.data_append, RecordItems.data_append, hpointer, hmethods, List.append_nil,
        List.append_assoc, List.singleton_append]
    · refine .root hpolymorphic (fun base hbase => ?_) hdata
      obtain ⟨b, rest, id, hcons, -⟩ := (firstBase_iff hd hkind).mp hbase
      rw [hnil] at hcons
      cases hcons
    · rcases bases_of_noFault hs hd hkind hdef hnoFault with hnil | ⟨base', id, hsingle, hid, hno⟩
      · rw [hnil] at hcons
        cases hcons
      · rw [hsingle] at hcons
        obtain ⟨rfl, rfl⟩ := List.cons.inj hcons
        obtain ⟨usesPointers, hmapped⟩ := managedFrom_of_mapType hmapped
        obtain ⟨name, hname, htype⟩ := PlainTypedefs.managedFrom_record
          (c := ⟨env.ast, env.symbols, some record, d'.location⟩) htypedefs hid hmapped
        refine .derived hpolymorphic (hno hpolymorphic) ⟨?_, startOffset (r'.tag = .union), name, ?_, ?_⟩ hdata
        · exact (firstBase_iff hd hkind).mpr ⟨base', [], id, hsingle, hid, rfl⟩
        · exact (hs.qualifiedName_definition id (some record)).trans hname
        · rw [show mapped.type = .named name from htype]
  · exact decide_eq_false (hnoUnion d' r' hd hkind)

/-! ## Sequences of a record and of its bases -/

/-- A sequence, composed of what the record takes over and of its own data. -/
inductive Composed (env : Env) : DeclId → List PlacedField → Prop
  | polymorphic {record : DeclId} {members : List Member} {inherited own : RecordItems}
      (hstruct : IsStructOf env record members)
      (hown : ItemsOf env record record members own)
      (hpolymorphic : env.symbols.isPolymorphic record = true)
      (hinherited : InheritedItems env record record members inherited) :
      Composed env record (placed record members (vtableField :: (inherited.data ++ own.data)))
  | root {record : DeclId} {members : List Member} {own : RecordItems}
      (hstruct : IsStructOf env record members)
      (hown : ItemsOf env record record members own)
      (hpolymorphic : env.symbols.isPolymorphic record = false)
      (hroot : ∀ base, ¬ FirstBase env.ast env.symbols.definition record base) :
      Composed env record (placed record members own.data)
  | derived {record base : DeclId} {members : List Member} {own : RecordItems}
      {fields : List PlacedField} (hstruct : IsStructOf env record members)
      (hown : ItemsOf env record record members own)
      (hpolymorphic : env.symbols.isPolymorphic record = false)
      (hplainBase : env.symbols.isPolymorphic base = false)
      (hfirst : FirstBase env.ast env.symbols.definition record base)
      (hbase : Composed env base fields) :
      Composed env record (fields ++ placed record members own.data)

section

variable {settings : Settings} (hs : env.symbols.Describes env.ast settings)
include hs

theorem Sequence.composed (htypedefs : PlainTypedefs env.ast) (h : Sequence env record fields) :
    Composed env record fields := by
  induction h with
  | flat hstruct hfirst =>
    obtain ⟨own, hshape, hown⟩ := hstruct.shape hs htypedefs
    cases hshape with
    | polymorphic hpolymorphic hinherited hdata =>
      rw [hdata]
      exact .polymorphic hstruct hown hpolymorphic hinherited
    | root hpolymorphic hroot hdata =>
      rw [hdata]
      exact .root hstruct hown hpolymorphic hroot
    | derived hpolymorphic hbase hfield hdata =>
      rw [hdata] at hfirst
      exact absurd hfield (hfirst _ _ rfl)
  | derived hstruct hdata hfirst _ ih =>
    obtain ⟨own, hshape, hown⟩ := hstruct.shape hs htypedefs
    cases hshape with
    | polymorphic hpolymorphic hinherited hdata' =>
      obtain ⟨rfl, -⟩ := List.cons.inj (hdata.symm.trans hdata')
      exact absurd hfirst vtableField_not_base
    | root hpolymorphic hroot hdata' => exact absurd hfirst.1 (hroot _)
    | derived hpolymorphic hplainBase hfield hdata' =>
      obtain ⟨rfl, rfl⟩ := List.cons.inj (hdata.symm.trans hdata')
      obtain rfl := firstBase_unique hfield.1 hfirst.1
      exact .derived hstruct hown hpolymorphic hplainBase hfirst.1 ih

omit hs in
theorem PlainBases.isNoUnion (hplain : PlainBases env)
    (h : FirstBase env.ast env.symbols.definition record base) : IsNoUnion env base :=
  fun d r hd hkind => hplain record base d r h hd hkind

omit hs in
theorem vtableField_holdsSame :
    PlacedField.HoldsSame env ⟨record, members, vtableField⟩ ⟨record', members', vtableField⟩ :=
  ⟨.vtable, rfl, rfl⟩

theorem Composed.holdsSame (hplain : PlainBases env) (h : Composed env record fields)
    (h' : Composed env record fields') (hnoUnion : IsNoUnion env record) : HoldSame env fields fields' := by
  induction h generalizing fields' with
  | polymorphic hstruct hown hpolymorphic hinherited =>
    cases h' with
    | polymorphic _ hown' _ hinherited' =>
      refine .cons vtableField_holdsSame ?_
      rw [List.map_append, List.map_append]
      exact List.rel_append (hinherited.holdsSame hs hinherited')
        (hown.holdsSame hs hown' hnoUnion)
    | root _ _ hpolymorphic' => simp [hpolymorphic] at hpolymorphic'
    | derived _ _ hpolymorphic' => simp [hpolymorphic] at hpolymorphic'
  | root hstruct hown hpolymorphic hroot =>
    cases h' with
    | polymorphic _ _ hpolymorphic' => simp [hpolymorphic] at hpolymorphic'
    | root _ hown' => exact hown.holdsSame hs hown' hnoUnion
    | derived _ _ _ _ hfirst => exact absurd hfirst (hroot _)
  | derived hstruct hown hpolymorphic hplainBase hfirst _ ih =>
    cases h' with
    | polymorphic _ _ hpolymorphic' => simp [hpolymorphic] at hpolymorphic'
    | root _ _ _ hroot => exact absurd hfirst (hroot _)
    | derived _ hown' _ _ hfirst' hbase' =>
      obtain rfl := firstBase_unique hfirst hfirst'
      exact List.rel_append (ih hbase' (hplain.isNoUnion hfirst))
        (hown.holdsSame hs hown' hnoUnion)

theorem Composed.flattened (hplain : PlainBases env) (h : Composed env record fields)
    (hpolymorphic : env.symbols.isPolymorphic record = false) (hnoUnion : IsNoUnion env record)
    (hitems : FlatItemsOf env record struct members items) :
    HoldSame env fields (placed struct members items.data) := by
  induction h generalizing items with
  | polymorphic _ _ hpolymorphic' => simp [hpolymorphic] at hpolymorphic'
  | root hstruct hown _ hroot =>
    obtain ⟨inherited, own, hinherited, htaken, rfl⟩ := hitems.cases hs hstruct.1 hstruct.noFault
    cases hinherited with
    | root => exact hown.holdsSame hs htaken hnoUnion
    | derived hbase => exact absurd hbase (hroot _)
  | derived hstruct hown _ hplainBase hfirst _ ih =>
    obtain ⟨inherited, own, hinherited, htaken, rfl⟩ := hitems.cases hs hstruct.1 hstruct.noFault
    cases hinherited with
    | root hroot => exact absurd hfirst (hroot _)
    | derived hbase hflat =>
      obtain rfl := firstBase_unique hfirst hbase
      rw [RecordItems.data_append, placed_append]
      exact List.rel_append (ih hplainBase (hplain.isNoUnion hfirst) hflat)
        (hown.holdsSame hs htaken hnoUnion)

theorem Composed.flattened_polymorphic (h : Composed env record fields)
    (hpolymorphic : env.symbols.isPolymorphic record = true) (hnoUnion : IsNoUnion env record)
    (hitems : FlatItemsOf env record struct members items) :
    HoldSame env fields (placed struct members (vtableField :: items.data)) := by
  cases h with
  | polymorphic hstruct hown _ hinherited =>
    obtain ⟨inherited, own, hinherited', htaken, rfl⟩ := hitems.cases hs hstruct.1 hstruct.noFault
    refine .cons vtableField_holdsSame ?_
    rw [RecordItems.data_append, List.map_append, List.map_append]
    exact List.rel_append (hinherited.holdsSame hs hinherited') (hown.holdsSame hs htaken hnoUnion)
  | root _ _ hpolymorphic' => simp [hpolymorphic] at hpolymorphic'
  | derived _ _ hpolymorphic' => simp [hpolymorphic] at hpolymorphic'

end

/-- A sequence starts with fields that hold the same as another. -/
def StartsWith (env : Env) (base fields : List PlacedField) : Prop :=
  ∃ inherited own, fields = inherited ++ own ∧ List.Forall₂ (PlacedField.HoldsSame env) base inherited

/-- A pointer to a record becomes one to its base by a cast alone, which leaves the address as it is. -/
theorem hierarchyCast_pointer (htarget : env.ast.canonicalKind? target = some (.pointer pointee))
    (h : (hierarchyCast parts target source operand location).Gives env scope out) :
    ∃ e mapped, (parts.value operand).Gives env scope e ∧
      (mapType target .cast location).Gives env scope mapped ∧ out = .castTo mapped.type e := by
  simp only [hierarchyCast, gives_bind, gives_isPointer] at h
  obtain ⟨e, he, isPointer, ⟨kind, hkind, rfl⟩, h⟩ := h
  obtain rfl := Option.mem_unique hkind htarget
  simp only [Native.TypeKind.isPointer, if_true, castTo, gives_bind, gives_pure] at h
  obtain ⟨mapped, hmapped, rfl⟩ := h
  exact ⟨e, mapped, he, hmapped, rfl⟩

/-- **A derived record starts with its base**, behind the pointer to a vtable that the base does not have.
Pointers are converted as if there were no such pointer. -/
theorem sequence_starts_with_base {settings : Settings} {ast : Native.Ast}
    (hprepare : prepare settings ast = .ok env) (htypedefs : PlainTypedefs env.ast)
    (hplain : PlainBases env) {record base : DeclId}
    (hfirst : FirstBase env.ast env.symbols.definition record base) {members : List Member}
    (hstruct : IsStructOf env record members) {fields : List PlacedField}
    (hbase : Sequence env base fields) :
    (∃ fields', Sequence env record fields') ∧ (∀ fields', Sequence env record fields' →
      if env.symbols.isPolymorphic record = true ∧ env.symbols.isPolymorphic base = false then
        ∃ pointer rest, fields' = pointer :: rest ∧
          Datum.vtable.IsHeldBy env (some pointer.record) pointer.members pointer.field ∧
          StartsWith env fields rest
      else StartsWith env fields fields') ∧
    ∀ parts target pointee source operand location scope out,
      env.ast.canonicalKind? target = some (.pointer pointee) →
      (hierarchyCast parts target source operand location).Gives env scope out →
      ∃ e mapped, (parts.value operand).Gives env scope e ∧
        (mapType target .cast location).Gives env scope mapped ∧ out = .castTo mapped.type e := by
  have hs := Symbols.describes_of_prepare hprepare
  have hnoUnion := hplain.isNoUnion hfirst
  have hcomposed := hbase.composed hs htypedefs
  refine ⟨?_, ?_, fun _ _ _ _ _ _ _ _ htarget h => hierarchyCast_pointer htarget h⟩
  · obtain ⟨own, hshape, -⟩ := hstruct.shape hs htypedefs
    cases hshape with
    | polymorphic _ _ hdata =>
      refine ⟨_, .flat hstruct fun base field hhead => ?_⟩
      rw [hdata] at hhead
      obtain rfl := Option.some.inj hhead
      exact vtableField_not_base
    | root _ hroot => exact absurd hfirst (hroot base)
    | derived _ _ hfield hdata =>
      obtain rfl := firstBase_unique hfirst hfield.1
      exact ⟨_, .derived hstruct hdata hfield hbase⟩
  · intro fields' hfields'
    cases hfields'.composed hs htypedefs with
    | polymorphic _ _ hpolymorphic hinherited =>
      cases hinherited with
      | root hroot => exact absurd hfirst (hroot base)
      | derived hbase' hflat =>
        obtain rfl := firstBase_unique hfirst hbase'
        cases hplainBase : env.symbols.isPolymorphic base with
        | false =>
          rw [if_pos ⟨hpolymorphic, rfl⟩]
          exact ⟨_, _, rfl, rfl, _, _, placed_append,
            hcomposed.flattened hs hplain hplainBase hnoUnion hflat⟩
        | true =>
          rw [if_neg (by simp)]
          exact ⟨_, _, @placed_append _ _ (vtableField :: _) _,
            hcomposed.flattened_polymorphic hs hplainBase hnoUnion hflat⟩
    | root _ _ _ hroot => exact absurd hfirst (hroot base)
    | derived _ _ hpolymorphic _ hfirst' hbase' =>
      obtain rfl := firstBase_unique hfirst hfirst'
      rw [if_neg (by simp [hpolymorphic])]
      exact ⟨_, _, rfl, hcomposed.holdsSame hs hplain hbase' hnoUnion⟩

theorem not_holdsSame_vtableField {f : PlacedField}
    (hf : f.field = .field attrs .plain (.named type) name value) :
    ¬ f.HoldsSame env ⟨record, members, vtableField⟩ := by
  rintro ⟨datum, hheld, hheld'⟩
  rw [hf] at hheld
  cases datum with
  | vtable => cases hheld
  | value native =>
    obtain ⟨location, mapped, hmap, htype⟩ := hheld
    obtain ⟨location', mapped', hmap', htype'⟩ := hheld'
    have hsame := @mapType_sameInScopes _ _ _ env ⟨some f.record, none⟩ ⟨some record, none⟩ _ _ _
      (gives_mapType.mpr hmap) (gives_mapType.mpr hmap')
    rw [htype, htype'] at hsame
    cases hsame with
    | compound hcompound => exact hcompound type rfl
  | array element size =>
    obtain ⟨name, inner, hpointer, -⟩ := hheld'
    cases hpointer
  | bits storage => cases hheld'
  | anonymous id =>
    obtain ⟨name, -, hpointer⟩ := hheld'
    cases hpointer

theorem plainBases_of_all (h : env.ast.decls.toList.all (fun d =>
      match d.kind with
      | .record r => decide (r.tag ≠ .union)
      | _ => true) = true) : PlainBases env := by
  intro record base d r _ hd hkind
  have hd := List.all_eq_true.mp h d (Array.mem_toList_iff.mpr (Array.mem_of_getElem? hd))
  rw [hkind] at hd
  exact of_decide_eq_true hd

theorem plainTypedefs_of_all {ast : Native.Ast}
    (h : ast.types.toList.all (fun t => match t.kind with | .typedef _ _ => false | _ => true) = true) :
    PlainTypedefs ast := by
  rintro type name n target t ⟨t, typedef, underlying, d, ht, hkind, -⟩ - -
  have ht := List.all_eq_true.mp h t (Array.mem_toList_iff.mpr (Array.mem_of_getElem? ht))
  rw [hkind] at ht
  cases ht

def shapes : Env where
  ast :=
    { file := "shapes.h"
      topLevel := [⟨0⟩, ⟨5⟩, ⟨8⟩, ⟨10⟩]
      decls :=
        #[{ kind := .record { tag := .struct, members := [⟨1⟩, ⟨2⟩, ⟨3⟩] }, name := "Point" },
          { kind := .field { type := ⟨0⟩, bitWidth := some 3 }, name := "tag", parent := some ⟨0⟩ },
          { kind := .field { type := ⟨3⟩ }, name := "at", parent := some ⟨0⟩ },
          { kind := .record { tag := .struct, isAnonymous := true, members := [⟨4⟩] },
            parent := some ⟨0⟩ },
          { kind := .field { type := ⟨1⟩ }, name := "depth", parent := some ⟨3⟩ },
          { kind := .record { tag := .struct, bases := [{ type := ⟨4⟩ }], members := [⟨6⟩, ⟨7⟩] },
            name := "Shape" },
          { kind := .method { type := ⟨5⟩, isVirtual := true }, name := "draw", parent := some ⟨5⟩ },
          { kind := .field { type := ⟨7⟩ }, name := "next", parent := some ⟨5⟩ },
          { kind := .record { tag := .struct, bases := [{ type := ⟨6⟩ }], members := [⟨9⟩] },
            name := "Circle" },
          { kind := .field { type := ⟨1⟩ }, name := "radius", parent := some ⟨8⟩ },
          { kind := .function { type := ⟨9⟩, params := [⟨11⟩], body := some ⟨1⟩ }, name := "up" },
          { kind := .param ⟨7⟩, name := "s", parent := some ⟨10⟩ }]
      stmts := #[{ kind := .ret (some ⟨2⟩) }, { kind := .compound [⟨0⟩] }]
      exprs :=
        #[{ kind := .declRef ⟨11⟩, type := ⟨7⟩ },
          { kind := .implicitCast .lvalueToRValue ⟨0⟩, type := ⟨7⟩ },
          { kind := .implicitCast .derivedToBase ⟨1⟩, type := ⟨8⟩ }]
      types :=
        #[.ofBuiltin .uInt, .ofBuiltin .float, .ofBuiltin .void,
          { kind := .constantArray ⟨1⟩ 2, spelling := "float[2]" },
          { kind := .record ⟨0⟩, spelling := "Point" },
          { kind := .function { result := ⟨2⟩, params := [] }, spelling := "void ()" },
          { kind := .record ⟨5⟩, spelling := "Shape" },
          { kind := .pointer ⟨6⟩, spelling := "Shape *" },
          { kind := .pointer ⟨4⟩, spelling := "Point *" },
          { kind := .function { result := ⟨8⟩, params := [⟨7⟩] }, spelling := "Point *(Shape *)" }] }
  settings := {}
  symbols :=
    { names := #["Point", "tag", "at", "_Anonymous_e__Struct", "depth", "Shape", "draw", "next", "Circle",
        "radius", "up", "s"]
      anonymous := [(⟨3⟩, ⟨⟨0⟩, "Anonymous"⟩)]
      namingTypedefs := []
      definitions := []
      shadowed := []
      globals := [⟨10⟩]
      vtables := [(⟨8⟩, .ok [⟨6⟩]), (⟨5⟩, .ok [⟨6⟩])] }

theorem circle_starts_with_shape :
    ∃ shape, Sequence shapes ⟨5⟩ shape ∧ shape.length = 5 ∧ (∃ circle, Sequence shapes ⟨8⟩ circle) ∧
      ∀ circle, Sequence shapes ⟨8⟩ circle → StartsWith shapes shape circle := by
  have hshape : IsStructOf shapes ⟨5⟩ _ :=
    isStructOf_of_emitRecord ⟨_, _, rfl, rfl, rfl⟩ (gives_of_run (c := {}) rfl)
  have hcircle : IsStructOf shapes ⟨8⟩ _ :=
    isStructOf_of_emitRecord ⟨_, _, rfl, rfl, rfl⟩ (gives_of_run (c := {}) rfl)
  have hsequence := Sequence.flat hshape fun base field hhead => by
    obtain rfl : vtableField = field := Option.some.inj hhead
    exact vtableField_not_base
  have h := sequence_starts_with_base (show prepare {} shapes.ast = .ok shapes from rfl)
    (plainTypedefs_of_all rfl) (plainBases_of_all rfl) ⟨_, _, _, _, ⟨5⟩, rfl, rfl, rfl, rfl, rfl⟩ hcircle hsequence
  exact ⟨_, hsequence, rfl, h.1, h.2.1⟩

/-- `Shape` starts with the pointer to its vtable, and so not with the fields of `Point`. Yet the function
`up`, which takes a pointer to a `Shape` for one to a `Point`, returns `s` by a cast. -/
theorem shape_not_starts_with_point :
    (∃ point shape, FirstBase shapes.ast shapes.symbols.definition ⟨5⟩ ⟨0⟩ ∧ Sequence shapes ⟨0⟩ point ∧
      Sequence shapes ⟨5⟩ shape ∧ ¬ StartsWith shapes point shape) ∧
    expressionFragment {} shapes.ast ⟨2⟩ = .ok (.expression "(Point*)(s)" true) := by
  have hpoint : IsStructOf shapes ⟨0⟩ _ :=
    isStructOf_of_emitRecord ⟨_, _, rfl, rfl, rfl⟩ (gives_of_run (c := {}) rfl)
  have hshape : IsStructOf shapes ⟨5⟩ _ :=
    isStructOf_of_emitRecord ⟨_, _, rfl, rfl, rfl⟩ (gives_of_run (c := {}) rfl)
  refine ⟨⟨_, _, ⟨_, _, _, _, ⟨0⟩, rfl, rfl, rfl, rfl, rfl⟩, .flat hpoint fun base field _ hbase => ?_,
    .flat hshape fun base field hhead => ?_, ?_⟩, rfl⟩
  · obtain ⟨d, r, b, rest, id, hd, hkind, hbases, -⟩ := hbase.1
    obtain rfl := Option.some.inj hd
    obtain rfl := Native.DeclKind.record.inj hkind
    cases hbases
  · obtain rfl : vtableField = field := Option.some.inj hhead
    exact vtableField_not_base
  · rintro ⟨inherited, own, hfields, hsame⟩
    cases hsame with
    | cons hfirst _ =>
      obtain ⟨rfl, -⟩ := List.cons.inj hfields
      exact not_holdsSame_vtableField rfl hfirst

end Interop.Binding
