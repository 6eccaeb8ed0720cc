import Interop.Proofs.StructMembers

/-!
# Names of flattened fields

The struct of a record with a vtable has the fields of all its bases next to its own. Storage fields of
bases are told apart by the names of the bases, but anonymous members are numbered in each record alone.
So the names are distinct exactly if those of the anonymous members are (`flattened_names_distinct_iff`).
-/

namespace Interop.Binding

open Native (DeclId Base Decl)
open Emit
open Managed (Member)

variable {env : Env} {scope : Scope} {nested : DeclId → Emit Member} {record : DeclId}
  {isUnion isInherited : Bool} {items : RecordItems} {base : Option String} {d : Decl} {r : Native.Record}

/-! ## Names by their origin -/

def fieldName? (env : Env) (id : DeclId) : Option String :=
  match (env.ast.decl? id).map Decl.kind with
  | some (.field { bitWidth := none, .. }) => some (env.symbols.name id)
  | _ => none

def anonymousName? (env : Env) (id : DeclId) : Option String :=
  match (env.ast.decl? id).map Decl.kind with
  | some (.record { isAnonymous := true, .. }) => (env.symbols.anonymous? id).map (·.field)
  | _ => none

/-- The name of the storage field that stands where a bit field does. -/
def unitName? (env : Env) (units : List BitUnit) (base : Option String) (id : DeclId) : Option String :=
  match (env.ast.decl? id).map Decl.kind with
  | some (.field { bitWidth := some _, .. }) =>
    (units.zipIdx.find? fun (u, _) => u.first = id).map fun (_, i) => storageName i units.length base
  | _ => none

def membersIn (env : Env) (record : DeclId) : List DeclId :=
  (env.ast.recordMembers? record).getD []

def fieldNames (env : Env) (record : DeclId) : List String :=
  (membersIn env record).filterMap (fieldName? env)

def anonymousNames (env : Env) (record : DeclId) : List String :=
  (membersIn env record).filterMap (anonymousName? env)

/-- The names of the fields that hold data. -/
def dataNames (members : List Member) : List String :=
  (members.filter isDataField).filterMap valueName?

theorem dataNames_append (a b : RecordItems) :
    dataNames (a ++ b).fields = dataNames a.fields ++ dataNames b.fields := by
  show dataNames (a.fields ++ b.fields) = _
  simp [dataNames]

theorem emitMember_names {id : DeclId}
    (h : (emitMember nested record isUnion isInherited units id).Gives env scope items) :
    dataNames items.fields = (fieldName? env id).toList ++ (anonymousName? env id).toList ++
      (unitName? env units (if isInherited then some (env.symbols.name record) else none) id).toList := by
  have hother : ∀ {d}, items = {} ∨ (emitOwnMember nested record id d).Gives env scope items →
      dataNames items.fields = [] := by
    rintro d (rfl | h)
    · rfl
    · exact congrArg (List.filterMap valueName?) (h.of_ensures fun _ => emitOwnMember_no_data).1
  obtain ⟨d, hd, -⟩ := gives_bind.mp h
  have hcases := emitMember_cases h (gives_decl.mp hd)
  unfold fieldName? anonymousName? unitName?
  rw [gives_decl.mp hd, Option.map_some]
  revert hcases
  cases d.kind with
  | field f =>
    obtain ⟨type, _ | width, offset⟩ := f
    · intro hfield
      obtain ⟨m, hfields, hname, hdata⟩ := emitField_single hfield
      simp [dataNames, hfields, hdata, hname]
    · intro hunit
      dsimp only at hunit ⊢
      unfold emitBitUnit at hunit
      split at hunit
      · rename_i hfind
        obtain rfl := gives_pure.mp hunit
        simp [hfind, dataNames]
      · rename_i u position hfind
        simp only [gives_bind, gives_pure] at hunit
        obtain ⟨properties, -, rfl⟩ := hunit
        rw [hfind]
        rfl
  | record r =>
    obtain ⟨tag, isDefinition, _ | _, bases, members⟩ := r
    · exact fun h => hother h
    · intro hanonymous
      obtain ⟨member, type, types, accessors, hmember, -, -, -, rfl⟩ := emitAnonymous_cases hanonymous
      dsimp only
      rw [hmember]
      rfl
  | _ => exact fun h => hother h

theorem collect_names {α : Type} {g : α → Emit RecordItems} {f a s : α → Option String} {xs : List α}
    (hstep : ∀ x items, (g x).Gives env scope items →
      dataNames items.fields = (f x).toList ++ (a x).toList ++ (s x).toList)
    (h : (collect g xs).Gives env scope items) :
    (dataNames items.fields).Perm (xs.filterMap f ++ xs.filterMap a ++ xs.filterMap s) := by
  induction xs generalizing items with
  | nil =>
    obtain rfl := gives_pure.mp h
    exact .refl _
  | cons x xs ih =>
    simp only [collect, gives_bind, gives_pure] at h
    obtain ⟨first, hfirst, others, hothers, rfl⟩ := h
    have hcons : ∀ p : α → Option String, (x :: xs).filterMap p = (p x).toList ++ xs.filterMap p := by
      intro p
      cases hp : p x <;> simp [hp]
    rw [dataNames_append, hstep x first hfirst, hcons, hcons, hcons]
    refine ((ih hothers).append_left _).trans ?_
    rw [List.perm_iff_count]
    intro name
    simp only [List.count_append]
    omega

/-! ## Names of a record -/

/-- Names of fields, of anonymous members, and of different storage fields under the names of bases. -/
def Mixes (fields anonymous : List String) (bases : List (Option String)) (names : List String) : Prop :=
  ∃ storages : List String, names.Perm (fields ++ anonymous ++ storages) ∧ storages.Nodup ∧
    ∀ s ∈ storages, ∃ base ∈ bases, ∃ i count, s = storageName i count base

theorem Mixes.append (h : Mixes fields anonymous bases names)
    (h' : Mixes fields' anonymous' bases' names') (hdisjoint : bases.Disjoint bases') :
    Mixes (fields ++ fields') (anonymous ++ anonymous') (bases ++ bases') (names ++ names') := by
  obtain ⟨storages, hperm, hnodup, hbases⟩ := h
  obtain ⟨storages', hperm', hnodup', hbases'⟩ := h'
  refine ⟨storages ++ storages', (hperm.append hperm').trans ?_, ?_, ?_⟩
  · rw [List.perm_iff_count]
    intro name
    simp only [List.count_append]
    omega
  · refine List.nodup_append.mpr ⟨hnodup, hnodup', ?_⟩
    rintro s hs _ hs' rfl
    obtain ⟨base, hbase, i, count, rfl⟩ := hbases s hs
    obtain ⟨base', hbase', j, count', heq⟩ := hbases' _ hs'
    obtain rfl := base_of_storageName_eq heq
    exact hdisjoint hbase hbase'
  · intro s hs
    rcases List.mem_append.mp hs with hs | hs
    · obtain ⟨base, hbase, h⟩ := hbases s hs
      exact ⟨base, List.mem_append_left _ hbase, h⟩
    · obtain ⟨base, hbase, h⟩ := hbases' s hs
      exact ⟨base, List.mem_append_right _ hbase, h⟩

/-- A name that no vtable pointer, storage field or anonymous member is given. -/
def IsOrdinaryName (name : String) : Prop :=
  name.toList.head? ≠ some '_' ∧ name ≠ "lpVtbl" ∧
    ∀ numbered position, name ≠ anonymousField numbered position

theorem anonymousField_head (numbered : Bool) (position : Nat) :
    (anonymousField numbered position).toList.head? = some 'A' := by
  unfold anonymousField
  split
  · simp
  · rfl

theorem Mixes.nodup_iff (h : Mixes fields anonymous bases names) (hfields : fields.Nodup)
    (hordinary : ∀ name ∈ fields, IsOrdinaryName name)
    (hanonymous : ∀ name ∈ anonymous, ∃ numbered position, name = anonymousField numbered position) :
    ("lpVtbl" :: names).Nodup ↔ anonymous.Nodup := by
  obtain ⟨storages, hperm, hnodup, hbases⟩ := h
  have hcapital : ∀ name ∈ anonymous, name.toList.head? = some 'A' := by
    intro name hname
    obtain ⟨numbered, position, rfl⟩ := hanonymous name hname
    exact anonymousField_head numbered position
  have hunderscore : ∀ name ∈ storages, name.toList.head? = some '_' := by
    intro name hname
    obtain ⟨base, -, i, count, rfl⟩ := hbases name hname
    exact storageName_head i count base
  rw [List.nodup_cons, hperm.mem_iff, hperm.nodup_iff, List.nodup_append, List.nodup_append]
  constructor
  · rintro ⟨-, ⟨-, h, -⟩, -⟩
    exact h
  · intro h
    refine ⟨fun hmem => ?_, ⟨hfields, h, ?_⟩, hnodup, ?_⟩
    · simp only [List.mem_append] at hmem
      rcases hmem with (hmem | hmem) | hmem
      · exact (hordinary _ hmem).2.1 rfl
      · exact absurd (hcapital _ hmem) (by decide)
      · exact absurd (hunderscore _ hmem) (by decide)
    · rintro name hname _ hmem rfl
      obtain ⟨numbered, position, heq⟩ := hanonymous name hmem
      exact (hordinary name hname).2.2 numbered position heq
    · rintro name hname _ hmem rfl
      have hhead := hunderscore name hmem
      rcases List.mem_append.mp hname with hname | hname
      · exact (hordinary name hname).1 hhead
      · rw [hcapital name hname] at hhead
        exact absurd hhead (by decide)

theorem unitName_injective {id : DeclId} (h : unitName? env units base id = some name)
    (h' : unitName? env units base id' = some name) : id = id' := by
  have hplace : ∀ {id}, unitName? env units base id = some name →
      ∃ u i, units[i]? = some u ∧ u.first = id ∧ storageName i units.length base = name := by
    intro id h
    unfold unitName? at h
    split at h
    · obtain ⟨⟨u, i⟩, hfind, hname⟩ := Option.map_eq_some_iff.mp h
      refine ⟨u, i, List.mk_mem_zipIdx_iff_getElem?.mp (List.mem_of_find?_eq_some hfind), ?_, hname⟩
      simpa using List.find?_some hfind
    · cases h
  obtain ⟨u, i, hu, rfl, hname⟩ := hplace h
  obtain ⟨u', j, hu', rfl, hname'⟩ := hplace h'
  obtain ⟨hi, -⟩ := List.getElem?_eq_some_iff.mp hu
  obtain ⟨hj, -⟩ := List.getElem?_eq_some_iff.mp hu'
  obtain rfl := storageName_injective hi hj (hname.trans hname'.symm)
  rw [Option.mem_unique hu hu']

theorem emitMembers_names (h : (emitMembers nested record isUnion isInherited).Gives env scope items)
    (hmembers : (membersIn env record).Nodup) :
    Mixes (fieldNames env record) (anonymousNames env record)
      [if isInherited then some (env.symbols.name record) else none] (dataNames items.fields) := by
  simp only [emitMembers, gives_bind, gives_ast, exists_eq_left, gives_lift_option] at h
  obtain ⟨members, hlisted, units, -, h⟩ := h
  have hin : membersIn env record = members := by rw [membersIn, hlisted, Option.getD_some]
  unfold fieldNames anonymousNames
  rw [hin] at hmembers ⊢
  refine ⟨_, collect_names (fun id items => emitMember_names) h, ?_, fun s hs => ?_⟩
  · exact hmembers.filterMap fun id id' name hid hid' => unitName_injective hid hid'
  · obtain ⟨id, -, hname⟩ := List.mem_filterMap.mp hs
    unfold unitName? at hname
    split at hname
    · obtain ⟨⟨u, i⟩, -, rfl⟩ := Option.map_eq_some_iff.mp hname
      exact ⟨_, .head _, i, _, rfl⟩
    · cases hname

/-! ## Names of a record and its bases -/

/-- The records whose fields are taken over with these bases, in order. -/
inductive Flattens (env : Env) : List Base → List DeclId → Prop
  | nil : Flattens env [] []
  | other {b : Base} {rest : List Base} {others : List DeclId}
      (hid : env.ast.recordOf? b.type = some none) (hrest : Flattens env rest others) :
      Flattens env (b :: rest) others
  | base {b : Base} {rest : List Base} {id : DeclId} {d : Decl} {r : Native.Record}
      {above others : List DeclId} (hid : env.ast.recordOf? b.type = some (some id))
      (hd : env.ast.decl? (env.symbols.definition id) = some d) (hkind : d.kind = .record r)
      (habove : Flattens env r.bases above) (hrest : Flattens env rest others) :
      Flattens env (b :: rest) (above ++ env.symbols.definition id :: others)

theorem gives_baseRecords :
    (baseRecords bases).Gives env scope records ↔ ∃ found,
      List.Forall₂ (fun b r => env.ast.recordOf? b.type = some r) bases found ∧
        found.filterMap id = records := by
  simp only [baseRecords, gives_bind, gives_ast, exists_eq_left, gives_forEach, gives_lift_option,
    gives_pure]

theorem flattenFrom_names (h : Flattens env bases chain)
    (hmembers : ∀ record ∈ chain, (membersIn env record).Nodup)
    (hnames : (chain.map env.symbols.name).Nodup) (hrecords : (baseRecords bases).Gives env scope records)
    (hitems : (collect (flattenFrom nested fuel) records).Gives env scope items) :
    Mixes (chain.flatMap (fieldNames env)) (chain.flatMap (anonymousNames env))
      (chain.map fun record => some (env.symbols.name record)) (dataNames items.fields) := by
  induction h generalizing records fuel items with
  | nil =>
    obtain ⟨found, hfound, rfl⟩ := gives_baseRecords.mp hrecords
    cases hfound
    obtain rfl := gives_pure.mp hitems
    exact ⟨[], .refl _, List.nodup_nil, by simp⟩
  | other hid hrest ih =>
    obtain ⟨found, hfound, rfl⟩ := gives_baseRecords.mp hrecords
    cases hfound with
    | cons hfirst hothers =>
      obtain rfl := Option.mem_unique hfirst hid
      exact ih hmembers hnames (gives_baseRecords.mpr ⟨_, hothers, rfl⟩) hitems
  | @base b rest id d r above others hid hd hkind habove hrest ihabove ihrest =>
    obtain ⟨found, hfound, rfl⟩ := gives_baseRecords.mp hrecords
    cases hfound with
    | cons hfirst hothers =>
      obtain rfl := Option.mem_unique hfirst hid
      change (collect (flattenFrom nested fuel) (id :: _)).Gives env scope items at hitems
      simp only [collect, gives_bind, gives_pure] at hitems
      obtain ⟨first, hfirst, next, hnext, rfl⟩ := hitems
      cases fuel with
      | zero => simp [flattenFrom] at hfirst
      | succ fuel =>
        simp only [flattenFrom, gives_bind, gives_symbols, exists_eq_left, gives_decl, exists_found hd,
          hkind, gives_pure] at hfirst
        obtain ⟨inner, hinner, inherited, hinherited, own, hown, rfl⟩ := hfirst
        simp only [List.forall_mem_append, List.forall_mem_cons] at hmembers
        rw [List.map_append, List.map_cons, List.nodup_append, List.nodup_cons] at hnames
        obtain ⟨hnamesAbove, ⟨hname, hnamesRest⟩, hapart⟩ := hnames
        have hmixes := (ihabove hmembers.1 hnamesAbove hinner hinherited).append
          ((emitMembers_names hown hmembers.2.1).append
            (ihrest hmembers.2.2 hnamesRest (gives_baseRecords.mpr ⟨_, hothers, rfl⟩) hnext) ?_) ?_
        · simpa [dataNames_append] using hmixes
        · simpa using hname
        · intro name habove hrest
          obtain ⟨record, hrecord, rfl⟩ := List.mem_map.mp habove
          exact hapart _ (List.mem_map_of_mem hrecord) (env.symbols.name record) (by simpa using hrest) rfl

variable {settings : Settings} {ast : Native.Ast} {members : List Member} {chain : List DeclId}

theorem anonymousField_of_mem (hs : env.symbols.Describes env.ast settings)
    (h : name ∈ anonymousNames env record) :
    ∃ numbered position, name = anonymousField numbered position := by
  obtain ⟨id, -, h⟩ := List.mem_filterMap.mp h
  unfold anonymousName? at h
  split at h
  · obtain ⟨member, hmember, rfl⟩ := Option.map_eq_some_iff.mp h
    obtain ⟨_, _, -, -, position, -, hfield⟩ := hs.mem_anonymous_iff.mp (mem_of_lookup hmember)
    exact ⟨_, position, hfield⟩
  · cases h

/-- **Which flattened structs have distinct fields**: those whose anonymous members have distinct names. An
anonymous member of a base is not told apart from one of a record derived from it. -/
theorem flattened_names_distinct_iff (hprepare : prepare settings ast = .ok env)
    (hstruct : IsStructOf env record members) (hpolymorphic : env.symbols.isPolymorphic record = true)
    (hd : env.ast.decl? record = some d) (hkind : d.kind = .record r) (hchain : Flattens env r.bases chain)
    (hmembers : ∀ id ∈ chain ++ [record], (membersIn env id).Nodup)
    (hrecords : (chain.map env.symbols.name).Nodup)
    (hfields : ((chain ++ [record]).flatMap (fieldNames env)).Nodup)
    (hordinary : ∀ name ∈ (chain ++ [record]).flatMap (fieldNames env), IsOrdinaryName name) :
    (dataNames members).Nodup ↔ ((chain ++ [record]).flatMap (anonymousNames env)).Nodup := by
  have hs := Symbols.describes_of_prepare hprepare
  obtain ⟨d', r', depth, scope, inherited, own, hd', hkind', -, hinherited, hown, -, hdata⟩ := hstruct.cases
  obtain rfl := Option.mem_unique hd' hd
  obtain rfl : r' = r := Native.DeclKind.record.inj (hkind'.symm.trans hkind)
  rcases emitBases_cases hinherited with ⟨-, records, flat, methods, hbases, hflat, -, rfl⟩ | ⟨hplain, -⟩
  · have hnames : dataNames members = "lpVtbl" :: (dataNames flat.fields ++ dataNames own.fields) := by
      rw [dataNames, hdata, RecordItems.data_append, RecordItems.data_append,
        show ({ methods := methods } : RecordItems).data = [] from rfl, List.append_nil, List.append_assoc,
        List.filterMap_append, List.filterMap_append]
      rfl
    rw [hnames]
    simp only [List.forall_mem_append, List.forall_mem_singleton] at hmembers
    have hmixes := (flattenFrom_names hchain hmembers.1 hrecords hbases hflat).append
      (emitMembers_names hown hmembers.2) (by simp)
    simp only [List.flatMap_append, List.flatMap_singleton] at hfields hordinary ⊢
    refine hmixes.nodup_iff hfields hordinary fun name hname => ?_
    simp only [List.mem_append, List.mem_flatMap] at hname
    rcases hname with ⟨base, -, hname⟩ | hname
    · exact anonymousField_of_mem hs hname
    · exact anonymousField_of_mem hs hname
  · rw [hpolymorphic] at hplain
    cases hplain

theorem circle_names_distinct :
    ∃ members, IsStructOf shapes ⟨8⟩ members ∧ (dataNames members).Nodup := by
  have hcircle : IsStructOf shapes ⟨8⟩ _ :=
    isStructOf_of_emitRecord ⟨_, _, rfl, rfl, rfl⟩ (gives_of_run (c := {}) rfl)
  have hchain : Flattens shapes [{ type := ⟨6⟩ }] [⟨0⟩, ⟨5⟩] :=
    @Flattens.base shapes _ [] ⟨5⟩ _ _ [⟨0⟩] [] rfl rfl rfl
      (@Flattens.base shapes _ [] ⟨0⟩ _ _ [] [] rfl rfl rfl .nil .nil) .nil
  refine ⟨_, hcircle, (flattened_names_distinct_iff (show prepare {} shapes.ast = .ok shapes from rfl)
    hcircle rfl rfl rfl hchain (by decide) (by decide) (by decide) ?_).mpr
    (by decide)⟩
  have hnames : ([⟨0⟩, ⟨5⟩] ++ [⟨8⟩] : List DeclId).flatMap (fieldNames shapes) = ["at", "next", "radius"] := by
    decide
  have hletters : ∀ name ∈ ["at", "next", "radius"],
      name.toList.head? ≠ some '_' ∧ name ≠ "lpVtbl" ∧ name.toList.head? ≠ some 'A' := by
    decide
  rw [hnames]
  intro name hname
  obtain ⟨hunderscore, hpointer, hcapital⟩ := hletters name hname
  exact ⟨hunderscore, hpointer, fun numbered position h => hcapital (h ▸ anonymousField_head numbered position)⟩

/-- A record with a vtable and an anonymous member, and one derived from it with another. -/
def figures : Env where
  ast :=
    { file := "nodes.h"
      topLevel := [⟨0⟩, ⟨4⟩]
      decls :=
        #[{ kind := .record { tag := .struct, members := [⟨1⟩, ⟨2⟩] }, name := "Shape" },
          { kind := .method { type := ⟨1⟩, isVirtual := true }, name := "area", parent := some ⟨0⟩ },
          { kind := .record { tag := .struct, isAnonymous := true, members := [⟨3⟩] }, parent := some ⟨0⟩ },
          { kind := .field { type := ⟨0⟩ }, name := "x", parent := some ⟨2⟩ },
          { kind := .record { tag := .struct, bases := [{ type := ⟨2⟩ }], members := [⟨5⟩] },
            name := "Circle" },
          { kind := .record { tag := .struct, isAnonymous := true, members := [⟨6⟩] }, parent := some ⟨4⟩ },
          { kind := .field { type := ⟨0⟩ }, name := "y", parent := some ⟨5⟩ }]
      types :=
        #[.ofBuiltin .int,
          { kind := .function { result := ⟨0⟩, params := [], convention := some .thisCall },
            spelling := "int ()" },
          { kind := .record ⟨0⟩, spelling := "Shape" }] }
  settings := {}
  symbols :=
    { names := #["Shape", "area", "_Anonymous_e__Struct", "x", "Circle", "_Anonymous_e__Struct", "y"]
      anonymous := [(⟨5⟩, ⟨⟨4⟩, "Anonymous"⟩), (⟨2⟩, ⟨⟨0⟩, "Anonymous"⟩)]
      namingTypedefs := []
      definitions := []
      shadowed := []
      globals := []
      vtables := [(⟨4⟩, .ok [⟨1⟩]), (⟨0⟩, .ok [⟨1⟩])] }

/-- `Circle` has two fields `Anonymous`, although no name is used twice in the tree. -/
theorem anonymous_members_share_name :
    prepare {} figures.ast = .ok figures ∧ figures.symbols.isPolymorphic ⟨4⟩ = true ∧
      Flattens figures [{ type := ⟨2⟩ }] [⟨0⟩] ∧
      ∃ members, IsStructOf figures ⟨4⟩ members ∧ dataNames members = ["lpVtbl", "Anonymous", "Anonymous"] := by
  have hcircle : IsStructOf figures ⟨4⟩ _ :=
    isStructOf_of_emitRecord ⟨_, _, rfl, rfl, rfl⟩ (gives_of_run (c := {}) rfl)
  exact ⟨rfl, rfl, @Flattens.base figures _ [] ⟨0⟩ _ _ [] [] rfl rfl rfl .nil .nil, _, hcircle, rfl⟩

end Interop.Binding
