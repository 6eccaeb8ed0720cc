import Interop.Proofs.Completion.Lookups
import Interop.Proofs.VtableSlots

/-!
# The table of symbols of an intact tree

The table of symbols reads the tree once. Every part of it is found; the walk for vtables from a record to
its base ends at a record that is pending already if not before (`completes_build`). What emission needs
to know of the finished table is `Env.Intact`.
-/

namespace Interop.Binding

open Native Relation Result

variable {ast : Ast} {id : DeclId} {settings : Settings}

theorem completes_anonymousMembersOf (record : DeclId) (hmembers : ∀ id ∈ members, ast.inRange (.decl id)) :
    Completes (anonymousMembersOf ast record members) := by
  simp only [anonymousMembersOf, completes_bind]
  refine ⟨completes_filterMapM fun id hid => ?_, fun anonymous _ => completes_mapM fun entry _ => ?_⟩
  · simp only [completes_bind, completes_found]
    exact ⟨Ast.isSome_decl?.mpr (hmembers id hid), fun _ _ => completes_pure⟩
  · split
    · exact completes_pure
    · exact completes_reject

theorem isSome_flattenScope_succ (hids : ∀ id ∈ ids, ast.inRange (.decl id))
    (hinner : ∀ id ∈ ids, ∀ d inner, ast.decl? id = some d → (d.kind = .scope inner ∨ ∃ l, d.kind =
      .linkageSpec l inner) → (flattenScope? ast fuel inner).isSome) :
    (flattenScope? ast (fuel + 1) ids).isSome := by
  simp only [flattenScope?, isSome_bind]
  refine ⟨isSome_mapM fun id hid => ?_, fun _ _ => rfl⟩
  simp only [isSome_bind]
  refine ⟨Ast.isSome_decl?.mpr (hids id hid), fun d hd => ?_⟩
  split
  · rename_i inner hkind
    exact hinner id hid d inner hd (.inl hkind)
  · rename_i l inner hkind
    exact hinner id hid d inner hd (.inr ⟨l, hkind⟩)
  · rfl

theorem inRange_flattenScope (h : flattenScope? ast fuel ids = some flat) :
    ∀ id ∈ flat, ast.inRange (.decl id) := by
  induction fuel generalizing ids flat with
  | zero => cases h
  | succ fuel ih =>
    simp only [flattenScope?, bind, pure, Option.bind_eq_some_iff, Option.some.injEq] at h
    obtain ⟨parts, hparts, rfl⟩ := h
    intro id hid
    obtain ⟨part, hpart, hid⟩ := List.mem_flatten.mp hid
    obtain ⟨outer, -, hpart⟩ := exists_left_of_forall₂ (mapM_eq_some.mp hparts) hpart
    obtain ⟨d, hd, hpart⟩ := Option.bind_eq_some_iff.mp hpart
    split at hpart
    · exact ih hpart id hid
    · exact ih hpart id hid
    · cases hpart
      obtain rfl := List.mem_singleton.mp hid
      exact Ast.inRange_of_decl? hd

theorem isSome_declType (hid : ast.inRange (.decl id)) : (ast.declType? id).isSome := by
  simp only [Ast.declType?, isSome_bind]
  refine ⟨Ast.isSome_decl?.mpr hid, fun d _ => ?_⟩
  split <;> rfl

theorem inRange_of_lookup_namingTypedefs (h : namingTypedefs? ast = some entries)
    (hlookup : entries.lookup id = some typedef) : ast.inRange (.decl typedef) := by
  simp only [namingTypedefs?, bind, pure, Option.bind_eq_some_iff, Option.some.injEq] at h
  obtain ⟨found, hfound, rfl⟩ := h
  obtain ⟨o, ho, hsome⟩ := List.mem_filterMap.mp (mem_of_lookup hlookup)
  obtain rfl : o = some (id, typedef) := hsome
  obtain ⟨⟨id', d⟩, hd, h⟩ := exists_left_of_forall₂ (mapM_eq_some.mp hfound) ho
  obtain ⟨target, -, h⟩ := Option.bind_eq_some_iff.mp h
  cases target with
  | none => cases h
  | some target =>
    cases h
    exact Ast.inRange_of_decl? (Ast.mem_declsWithIds.mp hd)

def SlotsInRange (ast : Ast) (result : LayoutResult) : Prop :=
  ∀ layout, result = .ok layout → ∀ id ∈ layout, ast.inRange (.decl id)

theorem slotsInRange_error (ast : Ast) (u : Unsupported) : SlotsInRange ast (.error u) := by
  rintro _ ⟨⟩

theorem slotsInRange_ok (h : ∀ id ∈ layout, ast.inRange (.decl id)) : SlotsInRange ast (.ok layout) := by
  rintro _ ⟨⟩
  exact h

theorem slotsInRange_nil (ast : Ast) : SlotsInRange ast (.ok []) :=
  slotsInRange_ok (by simp)

/-! ## Vtables -/

namespace Resolved

variable {id : DeclId} {members pending : List DeclId} {known : Layouts} {inherited : LayoutResult}

variable {ast : Ast} (hr : Resolved ast)

include hr

theorem inRange_declType (h : ast.declType? id = some (some type)) : ast.inRange (.type type) := by
  simp only [Ast.declType?, bind, Option.bind_eq_some_iff] at h
  obtain ⟨d, hd, h⟩ := h
  refine hr.valid.ofDecl hd ?_
  split at h <;> cases h <;> rename_i hkind <;> simp [hkind]

theorem isSome_parameterSpellings (hid : ast.inRange (.decl id)) : (parameterSpellings? ast id).isSome := by
  simp only [parameterSpellings?, isSome_bind]
  refine ⟨isSome_declType hid, fun type htype => ?_⟩
  split
  · rfl
  · have hrange := hr.inRange_declType htype
    simp only [isSome_bind]
    refine ⟨Ast.isSome_type?.mpr hrange, fun t ht => ?_⟩
    split
    · refine isSome_mapM fun p hp => ?_
      have hparam : ast.inRange (.type p) := hr.valid.ofType ht (by simp [*])
      simp only [isSome_bind]
      refine ⟨hr.isSome_canonical hparam, fun target htarget => ?_⟩
      exact ⟨Ast.isSome_type?.mpr (hr.inRange_canonical hparam htarget), fun _ _ => rfl⟩
    · rfl

theorem isSome_overrides (hderived : ast.inRange (.decl derived)) (hbase : ast.inRange (.decl base)) :
    (overrides? ast derived base).isSome := by
  simp only [overrides?, isSome_bind]
  refine ⟨Ast.isSome_decl?.mpr hderived, fun d _ => ⟨Ast.isSome_decl?.mpr hbase, fun b _ => ?_⟩⟩
  split
  · rfl
  · simp only [isSome_bind]
    exact ⟨hr.isSome_parameterSpellings hderived, fun _ _ =>
      ⟨hr.isSome_parameterSpellings hbase, fun _ _ => rfl⟩⟩

theorem exists_place (hmethod : ast.inRange (.decl method))
    (hlayout : ∀ id ∈ layout, ast.inRange (.decl id)) :
    ∃ layout', place? ast method layout = some layout' ∧ ∀ id ∈ layout', ast.inRange (.decl id) := by
  induction layout with
  | nil => exact ⟨[method], rfl, by simpa using hmethod⟩
  | cons slot rest ih =>
    have hslot := hlayout slot (.head _)
    have hrest : ∀ id ∈ rest, ast.inRange (.decl id) := fun id hid => hlayout id (.tail _ hid)
    obtain ⟨answer, hanswer⟩ := Option.isSome_iff_exists.mp (hr.isSome_overrides hmethod hslot)
    simp only [place?, hanswer, bind, Option.bind_some]
    cases answer with
    | true =>
      refine ⟨method :: rest, rfl, ?_⟩
      rw [List.forall_mem_cons]
      exact ⟨hmethod, hrest⟩
    | false =>
      obtain ⟨placed, hplaced, hrange⟩ := ih hrest
      refine ⟨slot :: placed, by simp [hplaced], ?_⟩
      rw [List.forall_mem_cons]
      exact ⟨hslot, hrange⟩

theorem exists_placeMembers (hlayout : ∀ id ∈ layout, ast.inRange (.decl id))
    (hmembers : ∀ id ∈ members, ast.inRange (.decl id)) :
    ∃ result, placeMembers? ast layout members = some result ∧ SlotsInRange ast result := by
  induction members generalizing layout with
  | nil => exact ⟨.ok layout, rfl, slotsInRange_ok hlayout⟩
  | cons member rest ih =>
    have hmember := hmembers member (.head _)
    have hrest : ∀ id ∈ rest, ast.inRange (.decl id) := fun id hid => hmembers id (.tail _ hid)
    obtain ⟨d, hd⟩ := Option.isSome_iff_exists.mp (Ast.isSome_decl?.mpr hmember)
    simp only [placeMembers?, hd, bind, Option.bind_some]
    split
    · split
      · obtain ⟨placed, hplaced, hrange⟩ := hr.exists_place hmember hlayout
        simp only [hplaced, Option.bind_some]
        exact ih hrange hrest
      · exact ih hlayout hrest
    · exact ⟨_, rfl, slotsInRange_error ast _⟩
    · exact ih hlayout hrest

theorem exists_placeOn (hinherited : SlotsInRange ast inherited)
    (hmembers : ∀ id ∈ members, ast.inRange (.decl id)) :
    ∃ result, placeOn? ast members inherited = some result ∧ SlotsInRange ast result := by
  cases inherited with
  | error u => exact ⟨.error u, rfl, slotsInRange_error ast u⟩
  | ok layout => exact hr.exists_placeMembers (hinherited layout rfl) hmembers

theorem isSome_baseRecord (hd : ast.decl? id = some d) (hkind : d.kind = .record r) :
    (baseRecord? ast d r).isSome := by
  unfold baseRecord?
  split
  · rfl
  · rename_i base hbases
    have hbase : ast.inRange (.type base.type) :=
      hr.valid.ofDecl hd (by simp [*])
    split
    · rfl
    · simp only [isSome_bind]
      refine ⟨hr.isSome_recordOf hbase, fun record _ => ?_⟩
      split
      · rfl
      · exact isSome_bind.mpr ⟨Ast.isSome_type?.mpr hbase, fun _ _ => rfl⟩
  · rfl

theorem exists_entered {record : DeclId} (hmembers : ∀ id ∈ members, ast.inRange (.decl id))
    (hinherited : SlotsInRange ast inherited) (hknown : ∀ entry ∈ known, SlotsInRange ast entry.2) :
    ∃ result known', ((placeOn? ast members inherited).bind fun result =>
        pure (result, (record, result) :: known)) = some (result, known') ∧
      SlotsInRange ast result ∧ ∀ entry ∈ known', SlotsInRange ast entry.2 := by
  obtain ⟨result, hresult, hrange⟩ := hr.exists_placeOn hinherited hmembers
  refine ⟨result, (record, result) :: known, by simp [hresult], hrange, ?_⟩
  rw [List.forall_mem_cons]
  exact ⟨hrange, hknown⟩

omit hr in
theorem length_pending_le (hnodup : pending.Nodup) (hpending : ∀ id ∈ pending, ast.inRange (.decl id)) :
    pending.length ≤ ast.decls.size := by
  have hinj : DeclId.index.Injective := fun ⟨_⟩ ⟨_⟩ h => congrArg DeclId.mk h
  have hsubset : pending.map DeclId.index ⊆ List.range ast.decls.size := by
    intro i hi
    obtain ⟨id, hid, rfl⟩ := List.mem_map.mp hi
    simpa [Ast.inRange] using hpending id hid
  simpa using (List.subperm_of_subset (hnodup.map hinj) hsubset).length_le

theorem exists_layOut {fuel : Nat} (hknown : ∀ entry ∈ known, SlotsInRange ast entry.2)
    (hnodup : pending.Nodup) (hpending : ∀ id ∈ pending, ast.inRange (.decl id))
    (hfuel : ast.decls.size < fuel + pending.length) (hid : ast.inRange (.decl id)) :
    ∃ result known', layOut? ast (definitionIn ast) fuel pending known id = some (result, known') ∧
      SlotsInRange ast result ∧ ∀ entry ∈ known', SlotsInRange ast entry.2 := by
  induction fuel generalizing pending known id with
  | zero =>
    have := length_pending_le hnodup hpending
    omega
  | succ fuel ih =>
    have hrecord := inRange_definitionIn hid
    obtain ⟨d, hd⟩ := Option.isSome_iff_exists.mp (Ast.isSome_decl?.mpr hrecord)
    simp only [layOut?]
    split
    · rename_i done hdone
      exact ⟨done, known, rfl, hknown (definitionIn ast id, done) (mem_of_lookup hdone), hknown⟩
    · simp only [hd, bind, Option.bind_some]
      split
      · exact ⟨_, known, rfl, slotsInRange_error ast _, hknown⟩
      · rename_i hnew
        split
        · rename_i r hkind
          have hmembers : ∀ member ∈ r.members, ast.inRange (.decl member) := fun member hmember =>
            hr.valid.ofDecl hd (by simp [*])
          obtain ⟨base, hbase⟩ := Option.isSome_iff_exists.mp (hr.isSome_baseRecord hd hkind)
          simp only [hbase, Option.bind_some]
          split
          · exact hr.exists_entered hmembers (slotsInRange_error ast _) hknown
          · exact hr.exists_entered hmembers (slotsInRange_nil ast) hknown
          · rename_i base
            obtain ⟨b, -, hb⟩ := Vtable.baseRecord_eq_some hbase
            obtain ⟨inherited, known', hinherited, hslots, hknown'⟩ :=
              @ih base (definitionIn ast id :: pending) known hknown
                (List.nodup_cons.mpr ⟨fun hmem => hnew (List.contains_iff_mem.mpr hmem), hnodup⟩)
                (List.forall_mem_cons.mpr ⟨hrecord, hpending⟩)
                (by rw [List.length_cons]; omega) (hr.valid.ofRecordOf hb)
            simp only [hinherited, Option.bind_some]
            exact hr.exists_entered hmembers hslots hknown'
        · refine ⟨.ok [], (definitionIn ast id, .ok []) :: known, rfl, slotsInRange_nil ast, ?_⟩
          rw [List.forall_mem_cons]
          exact ⟨slotsInRange_nil ast, hknown⟩

theorem exists_layOutAll {ids : List DeclId} (hids : ∀ id ∈ ids, ast.inRange (.decl id))
    (hknown : ∀ entry ∈ known, SlotsInRange ast entry.2) :
    ∃ known', ids.foldlM (fun known id => do
        return (← layOut? ast (definitionIn ast) (ast.decls.size + 1) [] known id).2) known =
      some known' ∧ ∀ entry ∈ known', SlotsInRange ast entry.2 := by
  induction ids generalizing known with
  | nil => exact ⟨known, rfl, hknown⟩
  | cons id ids ih =>
    obtain ⟨result, known₁, hlay, -, hknown₁⟩ :=
      @exists_layOut id [] known _ hr (ast.decls.size + 1) hknown List.nodup_nil (by simp) (by simp)
        (hids id (.head _))
    simp only [List.foldlM_cons, hlay, bind, Option.bind_some]
    exact ih (fun id hid => hids id (.tail _ hid)) hknown₁

omit hr in
theorem inRange_of_mem_recordDefinitions :
    ∀ id ∈ ast.declsWithIds.filterMap (fun (id, d) =>
    match d.kind with
    | .record r => if r.isDefinition then some id else none
    | _ => none), ast.inRange (.decl id) := by
  intro id hid
  obtain ⟨⟨id', d⟩, hmem, hid⟩ := List.mem_filterMap.mp hid
  have hd := Ast.mem_declsWithIds.mp hmem
  dsimp only at hid
  split at hid
  · split at hid
    · cases hid
      exact Ast.inRange_of_decl? hd
    · cases hid
  · cases hid

theorem exists_vtables :
    ∃ table, vtables? ast (definitionIn ast) = some table ∧ ∀ entry ∈ table, SlotsInRange ast entry.2 := by
  have hnone : ∀ entry ∈ ([] : Layouts), SlotsInRange ast entry.2 := by simp
  obtain ⟨known, hknown, hslots⟩ := hr.exists_layOutAll inRange_of_mem_recordDefinitions hnone
  refine ⟨known.filter fun entry => !isEmptyLayout entry.2, ?_, fun entry hentry => ?_⟩
  · exact congrArg
      (fun o => o.bind fun known => some (known.filter fun entry => !isEmptyLayout entry.2)) hknown
  · exact hslots entry (List.mem_filter.mp hentry).1

end Resolved

namespace Intact

variable {id : DeclId} {unnamed : Unnamed}

variable {ast : Ast} (hi : Intact ast)

include hi

/-! ## The table of symbols -/

theorem isSome_namedByTypedef (hd : ast.decl? id = some d) : (namedByTypedef? ast d).isSome := by
  simp only [namedByTypedef?]
  split
  · simp only [isSome_bind]
    refine ⟨Ast.isSome_type?.mpr (hi.valid.ofDecl hd (by simp [*])), fun t ht => ?_⟩
    split
    · rename_i target hnamed
      have htarget := hi.valid.ofType ht (mem_refs_of_directlyNamed hnamed)
      exact isSome_bind.mpr ⟨Ast.isSome_decl?.mpr htarget, fun _ _ => rfl⟩
    · rfl
  · rfl

theorem isSome_namingTypedefs : (namingTypedefs? ast).isSome := by
  simp only [namingTypedefs?, isSome_bind]
  refine ⟨isSome_mapM fun (id, d) hmem => ?_, fun _ _ => rfl⟩
  exact isSome_bind.mpr ⟨hi.isSome_namedByTypedef (Ast.mem_declsWithIds.mp hmem), fun _ _ => rfl⟩

theorem completes_anonymousMembers : Completes (anonymousMembers ast) := by
  simp only [anonymousMembers, completes_bind]
  refine ⟨completes_mapM fun entry hmem => ?_, fun _ _ => completes_pure⟩
  obtain ⟨id, d⟩ := entry
  have hd := Ast.mem_declsWithIds.mp hmem
  dsimp only
  split
  · exact completes_anonymousMembersOf id fun member hmember =>
      hi.valid.ofDecl hd (by simp [*])
  · exact completes_pure

theorem isSome_namesRecord (record : DeclId) (hfuel : ast.types.size ≤ fuel)
    (htype : ast.inRange (.type type)) : (namesRecord? ast record fuel type).isSome := by
  refine hi.type_induction ?_ hfuel htype
  intro fuel type htype ih
  simp only [namesRecord?, isSome_bind]
  refine ⟨hi.isSome_canonicalKind htype, fun kind hkind => ?_⟩
  split
  · rfl
  · rfl
  · exact ih _ (Ast.chain_of_canonicalKind? hkind (by simp))
  · rfl

theorem isSome_fieldOfRecord (record : DeclId) (hmembers : ∀ id ∈ members, ast.inRange (.decl id)) :
    (fieldOfRecord? ast record members).isSome := by
  induction members with
  | nil => rfl
  | cons member rest ih =>
    have hrest := ih fun id hid => hmembers id (.tail _ hid)
    simp only [fieldOfRecord?, isSome_bind]
    refine ⟨Ast.isSome_decl?.mpr (hmembers member (.head _)), fun d hd => ?_⟩
    split
    · rename_i f hkind
      have htype := hi.valid.ofDecl hd (r := .type f.type) (by simp [hkind])
      simp only [isSome_bind]
      refine ⟨hi.isSome_namesRecord record (Nat.le_succ _) htype, fun found _ => ?_⟩
      split
      · rfl
      · exact hrest
    · exact hrest

theorem isSome_typeName (settings : Settings) (hd : ast.decl? id = some d) (suffix : String)
    (hunnamed : ∀ typedef, unnamed.typedefs.lookup id = some typedef → ast.inRange (.decl typedef)) :
    (typeName? ast settings unnamed id d suffix).isSome := by
  simp only [typeName?]
  split
  · rfl
  · split
    · rename_i typedef hlookup
      exact isSome_bind.mpr ⟨Ast.isSome_decl?.mpr (hunnamed typedef hlookup), fun _ _ => rfl⟩
    · split
      · rfl
      · split
        · rename_i parent hparent
          simp only [isSome_bind]
          refine ⟨isSome_recordMembers (hi.valid.parent hd hparent), fun members hmembers => ?_⟩
          refine ⟨hi.isSome_fieldOfRecord id (hi.inRange_recordMembers hmembers), fun field _ => ?_⟩
          split <;> rfl
        · rfl

theorem isSome_parameterPosition (hd : ast.decl? id = some d) : (parameterPosition? ast id d).isSome := by
  simp only [parameterPosition?]
  split
  · rfl
  · rename_i parent hparent
    exact isSome_bind.mpr
      ⟨Ast.isSome_decl?.mpr (hi.valid.parent hd hparent), fun _ _ => rfl⟩

theorem isSome_declName (settings : Settings) (hd : ast.decl? id = some d)
    (hunnamed : ∀ typedef, unnamed.typedefs.lookup id = some typedef → ast.inRange (.decl typedef)) :
    (declName? ast settings unnamed id d).isSome := by
  simp only [declName?]
  split
  · exact hi.isSome_typeName settings hd _ hunnamed
  · exact hi.isSome_typeName settings hd _ hunnamed
  · split
    · exact isSome_bind.mpr ⟨hi.isSome_parameterPosition hd, fun _ _ => rfl⟩
    · rfl
  all_goals rfl

theorem isSome_topLevel : (topLevel? ast).isSome := by
  refine isSome_flattenScope_succ (fun id hid => hi.valid.topLevel hid) ?_
  intro id hid
  -- The walk goes from a namespace to what it lists, so that is what holds of every namespace.
  refine decl_induction hi.acyclic.scopes (inRange_of_scopeStep hi.valid) ?_ (Nat.le_refl _)
    (hi.valid.topLevel hid)
  intro fuel id hid ih d inner hd hkind
  have hstep : ∀ b ∈ inner, ast.ScopeStep id b := by
    intro b hb
    rcases hkind with hkind | ⟨l, hkind⟩
    · exact ⟨d, hd, .inl ⟨inner, hkind, hb⟩⟩
    · exact ⟨d, hd, .inr ⟨l, inner, hkind, hb⟩⟩
  exact isSome_flattenScope_succ (fun b hb => inRange_of_scopeStep hi.valid id b (hstep b hb))
    fun b hb => ih b (hstep b hb)

theorem completes_build (settings : Settings) : Completes (Symbols.build ast settings) := by
  simp only [Symbols.build, completes_bind, completes_found]
  refine ⟨hi.isSome_namingTypedefs, fun naming hnaming => ?_⟩
  refine ⟨hi.completes_anonymousMembers, fun anonymous _ => ?_⟩
  refine ⟨isSome_mapM fun (id, d) hmem => ?_, fun names _ => ⟨hi.isSome_topLevel, fun top _ => ?_⟩⟩
  · exact hi.isSome_declName settings (Ast.mem_declsWithIds.mp hmem) fun typedef htypedef =>
      inRange_of_lookup_namingTypedefs (found_eq_ok.mp hnaming) htypedef
  · obtain ⟨table, htable, -⟩ := hi.resolved.exists_vtables
    exact ⟨Option.isSome_iff_exists.mpr ⟨table, htable⟩, fun _ _ => completes_pure⟩

end Intact

/-! ## What emission reads -/

/-- An intact tree together with symbols that only name declarations of it. -/
structure Env.Intact (env : Env) : Prop where
  tree : Binding.Intact env.ast
  definition : ∀ id, env.symbols.definition id = definitionIn env.ast id
  names_size : env.symbols.names.size = env.ast.decls.size
  namingTypedef : ∀ id typedef, env.symbols.namingTypedef? id = some typedef →
    env.ast.inRange (.decl typedef)
  anonymous : ∀ id member, env.symbols.anonymous? id = some member →
    env.ast.MemberStep member.enclosing id
  vtable : ∀ id layout, env.symbols.vtable? id = some (.ok layout) →
    ∀ slot ∈ layout, env.ast.inRange (.decl slot)

theorem namingTypedefs_of_build (h : Symbols.build ast settings = .ok s) :
    namingTypedefs? ast = some s.namingTypedefs ∧ s.names.size = ast.decls.size := by
  simp only [Symbols.build, bind_eq_ok, pure_eq_ok, found_eq_ok] at h
  obtain ⟨naming, hnaming, _, -, names, hnames, _, -, _, -, rfl⟩ := h
  refine ⟨hnaming, ?_⟩
  simpa [Ast.declsWithIds] using (mapM_eq_some.mp hnames).length_eq.symm

theorem Intact.env (hi : Intact ast) {env : Env} (h : prepare settings ast = .ok env) : env.Intact := by
  obtain ⟨-, symbols, hbuild, rfl⟩ := Symbols.prepare_eq_ok_iff.mp h
  have hs := Symbols.build_describes hbuild
  obtain ⟨hnaming, hsize⟩ := namingTypedefs_of_build hbuild
  have hdefinition := hs.definition_eq
  obtain ⟨table, htable, hslots⟩ := hi.resolved.exists_vtables
  have hvtables : symbols.vtables = table := by
    have hv := hs.vtables
    rw [hdefinition, htable] at hv
    exact (Option.some.inj hv).symm
  refine ⟨hi, congrFun hdefinition, hsize, ?_, ?_, ?_⟩
  · exact fun id typedef h => inRange_of_lookup_namingTypedefs hnaming h
  · intro id member hmember
    obtain ⟨⟨d, r, hd, hkind, hmem⟩, -⟩ := hs.anonymous_mem hmember
    exact ⟨d, r, hd, hkind, hmem⟩
  · intro id layout hlayout
    exact hslots (symbols.definition id, .ok layout) (hvtables ▸ mem_of_lookup hlayout) layout rfl

end Interop.Binding
