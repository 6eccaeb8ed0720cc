import Interop.Binding.Snippet
import Interop.Proofs.Partial

/-!
# What the table of symbols says

The table is built once for a tree and read everywhere else. `Symbols.Describes` states what its
entries mean for the declarations of the tree, so that no later proof opens `Symbols.build`. A record
is reached through its definition, and looking for the definition of a definition changes nothing.
-/

namespace Interop.Native.Ast

theorem mem_declsWithIds {ast : Ast} {id : DeclId} : (id, d) ∈ ast.declsWithIds ↔ ast.decl? id = some d := by
  obtain ⟨i⟩ := id
  simp only [declsWithIds, decl?, List.mem_map, Prod.exists, Prod.mk.injEq, DeclId.mk.injEq,
    List.mem_zipIdx_iff_getElem?, Array.getElem?_toList]
  constructor
  · rintro ⟨d', j, hj, rfl, rfl⟩
    exact hj
  · intro h
    exact ⟨d, i, h, rfl, rfl⟩

end Interop.Native.Ast

namespace Interop.Binding

open Native

theorem record_unique {ast : Ast} {id : DeclId} (hd : ast.decl? id = some d) (hkind : d.kind = .record r)
    (hd' : ast.decl? id = some d') (hkind' : d'.kind = .record r') : d = d' ∧ r = r' := by
  obtain rfl := Option.mem_unique hd hd'
  exact ⟨rfl, DeclKind.record.inj (hkind.symm.trans hkind')⟩

namespace Symbols

variable {ast : Ast} {id : DeclId} {s : Symbols}

/-- What the entries of a table say about the declarations of a tree. -/
structure Describes (s : Symbols) (ast : Ast) (settings : Settings) : Prop where
  name : ∀ id d, ast.decl? id = some d →
    declName? ast settings ⟨s.namingTypedefs, s.anonymous⟩ id d = some (s.name id)
  anonymous : anonymousMembers ast = .ok s.anonymous
  definitions : s.definitions = definitionsOf ast
  globals : ∃ top, topLevel? ast = some top ∧ s.globals = top.filter (isFunctionOrVar ast)
  vtables : vtables? ast s.definition = some s.vtables

theorem build_describes (h : build ast settings = .ok s) : s.Describes ast settings := by
  simp only [build, bind_eq_ok, pure_eq_ok, found_eq_ok] at h
  obtain ⟨naming, -, anonymous, hanonymous, names, hnames, top, htop, vtables, hvtables, rfl⟩ := h
  refine ⟨fun id d hd => ?_, hanonymous, rfl, ⟨top, htop, rfl⟩, hvtables⟩
  have hentry : ast.declsWithIds[id.index]? = some (id, d) := by
    simp only [Ast.decl?] at hd
    simp [Ast.declsWithIds, hd]
  obtain ⟨hlength, hall⟩ := List.forall₂_iff_get.mp (mapM_eq_some.mp hnames)
  obtain ⟨hlt, hget⟩ := List.getElem?_eq_some_iff.mp hentry
  have hname := hall id.index hlt (hlength ▸ hlt)
  simp only [List.get_eq_getElem, hget] at hname
  simpa [Symbols.name, List.getElem?_eq_getElem (hlength ▸ hlt)] using hname

theorem prepare_eq_ok_iff :
    prepare settings ast = .ok env ↔ ast.firstMissing? = none ∧
      ∃ symbols, build ast settings = .ok symbols ∧ env = ⟨ast, settings.toEmissionSettings, symbols⟩ := by
  unfold prepare
  cases ast.firstMissing? with
  | some missing => simp [reject]
  | none => cases build ast settings <;> simp [bind, Except.bind, pure, Except.pure, eq_comm]

theorem describes_of_prepare (h : prepare settings ast = .ok env) :
    env.symbols.Describes env.ast settings := by
  obtain ⟨-, symbols, hbuild, rfl⟩ := prepare_eq_ok_iff.mp h
  exact build_describes hbuild

/-! ## Definitions of records -/

def IsRecordDefinition (ast : Ast) (id : DeclId) : Prop :=
  ∃ d r, ast.decl? id = some d ∧ d.kind = .record r ∧ r.isDefinition = true

theorem isRecordDefinition_of_mem {definition : DeclId} (h : (id, definition) ∈ definitionsOf ast) :
    IsRecordDefinition ast definition := by
  simp only [definitionsOf, List.mem_filterMap, Option.map_eq_some_iff, Prod.exists,
    Prod.mk.injEq, firstRecord?] at h
  obtain ⟨_, d, _, _, ⟨_, other, hfind, rfl⟩, rfl, rfl⟩ := h
  have hmem := List.mem_of_find?_eq_some hfind
  have hprop := List.find?_some hfind
  simp only [namedRecord?] at hprop
  split at hprop
  · rename_i r hr
    simp only [Bool.and_eq_true] at hprop
    split at hr
    · rename_i hkind
      split at hr
      · cases hr
      · cases hr
        exact ⟨other, r, Ast.mem_declsWithIds.mp hmem, hkind, hprop.1⟩
    · cases hr
  · cases hprop

theorem lookup_definitionsOf_eq_none (h : IsRecordDefinition ast id) :
    (definitionsOf ast).lookup id = none := by
  obtain ⟨d, r, hd, hkind, hdef⟩ := h
  rw [List.lookup_eq_none_iff]
  intro ⟨forward, definition⟩ hmem
  simp only [definitionsOf, forwardRecords, List.mem_filterMap, List.mem_filter,
    Option.map_eq_some_iff, Prod.exists, Prod.mk.injEq] at hmem
  obtain ⟨_, d', ⟨hd', hforward⟩, _, -, rfl, -⟩ := hmem
  simp only [bne_iff_ne, ne_eq]
  rintro rfl
  -- One declaration cannot be a definition and a forward declaration.
  obtain rfl := Option.mem_unique hd (Ast.mem_declsWithIds.mp hd')
  simp only [namedRecord?, hkind] at hforward
  split at hforward
  · rename_i r' hr'
    split at hr'
    · cases hr'
    · cases hr'
      simp [hdef] at hforward
  · cases hforward

namespace Describes

variable {s : Symbols}

theorem definition_of_isRecordDefinition (hs : s.Describes ast settings) {id : DeclId}
    (h : IsRecordDefinition ast id) : s.definition id = id := by
  simp [definition, hs.definitions, lookup_definitionsOf_eq_none h]

theorem definition_definition (hs : s.Describes ast settings) (id : DeclId) :
    s.definition (s.definition id) = s.definition id := by
  cases h : s.definitions.lookup id with
  | none => simp [definition, h]
  | some target =>
    have hmem : (id, target) ∈ definitionsOf ast := mem_of_lookup (hs.definitions ▸ h)
    have htarget : s.definition id = target := by simp [definition, h]
    rw [htarget]
    exact hs.definition_of_isRecordDefinition (isRecordDefinition_of_mem hmem)

end Describes

/-! ## Anonymous records -/

def anonymousAmong (ast : Ast) (members : List DeclId) : List DeclId :=
  members.filter fun id => (ast.decl? id).any isAnonymousRecord

theorem mem_anonymousAmong :
    id ∈ anonymousAmong ast members ↔
      id ∈ members ∧ ∃ d r, ast.decl? id = some d ∧ d.kind = .record r ∧ r.isAnonymous = true := by
  have hflag : ∀ d, isAnonymousRecord d = true ↔ ∃ r, d.kind = .record r ∧ r.isAnonymous = true := by
    intro d
    cases hkind : d.kind <;> simp [isAnonymousRecord, hkind]
  rw [anonymousAmong, List.mem_filter]
  refine and_congr_right fun _ => ?_
  cases ast.decl? id <;> simp [hflag]

theorem map_fst_of_filterMapM {members : List DeclId} {anonymous : List (DeclId × Decl)}
    (h : (members.filterMapM fun id => do
      let d ← found (ast.decl? id)
      return if isAnonymousRecord d then some (id, d) else none) = .ok anonymous) :
    anonymous.map Prod.fst = anonymousAmong ast members ∧ ∀ p ∈ anonymous, ast.decl? p.1 = some p.2 := by
  induction members generalizing anonymous with
  | nil =>
    obtain rfl := pure_eq_ok.mp h
    exact ⟨rfl, List.forall_mem_nil _⟩
  | cons id members ih =>
    simp only [List.filterMapM_cons, bind_eq_ok, found_eq_ok, pure_eq_ok] at h
    obtain ⟨_, ⟨d, hd, rfl⟩, h⟩ := h
    cases hanonymous : isAnonymousRecord d with
    | false =>
      simp only [hanonymous, Bool.false_eq_true, if_false] at h
      simpa [anonymousAmong, hd, hanonymous] using ih h
    | true =>
      simp only [hanonymous, if_true, bind_eq_ok, pure_eq_ok] at h
      obtain ⟨rest, hrest, rfl⟩ := h
      obtain ⟨hmap, hall⟩ := ih hrest
      exact ⟨by simpa [anonymousAmong, hd, hanonymous] using hmap, List.forall_mem_cons.mpr ⟨hd, hall⟩⟩

def anonymousEntry (ast : Ast) (record : DeclId) (members : List DeclId) (p : DeclId × Nat) :
    DeclId × AnonymousMember :=
  (p.1, ⟨record, anonymousField (1 < (anonymousAmong ast members).length) p.2⟩)

theorem anonymousMembersOf_eq (h : anonymousMembersOf ast record members = .ok entries) :
    entries = (anonymousAmong ast members).zipIdx.map (anonymousEntry ast record members) ∧
      ∀ id ∈ anonymousAmong ast members, ∃ d, ast.decl? id = some d ∧ d.parent = some record := by
  simp only [anonymousMembersOf, bind_eq_ok, mapM_eq_ok] at h
  obtain ⟨anonymous, hanonymous, h⟩ := h
  obtain ⟨hmap, hall⟩ := map_fst_of_filterMapM hanonymous
  have hlength : anonymous.length = (anonymousAmong ast members).length := by rw [← hmap, List.length_map]
  have h := h.imp (S := fun p entry => anonymousEntry ast record members (p.1.1, p.2) = entry ∧
      p.1.2.parent = some record) fun p entry hentry => by
    split at hentry
    · exact ⟨by simpa [anonymousEntry, ← hlength] using pure_eq_ok.mp hentry, ‹_›⟩
    · cases hentry
  constructor
  · rw [← hmap, List.zipIdx_map, List.map_map, ← List.forall₂_eq_eq_eq, List.forall₂_map_right_iff]
    exact h.flip.imp fun _ _ h => h.1.symm
  · rw [← hmap, List.forall_mem_map]
    intro p hp
    obtain ⟨position, hposition⟩ := List.getElem?_of_mem hp
    obtain ⟨_, -, -, hparent⟩ := exists_right_of_forall₂ h (List.mk_mem_zipIdx_iff_getElem?.mpr hposition)
    exact ⟨p.2, hall p hp, hparent⟩

theorem Describes.mem_anonymous_iff (hs : s.Describes ast settings) :
    (id, member) ∈ s.anonymous ↔ ∃ d r, ast.decl? member.enclosing = some d ∧ d.kind = .record r ∧
      ∃ position, (anonymousAmong ast r.members)[position]? = some id ∧
        member.field = anonymousField (1 < (anonymousAmong ast r.members).length) position := by
  have h := hs.anonymous
  simp only [anonymousMembers, bind_eq_ok, pure_eq_ok, mapM_eq_ok] at h
  obtain ⟨perRecord, hperRecord, hentries⟩ := h
  rw [← hentries, List.mem_reverse, List.mem_flatten]
  constructor
  · rintro ⟨entries, hmem, hid⟩
    obtain ⟨⟨record, d⟩, hrecord, hof⟩ := exists_left_of_forall₂ hperRecord hmem
    split at hof
    · rename_i r hkind
      rw [(anonymousMembersOf_eq hof).1] at hid
      obtain ⟨⟨id, position⟩, hposition, rfl, rfl⟩ := List.mem_map.mp hid
      exact ⟨d, r, Ast.mem_declsWithIds.mp hrecord, hkind, position,
        List.mk_mem_zipIdx_iff_getElem?.mp hposition, rfl⟩
    · obtain rfl := pure_eq_ok.mp hof
      cases hid
  · rintro ⟨d, r, hd, hkind, position, hposition, hfield⟩
    obtain ⟨entries, hmem, hof⟩ := exists_right_of_forall₂ hperRecord (Ast.mem_declsWithIds.mpr hd)
    simp only [hkind] at hof
    refine ⟨entries, hmem, ?_⟩
    rw [(anonymousMembersOf_eq hof).1]
    refine List.mem_map.mpr ⟨(id, position), List.mk_mem_zipIdx_iff_getElem?.mpr hposition, ?_⟩
    rw [anonymousEntry, ← hfield]

theorem Describes.anonymous_mem (hs : s.Describes ast settings) (hid : s.anonymous? id = some member) :
    (∃ d r, ast.decl? member.enclosing = some d ∧ d.kind = .record r ∧ id ∈ r.members) ∧
      ∃ d r, ast.decl? id = some d ∧ d.kind = .record r ∧ r.isAnonymous = true := by
  obtain ⟨d, r, hd, hkind, position, hposition, -⟩ := hs.mem_anonymous_iff.mp (mem_of_lookup hid)
  obtain ⟨hmem, hrecord⟩ := mem_anonymousAmong.mp (List.mem_of_getElem? hposition)
  exact ⟨⟨d, r, hd, hkind, hmem⟩, hrecord⟩

end Symbols

end Interop.Binding
