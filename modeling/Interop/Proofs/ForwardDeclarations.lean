import Interop.Proofs.Merging
import Interop.Proofs.RecordLayout
import Interop.Proofs.VtableOverrides

/-!
# Records that are declared first

A declaration of a record is matched with a definition of its name and its parent, and from then on stands
for it. The parent is a declaration, while C++ goes by scopes (`SameScope`): a namespace can be opened
several times, and a linkage block is no scope of its own. Where every namespace is opened once and there
are no linkage blocks (`OpenedOnce`) the two agree; elsewhere a definition can be missed.
-/

namespace Interop.Binding

open Native (Ast DeclId Decl)
open Emit
open Managed (Member Fragment)
open Symbols (IsRecordDefinition)
open Vtable (FirstBase firstBase_unique layoutOf DeclaresVirtual Refines Inherits exists_placed
  placeMembers_refines)

variable {ast : Ast} {settings : Settings} {s : Symbols} {id : DeclId} {d : Decl} {r : Native.Record}
  {layout : Layout} {x : DeclId × Decl}

/-! ## Records of one parent and name -/

def IsForward (ast : Ast) (id : DeclId) (d : Decl) : Prop :=
  ast.decl? id = some d ∧ d.name ≠ "" ∧ ∃ r, d.kind = .record r ∧ r.isDefinition = false

def IsRecordLike (ast : Ast) (d : Decl) (p : Native.Record → Bool) (id : DeclId) : Prop :=
  ∃ e r, ast.decl? id = some e ∧ e.kind = .record r ∧ p r = true ∧ e.parent = d.parent ∧ e.name = d.name

theorem IsRecordLike.exists_decl (h : IsRecordLike ast d p id) : ∃ e, ast.decl? id = some e := by
  obtain ⟨e, -, he, -⟩ := h
  exact ⟨e, he⟩

abbrev Defines (ast : Ast) (d : Decl) (id : DeclId) : Prop :=
  IsRecordLike ast d (·.isDefinition) id

theorem Defines.isRecordDefinition (h : Defines ast d id) : IsRecordDefinition ast id := by
  obtain ⟨e, r, he, hkind, hdef, -⟩ := h
  exact ⟨e, r, he, hkind, hdef⟩

theorem namedRecord?_eq_some_iff : namedRecord? d = some r ↔ d.kind = .record r ∧ d.name ≠ "" := by
  unfold namedRecord?
  split
  · rename_i r' hkind
    by_cases hname : d.name = "" <;> simp [hkind, hname]
  · rename_i hother
    simp only [reduceCtorEq, false_iff]
    exact fun h => hother r h.1

theorem mem_forwardRecords : (id, d) ∈ forwardRecords ast ↔ IsForward ast id d := by
  simp only [forwardRecords, List.mem_filter, Ast.mem_declsWithIds, IsForward]
  cases h : namedRecord? d with
  | none =>
    simp only [Bool.false_eq_true, and_false, false_iff, not_and, not_exists]
    intro _ hname r hkind
    rw [namedRecord?_eq_some_iff.mpr ⟨hkind, hname⟩] at h
    cases h
  | some r =>
    obtain ⟨hkind, hname⟩ := namedRecord?_eq_some_iff.mp h
    simp [hkind, hname]

theorem getElem?_declsWithIds {i : Nat} :
    ast.declsWithIds[i]? = some x ↔ x.1 = ⟨i⟩ ∧ ast.decl? x.1 = some x.2 := by
  obtain ⟨id, d⟩ := x
  simp only [Native.Ast.declsWithIds, Native.Ast.decl?, List.getElem?_map, List.getElem?_zipIdx,
    Array.getElem?_toList, Option.map_map, Option.map_eq_some_iff, Function.comp_apply, Prod.mk.injEq,
    Nat.zero_add]
  constructor
  · rintro ⟨d', hd', rfl, rfl⟩
    exact ⟨rfl, hd'⟩
  · rintro ⟨rfl, hd⟩
    exact ⟨d, hd, rfl, rfl⟩

section FirstRecord

variable {d : Decl} (hname : d.name ≠ "") {p : Native.Record → Bool}

include hname

theorem isRecordLike_iff (hx : ast.decl? x.1 = some x.2) :
    (match namedRecord? x.2 with
      | some r => p r && sameEntity d x.2
      | none => false) = true ↔ IsRecordLike ast d p x.1 := by
  have hlike : IsRecordLike ast d p x.1 ↔
      ∃ r, x.2.kind = .record r ∧ p r = true ∧ x.2.parent = d.parent ∧ x.2.name = d.name := by
    simp [IsRecordLike, hx]
  rw [hlike]
  cases h : namedRecord? x.2 with
  | none =>
    simp only [Bool.false_eq_true, false_iff]
    rintro ⟨r, hkind, -, -, hsame⟩
    rw [namedRecord?_eq_some_iff.mpr ⟨hkind, hsame ▸ hname⟩] at h
    cases h
  | some r =>
    obtain ⟨hkind, -⟩ := namedRecord?_eq_some_iff.mp h
    simp [hkind, sameEntity, @eq_comm _ d.parent, @eq_comm _ d.name]

theorem firstRecord?_eq_some_iff :
    firstRecord? ast d p = some id ↔
      IsRecordLike ast d p id ∧ ∀ j < id.index, ¬ IsRecordLike ast d p ⟨j⟩ := by
  simp only [firstRecord?, Option.map_eq_some_iff, List.find?_eq_some_iff_getElem, Bool.not_eq_true']
  constructor
  · rintro ⟨x, ⟨hx, i, hi, hentry, hbefore⟩, rfl⟩
    obtain ⟨hid, hd⟩ := getElem?_declsWithIds.mp (List.getElem?_eq_some_iff.mpr ⟨hi, hentry⟩)
    refine ⟨(isRecordLike_iff hname hd).mp hx, fun j hj hlike => ?_⟩
    rw [hid] at hj
    obtain ⟨hid', hd'⟩ := getElem?_declsWithIds.mp (List.getElem?_eq_getElem (hj.trans hi))
    rw [← hid', ← isRecordLike_iff hname hd'] at hlike
    exact Bool.false_ne_true ((hbefore j hj).symm.trans hlike)
  · rintro ⟨hlike, hbefore⟩
    obtain ⟨e, he⟩ := hlike.exists_decl
    obtain ⟨hi, hentry⟩ :=
      List.getElem?_eq_some_iff.mp ((getElem?_declsWithIds (x := (id, e))).mpr ⟨rfl, he⟩)
    refine ⟨(id, e), ⟨(isRecordLike_iff hname he).mpr hlike, id.index, hi, hentry, fun j hj => ?_⟩, rfl⟩
    obtain ⟨hid, hd⟩ := getElem?_declsWithIds.mp (List.getElem?_eq_getElem (hj.trans hi))
    refine Bool.eq_false_iff.mpr fun h => hbefore j hj ?_
    rw [← hid]
    exact (isRecordLike_iff hname hd).mp h

theorem isSome_firstRecord? : (firstRecord? ast d p).isSome ↔ ∃ id, IsRecordLike ast d p id := by
  simp only [firstRecord?, Option.isSome_map, List.find?_isSome]
  constructor
  · rintro ⟨x, hx, h⟩
    exact ⟨x.1, (isRecordLike_iff hname (Ast.mem_declsWithIds.mp hx)).mp h⟩
  · rintro ⟨id, hlike⟩
    obtain ⟨e, he⟩ := hlike.exists_decl
    exact ⟨(id, e), Ast.mem_declsWithIds.mpr he, (isRecordLike_iff hname he).mpr hlike⟩

end FirstRecord

/-! ## What the table has -/

theorem mem_definitionsOf :
    (id, definition) ∈ definitionsOf ast ↔
      ∃ d, IsForward ast id d ∧ firstRecord? ast d (·.isDefinition) = some definition := by
  simp only [definitionsOf, List.mem_filterMap, Prod.exists, mem_forwardRecords, Option.map_eq_some_iff,
    Prod.mk.injEq]
  constructor
  · rintro ⟨id', d, hforward, _, hfirst, rfl, rfl⟩
    exact ⟨d, hforward, hfirst⟩
  · rintro ⟨d, hforward, hfirst⟩
    exact ⟨id, d, hforward, definition, hfirst, rfl, rfl⟩

theorem mem_shadowedIn :
    id ∈ shadowedIn ast ↔ ∃ d, IsForward ast id d ∧
      ((firstRecord? ast d (·.isDefinition)).isSome ∨ firstRecord? ast d (fun _ => true) ≠ some id) := by
  simp only [shadowedIn, List.mem_filterMap, Prod.exists, mem_forwardRecords]
  constructor
  · rintro ⟨id', d, hforward, h⟩
    split at h
    · rename_i hsome
      obtain rfl := Option.some.inj h
      exact ⟨d, hforward, .inl hsome⟩
    · split at h
      · rename_i hne
        obtain rfl := Option.some.inj h
        exact ⟨d, hforward, .inr hne⟩
      · cases h
  · rintro ⟨d, hforward, h⟩
    refine ⟨id, d, hforward, ?_⟩
    split
    · rfl
    · rename_i hnone
      rw [if_pos (h.resolve_left hnone)]

theorem lookup_definitionsOf (hforward : IsForward ast id d) :
    (definitionsOf ast).lookup id = firstRecord? ast d (·.isDefinition) := by
  cases hlookup : (definitionsOf ast).lookup id with
  | none =>
    cases hfirst : firstRecord? ast d (·.isDefinition) with
    | none => rfl
    | some definition =>
      have hmem := mem_definitionsOf.mpr ⟨d, hforward, hfirst⟩
      exact absurd rfl (bne_iff_ne.mp (List.lookup_eq_none_iff.mp hlookup _ hmem))
  | some definition =>
    -- All entries for the declaration have the same definition.
    obtain ⟨d', ⟨hd', -⟩, hfirst⟩ := mem_definitionsOf.mp (mem_of_lookup hlookup)
    obtain rfl := Option.mem_unique hd' hforward.1
    exact hfirst.symm

theorem shadowed_of_build (h : Symbols.build ast settings = .ok s) : s.shadowed = shadowedIn ast := by
  simp only [Symbols.build, bind_eq_ok, pure_eq_ok] at h
  obtain ⟨_, -, _, -, _, -, _, -, _, -, rfl⟩ := h
  rfl

theorem definition_eq_of_first (hbuild : Symbols.build ast settings = .ok s)
    (hforward : IsForward ast id d) : s.definition id = (firstRecord? ast d (·.isDefinition)).getD id := by
  rw [Symbols.definition, (Symbols.build_describes hbuild).definitions, lookup_definitionsOf hforward]

theorem isShadowed_iff (hbuild : Symbols.build ast settings = .ok s) (hforward : IsForward ast id d) :
    s.isShadowed id = true ↔
      (∃ definition, Defines ast d definition) ∨
        ∃ j < id.index, IsRecordLike ast d (fun _ => true) ⟨j⟩ := by
  -- The first record of the parent and name is the declaration itself, or comes before it.
  have hself : IsRecordLike ast d (fun _ => true) id := by
    obtain ⟨hd, -, r, hkind, -⟩ := hforward
    exact ⟨d, r, hd, hkind, rfl, rfl, rfl⟩
  have hfirst : firstRecord? ast d (fun _ => true) ≠ some id ↔
      ∃ j < id.index, IsRecordLike ast d (fun _ => true) ⟨j⟩ := by
    rw [Ne, firstRecord?_eq_some_iff hforward.2.1]
    simp [hself]
  rw [Symbols.isShadowed, List.contains_iff_mem, shadowed_of_build hbuild, mem_shadowedIn, ← hfirst,
    ← isSome_firstRecord? hforward.2.1]
  constructor
  · rintro ⟨d', ⟨hd', -⟩, h⟩
    obtain rfl := Option.mem_unique hd' hforward.1
    exact h
  · exact fun h => ⟨d, hforward, h⟩

/-! ## What is emitted -/

theorem not_mem_selectFrom {env : Env} (hd : env.ast.decl? id = some d) (hkind : d.kind = .record r)
    (hshadowed : env.symbols.isShadowed id = true) : id ∉ selectFrom env defined met ids := by
  fun_induction selectFrom env defined met ids with
  | case1 => exact List.not_mem_nil
  | case2 _ _ _ _ ih => exact ih
  | case3 _ _ _ _ _ _ _ _ ih => exact ih
  | case4 met other rest d' hd' f hf _ ih =>
    refine List.not_mem_cons_of_ne_of_not_mem ?_ ih
    rintro rfl
    obtain rfl := Option.mem_unique hd' hd
    rw [hkind] at hf
    cases hf
  | case5 _ _ _ _ _ _ _ _ ih => exact ih
  | case6 met other rest d' hd' r' hr' hnot ih =>
    refine List.not_mem_cons_of_ne_of_not_mem ?_ ih
    rintro rfl
    exact hnot hshadowed
  | case7 met other rest d' hd' _ hother ih =>
    refine List.not_mem_cons_of_ne_of_not_mem ?_ ih
    rintro rfl
    obtain rfl := Option.mem_unique hd' hd
    exact hother r hkind

theorem not_isEmittedBy (hbuild : Symbols.build ast settings = .ok s) (hd : ast.decl? id = some d)
    (hkind : d.kind = .record r) (hshadowed : s.isShadowed id = true) (f : Fragment) :
    ¬ IsEmittedBy settings ast id f := by
  rintro ⟨env, parts, p, hparts, hp, rfl, -⟩
  obtain ⟨-, symbols, hbuild', rfl⟩ := Symbols.prepare_eq_ok_iff.mp hparts.prepared
  obtain rfl : symbols = s := Except.ok.inj (hbuild'.symm.trans hbuild)
  have hselected := hparts.selected
  simp only [selected?, bind, Option.bind_eq_some_iff, pure, Option.some.injEq] at hselected
  obtain ⟨visited, -, hselected⟩ := hselected
  have hmem : p.id ∈ parts.map (·.id) := List.mem_map.mpr ⟨p, hp, rfl⟩
  rw [← hselected] at hmem
  exact not_mem_selectFrom hd hkind hshadowed hmem

/-! ## Bases -/

def NamesBase (ast : Ast) (record id : DeclId) : Prop :=
  ∃ d r b rest, ast.decl? record = some d ∧ d.kind = .record r ∧ r.bases = b :: rest ∧
    ast.recordOf? b.type = some (some id)

theorem NamesBase.firstBase (h : NamesBase ast record id) (definition : DeclId → DeclId) :
    FirstBase ast definition record (definition id) := by
  obtain ⟨d, r, b, rest, hd, hkind, hbases, hid⟩ := h
  exact ⟨d, r, b, rest, id, hd, hkind, hbases, hid, rfl⟩

inductive TakesOver (env : Env) (record base : DeclId) (members : List Member) : Prop
  | flat {above fromBase own : RecordItems} (hbase : ItemsOf env base record members fromBase)
      (hown : ItemsOf env record record members own)
      (hdata : members.filter isDataField = vtableField :: (above.data ++ fromBase.data ++ own.data))
  | whole {field : Member} {own : RecordItems} (hbase : IsBaseField env record base field)
      (hown : ItemsOf env record record members own)
      (hdata : members.filter isDataField = field :: own.data)

theorem refines_of_namesBase (hbuild : Symbols.build ast settings = .ok s) (hnames : NamesBase ast record id)
    (hdef : IsRecordDefinition ast record) (hlayout : layoutOf s record = .ok layout) :
    ∃ inherited, layoutOf s (s.definition id) = .ok inherited ∧
      Refines ast (DeclaresVirtual ast record) inherited layout := by
  obtain ⟨d, r, inherited, hd, hkind, hinherits, -, hplaced⟩ := exists_placed hbuild hdef hlayout
  have hbase := hnames.firstBase s.definition
  cases hinherits with
  | root hnone => exact absurd hbase (hnone _)
  | derived hbase' hinherited =>
    obtain rfl := firstBase_unique hbase hbase'
    exact ⟨inherited, hinherited, (placeMembers_refines hplaced).mono fun m hm => ⟨d, r, hd, hkind, hm⟩⟩

theorem exists_layoutOf (h : ∀ u, s.vtable? record ≠ some (.error u)) :
    ∃ layout, layoutOf s record = .ok layout := by
  unfold layoutOf
  cases hvtable : s.vtable? record with
  | none => exact ⟨[], rfl⟩
  | some result =>
    cases result with
    | ok layout => exact ⟨layout, rfl⟩
    | error u => exact absurd hvtable (h u)

theorem vtable?_ne_error (h : layoutOf s record = .ok layout) (u : Unsupported) :
    s.vtable? record ≠ some (.error u) := by
  intro hvtable
  rw [layoutOf, hvtable] at h
  cases h

theorem takesOver_of_namesBase (hbuild : Symbols.build ast settings = .ok s)
    (hnames : NamesBase ast record id) (hdef : IsRecordDefinition ast (s.definition id))
    (htypedefs : PlainTypedefs ast)
    (hstruct : IsStructOf ⟨ast, settings.toEmissionSettings, s⟩ record members) :
    TakesOver ⟨ast, settings.toEmissionSettings, s⟩ record (s.definition id) members := by
  have hdesc := Symbols.build_describes hbuild
  have hbase := hnames.firstBase s.definition
  obtain ⟨own, hshape, hown⟩ := hstruct.shape hdesc htypedefs
  cases hshape with
  | polymorphic _ hinherited hdata =>
    -- The base of a record with a layout has one, too, so its fields can be taken over.
    obtain ⟨layout, hlayout⟩ := exists_layoutOf hstruct.noFault
    obtain ⟨inherited, hinherits, -⟩ := refines_of_namesBase hbuild hnames hstruct.1 hlayout
    cases hinherited with
    | root hroot => exact absurd hbase (hroot _)
    | derived hbase' hitems =>
      obtain rfl := firstBase_unique hbase hbase'
      obtain ⟨above, fromBase, -, hfrom, rfl⟩ := hitems.cases hdesc hdef (vtable?_ne_error hinherits)
      rw [RecordItems.data_append] at hdata
      exact .flat hfrom hown hdata
  | root _ hroot _ => exact absurd hbase (hroot _)
  | derived _ _ hfield hdata =>
    obtain rfl := firstBase_unique hbase hfield.1
    exact .whole hfield hown hdata

/-! ## Scopes -/

/-- Two places are in one scope of C++, through reopened namespaces and linkage blocks. -/
inductive SameScope (ast : Ast) : Option DeclId → Option DeclId → Prop
  | refl (place : Option DeclId) : SameScope ast place place
  | reopened {a b : DeclId} {d e : Decl} {ids ids' : List DeclId} (ha : ast.decl? a = some d)
      (hb : ast.decl? b = some e) (hd : d.kind = .scope ids) (he : e.kind = .scope ids')
      (hname : d.name = e.name) (h : SameScope ast d.parent e.parent) :
      SameScope ast (some a) (some b)
  | linkageLeft {a : DeclId} {place : Option DeclId} {d : Decl} {l : Native.Linkage}
      {ids : List DeclId} (ha : ast.decl? a = some d) (hd : d.kind = .linkageSpec l ids)
      (h : SameScope ast d.parent place) : SameScope ast (some a) place
  | linkageRight {b : DeclId} {place : Option DeclId} {e : Decl} {l : Native.Linkage}
      {ids : List DeclId} (hb : ast.decl? b = some e) (he : e.kind = .linkageSpec l ids)
      (h : SameScope ast place e.parent) : SameScope ast place (some b)

def DefinedInScope (ast : Ast) (d : Decl) (id : DeclId) : Prop :=
  ∃ e r, ast.decl? id = some e ∧ e.kind = .record r ∧ r.isDefinition = true ∧ e.name = d.name ∧
    SameScope ast d.parent e.parent

/-- No namespace is opened twice, and there are no linkage blocks. -/
structure OpenedOnce (ast : Ast) : Prop where
  namespaces : ∀ a b d e ids ids', ast.decl? a = some d → ast.decl? b = some e → d.kind = .scope ids →
    e.kind = .scope ids' → d.name = e.name → d.parent = e.parent → a = b
  linkage : ∀ a d l ids, ast.decl? a = some d → d.kind ≠ .linkageSpec l ids

theorem SameScope.eq (hopened : OpenedOnce ast) (h : SameScope ast a b) : a = b := by
  induction h with
  | refl => rfl
  | reopened ha hb hd he hname _ ih => rw [hopened.namespaces _ _ _ _ _ _ ha hb hd he hname ih]
  | linkageLeft ha hd => exact absurd hd (hopened.linkage _ _ _ _ ha)
  | linkageRight hb he => exact absurd he (hopened.linkage _ _ _ _ hb)

theorem defines_of_definedInScope (hopened : OpenedOnce ast) (h : DefinedInScope ast d id) :
    Defines ast d id := by
  obtain ⟨e, r, he, hkind, hdef, hname, hscope⟩ := h
  exact ⟨e, r, he, hkind, hdef, (hscope.eq hopened).symm, hname⟩

/-! ## Declarations and definitions -/

/-- Nothing is emitted for the declaration, and as a base it has the slots and fields of the definition. -/
structure StandsFor (settings : Settings) (ast : Ast) (s : Symbols) (id target : DeclId) : Prop where
  definition : s.definition id = target
  shadowed : s.isShadowed id = true
  notEmitted : ∀ f, ¬ IsEmittedBy settings ast id f
  notNested : ∀ nested record d scope items, ast.decl? id = some d →
    (emitOwnMember nested record id d).Gives ⟨ast, settings.toEmissionSettings, s⟩ scope items → items = {}
  slots : ∀ record layout, NamesBase ast record id → IsRecordDefinition ast record →
    layoutOf s record = .ok layout → ∃ inherited, layoutOf s target = .ok inherited ∧
      Refines ast (DeclaresVirtual ast record) inherited layout
  fields : PlainTypedefs ast → ∀ record members, NamesBase ast record id →
    IsStructOf ⟨ast, settings.toEmissionSettings, s⟩ record members →
    TakesOver ⟨ast, settings.toEmissionSettings, s⟩ record target members

section StandsFor

variable {id : DeclId} {d : Decl} (hbuild : Symbols.build ast settings = .ok s)
  (hforward : IsForward ast id d)

include hbuild hforward

theorem defines_definition (h : ∃ definition, Defines ast d definition) :
    Defines ast d (s.definition id) := by
  obtain ⟨first, hfirst⟩ := Option.isSome_iff_exists.mp ((isSome_firstRecord? hforward.2.1).mpr h)
  rw [definition_eq_of_first hbuild hforward, hfirst]
  exact ((firstRecord?_eq_some_iff hforward.2.1).mp hfirst).1

theorem definition_eq_self (h : ¬ ∃ definition, Defines ast d definition) : s.definition id = id := by
  rw [← isSome_firstRecord? hforward.2.1, Option.not_isSome_iff_eq_none] at h
  rw [definition_eq_of_first hbuild hforward, h, Option.getD_none]

theorem standsFor_definition (h : ∃ definition, Defines ast d definition) :
    StandsFor settings ast s id (s.definition id) := by
  have hshadowed : s.isShadowed id = true := (isShadowed_iff hbuild hforward).mpr (.inl h)
  have hdefines := defines_definition hbuild hforward h
  obtain ⟨hd, -, r, hkind, -⟩ := hforward
  refine ⟨rfl, hshadowed, not_isEmittedBy hbuild hd hkind hshadowed, ?_, ?_, ?_⟩
  · intro nested record d' scope items hd' hgives
    obtain rfl := Option.mem_unique hd' hd
    simp only [emitOwnMember, hkind, gives_bind, gives_symbols, exists_eq_left, hshadowed, if_true,
      gives_pure] at hgives
    exact hgives.symm
  · exact fun record layout hnames hdef hlayout => refines_of_namesBase hbuild hnames hdef hlayout
  · exact fun htypedefs record members hnames hstruct =>
      takesOver_of_namesBase hbuild hnames hdefines.isRecordDefinition htypedefs hstruct

theorem layoutOf_eq_nil (hself : s.definition id = id) (hkind : d.kind = .record r) (hbases : r.bases = [])
    (hmembers : r.members = []) (hlayout : layoutOf s id = .ok layout) : layout = [] := by
  obtain ⟨known, hs, htable, -⟩ := Vtable.sound_of_vtables (Symbols.build_describes hbuild).vtables
  -- The declaration is laid out only if a record names it as a base.
  cases hknown : known.lookup id with
  | none =>
    have hnone : s.vtable? id = none := by
      rw [Symbols.vtable?, hself, htable, Vtable.lookup_filter hs.once fun r => !isEmptyLayout r, hknown,
        Option.filter_none]
    rw [layoutOf, hnone] at hlayout
    exact (Except.ok.inj hlayout).symm
  | some result =>
    obtain rfl : result = .ok layout := by
      rw [← hlayout, Vtable.layoutOf_eq_of_lookup hs htable (hself.symm ▸ hknown)]
    cases hs.laidOut id layout hknown with
    | root hd' hkind' _ hplaced =>
      obtain ⟨rfl, rfl⟩ := record_unique hforward.1 hkind hd' hkind'
      rw [hmembers] at hplaced
      exact (Except.ok.inj (Option.some.inj hplaced)).symm
    | derived hd' hkind' hcons =>
      obtain ⟨rfl, rfl⟩ := record_unique hforward.1 hkind hd' hkind'
      rw [hbases] at hcons
      cases hcons
    | noRecord => rfl

end StandsFor

/-- **Which declarations stand for a definition**: those with a definition of their name and parent. Where
every namespace is opened once, a definition in the same scope has the same parent. -/
theorem forward_record_stands_for_definition_iff {id : DeclId} {d : Native.Decl}
    (hbuild : Symbols.build ast settings = .ok s) (hforward : IsForward ast id d) :
    ((∃ definition, Defines ast d definition) ↔ IsRecordDefinition ast (s.definition id)) ∧
    ((∃ definition, Defines ast d definition) →
      Defines ast d (s.definition id) ∧ StandsFor settings ast s id (s.definition id)) ∧
    ((¬ ∃ definition, Defines ast d definition) →
      s.definition id = id ∧
      (s.isShadowed id = true ↔ ∃ j < id.index, IsRecordLike ast d (fun _ => true) ⟨j⟩) ∧
      ∀ r layout, d.kind = .record r → r.bases = [] → r.members = [] → layoutOf s id = .ok layout →
        layout = []) ∧
    (OpenedOnce ast → ∀ definition, DefinedInScope ast d definition → Defines ast d definition) := by
  refine ⟨⟨fun h => ?_, fun h => ?_⟩, fun h => ?_, fun h => ?_, fun hopened definition h => ?_⟩
  · exact (defines_definition hbuild hforward h).isRecordDefinition
  · -- The declaration itself is no definition.
    by_contra hnone
    rw [definition_eq_self hbuild hforward hnone] at h
    obtain ⟨d', r', hd', hkind', hdef⟩ := h
    obtain ⟨hd, -, r, hkind, hnot⟩ := hforward
    obtain rfl : d' = d := Option.some.inj (hd'.symm.trans hd)
    obtain rfl : r' = r := Native.DeclKind.record.inj (hkind'.symm.trans hkind)
    exact Bool.false_ne_true (hnot.symm.trans hdef)
  · exact ⟨defines_definition hbuild hforward h, standsFor_definition hbuild hforward h⟩
  · have hself := definition_eq_self hbuild hforward h
    refine ⟨hself, ?_, fun r layout hkind hbases hmembers hlayout => ?_⟩
    · rw [isShadowed_iff hbuild hforward, or_iff_right h]
    · exact layoutOf_eq_nil hbuild hforward hself hkind hbases hmembers hlayout
  · exact defines_of_definedInScope hopened h

theorem shape_stands_for_definition :
    StandsFor {} Vtable.tiles Vtable.tileSymbols ⟨0⟩ ⟨1⟩ ∧ NamesBase Vtable.tiles ⟨4⟩ ⟨0⟩ := by
  have hbuild : Symbols.build Vtable.tiles {} = .ok Vtable.tileSymbols := rfl
  have hforward : IsForward Vtable.tiles ⟨0⟩ _ := ⟨rfl, by decide, _, rfl, rfl⟩
  have hdefined : ∃ definition, Defines Vtable.tiles _ definition := ⟨⟨1⟩, _, _, rfl, rfl, rfl, rfl, rfl⟩
  refine ⟨((forward_record_stands_for_definition_iff hbuild hforward).2.1 hdefined).2, ?_⟩
  exact ⟨_, _, _, _, rfl, rfl, rfl, rfl⟩

/-- `Shape` is declared in a namespace, and defined where it is opened again. -/
def reopenedNamespace : Ast where
  file := "shapes.h"
  topLevel := [⟨0⟩, ⟨2⟩]
  decls :=
    #[{ kind := .scope [⟨1⟩], name := "gfx" },
      { kind := .record { tag := .struct, isDefinition := false }, name := "Shape", parent := some ⟨0⟩ },
      { kind := .scope [⟨3⟩, ⟨5⟩], name := "gfx" },
      { kind := .record { tag := .struct, members := [⟨4⟩] }, name := "Shape", parent := some ⟨2⟩ },
      { kind := .method { type := ⟨1⟩, isVirtual := true }, name := "area", parent := some ⟨3⟩ },
      { kind := .record { tag := .struct, bases := [{ type := ⟨2⟩ }], members := [⟨6⟩] }, name := "Square",
        parent := some ⟨2⟩ },
      { kind := .method { type := ⟨1⟩, isVirtual := true }, name := "side", parent := some ⟨5⟩ }]
  types :=
    #[.ofBuiltin .int,
      { kind := .function { result := ⟨0⟩, params := [] }, spelling := "int ()" },
      { kind := .record ⟨1⟩, spelling := "gfx::Shape" }]

/-- The definition is in the scope of the declaration and is missed. -/
theorem reopened_namespace_hides_definition :
    ∃ s d, Symbols.build reopenedNamespace {} = .ok s ∧ IsForward reopenedNamespace ⟨1⟩ d ∧
      DefinedInScope reopenedNamespace d ⟨3⟩ ∧ s.definition ⟨1⟩ = ⟨1⟩ ∧ s.isShadowed ⟨1⟩ = false ∧
      NamesBase reopenedNamespace ⟨5⟩ ⟨1⟩ ∧ layoutOf s ⟨3⟩ = .ok [⟨4⟩] ∧ layoutOf s ⟨5⟩ = .ok [⟨6⟩] ∧
      ∃ b f rest, bindingsOf {} reopenedNamespace = .ok b ∧ b.fragments = f :: rest ∧ f.name = "Shape" ∧
        Managed.Bindings.IsOpaque f := by
  refine ⟨_, _, rfl, ⟨rfl, by decide, _, rfl, rfl⟩, ⟨_, _, rfl, rfl, rfl, rfl, ?_⟩, rfl, rfl,
    ⟨_, _, _, _, rfl, rfl, rfl, rfl⟩, rfl, rfl, _, _, _, rfl, rfl, rfl, by decide⟩
  exact .reopened rfl rfl rfl rfl rfl (.refl none)

end Interop.Binding
