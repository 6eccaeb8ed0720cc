import Interop.Proofs.Completion.Bindings
import Interop.Proofs.TextLines

/-!
# What the names of types stand for

A type is written by its name behind those records around it that are not around the place where it is
written. C# looks for a name from the inside out (`resolve?`). The two walks meet if the records of the
place that are not around the type declare no other type by the first part of the name; one that does
hides the type.
-/

namespace Interop.Binding

open Native (Ast DeclId Decl IsAcyclic)

variable {ast : Ast} {settings : Settings} {s : Symbols}
variable {id : DeclId} {outer chain inner : List DeclId} {name : String}

/-! ## The types of a scope -/

def isTypeDecl (d : Decl) : Bool :=
  match d.kind with
  | .record _ | .enum _ => true
  | _ => false

def emittedTypes (ast : Ast) (s : Symbols) : List DeclId :=
  (ast.declsWithIds.filter fun (id, d) => isTypeDecl d && !s.isShadowed id).map (·.1)

def scopeOf? (ast : Ast) (id : DeclId) : Option (Option DeclId) := do
  let d ← ast.decl? id
  return (← recordChain? ast d.parent).getLast?

/-- No two types of one scope have one name. -/
def HasDistinctTypes (ast : Ast) (s : Symbols) : Prop :=
  ((emittedTypes ast s).map fun id => (scopeOf? ast id, s.name id)).Nodup

instance : Decidable (HasDistinctTypes ast s) :=
  inferInstanceAs (Decidable (List.Nodup _))

/-! ## How C# finds a type -/

/-- The type of that name that is declared in a record, or outside of all records. -/
def typeIn? (ast : Ast) (s : Symbols) (scope : Option DeclId) (name : String) : Option DeclId :=
  (emittedTypes ast s).find? fun id => scopeOf? ast id = some scope && s.name id = name

/-- The type that a name without dots stands for, from the innermost record outwards. -/
def visibleType? (ast : Ast) (s : Symbols) (name : String) : List DeclId → Option DeclId
  | [] => typeIn? ast s none name
  | record :: around => (typeIn? ast s (some record) name).or (visibleType? ast s name around)

def nestedType? (ast : Ast) (s : Symbols) (id : DeclId) : List String → Option DeclId
  | [] => some id
  | name :: rest => (typeIn? ast s (some id) name).bind fun next => nestedType? ast s next rest

/-- **The type that a dotted name stands for** where it is written. -/
def resolve? (ast : Ast) (s : Symbols) (scope : Option DeclId) (name : String) : Option DeclId := do
  let around ← recordChain? ast scope
  match Text.split '.' name with
  | [] => none
  | first :: rest => nestedType? ast s (← visibleType? ast s first around.reverse) rest

theorem mem_emittedTypes :
    id ∈ emittedTypes ast s ↔
      s.isShadowed id = false ∧ ∃ d, ast.decl? id = some d ∧ isTypeDecl d = true := by
  simp only [emittedTypes, List.mem_map, List.mem_filter, Bool.and_eq_true, Bool.not_eq_true']
  constructor
  · rintro ⟨⟨id, d⟩, ⟨hd, htype, hshadowed⟩, rfl⟩
    exact ⟨hshadowed, d, Ast.mem_declsWithIds.mp hd, htype⟩
  · rintro ⟨hshadowed, d, hd, htype⟩
    exact ⟨(id, d), ⟨Ast.mem_declsWithIds.mpr hd, htype, hshadowed⟩, rfl⟩

theorem of_typeIn? (h : typeIn? ast s scope name = some id) :
    id ∈ emittedTypes ast s ∧ scopeOf? ast id = some scope ∧ s.name id = name := by
  have hfound := List.find?_some h
  simp only [Bool.and_eq_true, decide_eq_true_eq] at hfound
  exact ⟨List.mem_of_find?_eq_some h, hfound⟩

theorem typeIn?_eq_none :
    typeIn? ast s scope name = none ↔
      ∀ id ∈ emittedTypes ast s, scopeOf? ast id = some scope → s.name id ≠ name := by
  simp [typeIn?, List.find?_eq_none]

theorem HasDistinctTypes.typeIn?_eq (hdistinct : HasDistinctTypes ast s) (hid : id ∈ emittedTypes ast s)
    (hscope : scopeOf? ast id = some scope) : typeIn? ast s scope (s.name id) = some id := by
  cases hfound : typeIn? ast s scope (s.name id) with
  | none => exact absurd rfl (typeIn?_eq_none.mp hfound id hid hscope)
  | some other =>
    obtain ⟨hother, hscope', hname⟩ := of_typeIn? hfound
    rw [List.inj_on_of_nodup_map hdistinct hother hid (by rw [hscope', hscope, hname])]

/-! ## The records around a declaration -/

inductive IsChain (ast : Ast) : Option DeclId → List DeclId → Prop
  | none : IsChain ast none []
  | type {id : DeclId} {d : Decl} {outer : List DeclId} (hd : ast.decl? id = some d)
      (htype : isTypeDecl d = true) (houter : IsChain ast d.parent outer) :
      IsChain ast (some id) (outer ++ [id])
  | other {id : DeclId} {d : Decl} {outer : List DeclId} (hd : ast.decl? id = some d)
      (htype : isTypeDecl d = false) (houter : IsChain ast d.parent outer) :
      IsChain ast (some id) outer

namespace IsChain

variable {id : DeclId}

theorem of_recordChainFrom (h : recordChainFrom ast fuel start = some chain) :
    IsChain ast start chain.reverse := by
  induction fuel generalizing start chain with
  | zero =>
    cases start with
    | none =>
      obtain rfl := Option.some.inj h
      exact .none
    | some id => cases h
  | succ fuel ih =>
    cases start with
    | none =>
      obtain rfl := Option.some.inj h
      exact .none
    | some id =>
      simp only [recordChainFrom, bind, Option.bind_eq_some_iff] at h
      obtain ⟨d, hd, around, haround, h⟩ := h
      have houter := ih haround
      split at h
      · rename_i hkind
        obtain rfl := Option.some.inj h
        simpa using IsChain.type hd (by simp [isTypeDecl, hkind]) houter
      · rename_i hkind
        obtain rfl := Option.some.inj h
        simpa using IsChain.type hd (by simp [isTypeDecl, hkind]) houter
      · rename_i hrecord henum
        obtain rfl := Option.some.inj h
        refine .other hd ?_ houter
        unfold isTypeDecl
        split
        · exact absurd ‹_› (hrecord _)
        · exact absurd ‹_› (henum _)
        · rfl

theorem of_recordChain? (h : recordChain? ast start = some chain) : IsChain ast start chain := by
  obtain ⟨reversed, hreversed, rfl⟩ := Option.map_eq_some_iff.mp h
  exact of_recordChainFrom hreversed

theorem unique (h : IsChain ast start chain) (h' : IsChain ast start chain') : chain = chain' := by
  induction h generalizing chain' with
  | none =>
    cases h'
    rfl
  | type hd htype _ ih =>
    cases h' with
    | type hd' _ houter' =>
      obtain rfl := Option.mem_unique hd hd'
      rw [ih houter']
    | other hd' htype' _ =>
      obtain rfl := Option.mem_unique hd hd'
      exact absurd (htype.symm.trans htype') (by decide)
  | other hd htype _ ih =>
    cases h' with
    | type hd' htype' _ =>
      obtain rfl := Option.mem_unique hd hd'
      exact absurd (htype.symm.trans htype') (by decide)
    | other hd' _ houter' =>
      obtain rfl := Option.mem_unique hd hd'
      exact ih houter'

theorem of_append (h : IsChain ast start (outer ++ id :: inner)) :
    ∃ d, ast.decl? id = some d ∧ isTypeDecl d = true ∧ IsChain ast d.parent outer := by
  generalize hchain : outer ++ id :: inner = chain at h
  induction h generalizing inner with
  | none => simp at hchain
  | @type last d around hd htype houter ih =>
    rcases List.eq_nil_or_concat inner with rfl | ⟨inner, last', rfl⟩
    · obtain ⟨rfl, hlast⟩ := List.append_inj' hchain rfl
      obtain rfl := List.head_eq_of_cons_eq hlast
      exact ⟨d, hd, htype, houter⟩
    · rw [List.concat_eq_append, ← List.cons_append, ← List.append_assoc] at hchain
      exact ih (List.append_inj_left' hchain rfl)
  | other _ _ _ ih => exact ih hchain

theorem eq_append (h : IsChain ast (some id) chain) (hd : ast.decl? id = some d)
    (htype : isTypeDecl d = true) : ∃ outer, chain = outer ++ [id] ∧ IsChain ast d.parent outer := by
  cases h with
  | type hd' _ houter =>
    obtain rfl := Option.mem_unique hd hd'
    exact ⟨_, rfl, houter⟩
  | other hd' htype' _ =>
    obtain rfl := Option.mem_unique hd hd'
    exact absurd (htype.symm.trans htype') (by decide)

end IsChain

theorem isChain_of_scopeOf? (hscope : scopeOf? ast id = some scope) (hid : id ∈ emittedTypes ast s)
    (houter : IsChain ast scope outer) : IsChain ast (some id) (outer ++ [id]) := by
  obtain ⟨-, d, hd, htype⟩ := mem_emittedTypes.mp hid
  simp only [scopeOf?, hd, bind, Option.bind_some, pure, Option.bind_eq_some_iff,
    Option.some.injEq] at hscope
  obtain ⟨around, haround, rfl⟩ := hscope
  have hchain := IsChain.of_recordChain? haround
  refine .type hd htype ?_
  rcases List.eq_nil_or_concat around with rfl | ⟨before, last, rfl⟩
  · simp only [List.getLast?_nil] at houter
    obtain rfl := houter.unique .none
    exact hchain
  · -- The records around the last record of the chain are the ones before it.
    rw [List.concat_eq_append] at hchain houter
    rw [List.getLast?_append, List.getLast?_singleton, Option.some_or] at houter
    obtain ⟨dl, hdl, htypel, hbefore⟩ := hchain.of_append
    rwa [houter.unique (.type hdl htypel hbefore)]

section

variable (hvalid : ast.Valid) (hparents : IsAcyclic ast.ParentStep)
include hvalid hparents

theorem IsChain.recordChain?_eq (h : IsChain ast start chain) : recordChain? ast start = some chain := by
  have hsome : (recordChain? ast start).isSome := by
    refine isSome_recordChain hvalid hparents ?_
    rintro id rfl
    cases h with
    | type hd => exact Ast.inRange_of_decl? hd
    | other hd => exact Ast.inRange_of_decl? hd
  obtain ⟨found, hfound⟩ := Option.isSome_iff_exists.mp hsome
  rw [hfound, (IsChain.of_recordChain? hfound).unique h]

theorem IsChain.scopeOf?_eq (h : IsChain ast start (outer ++ id :: inner)) :
    scopeOf? ast id = some outer.getLast? := by
  obtain ⟨d, hd, -, houter⟩ := h.of_append
  simp [scopeOf?, hd, houter.recordChain?_eq hvalid hparents]

end

/-! ## From names to types -/

theorem chain_of_nestedType? (h : nestedType? ast s a names = some b)
    (ha : IsChain ast (some a) (outer ++ [a])) :
    ∃ path, path.map s.name = names ∧ (∀ t ∈ path, t ∈ emittedTypes ast s) ∧
      IsChain ast (some b) (outer ++ a :: path) := by
  induction names generalizing a outer with
  | nil =>
    obtain rfl := Option.some.inj h
    exact ⟨[], rfl, by simp, ha⟩
  | cons name names ih =>
    obtain ⟨next, hnext, hrest⟩ := Option.bind_eq_some_iff.mp h
    obtain ⟨hemitted, hscope, rfl⟩ := of_typeIn? hnext
    obtain ⟨path, rfl, hpath, hchain⟩ := ih hrest (isChain_of_scopeOf? hscope hemitted ha)
    refine ⟨next :: path, rfl, List.forall_mem_cons.mpr ⟨hemitted, hpath⟩, ?_⟩
    simpa using hchain

theorem chain_of_visibleType? (h : visibleType? ast s name chain.reverse = some a)
    (hchain : IsChain ast start chain) :
    ∃ outer inner, chain = outer ++ inner ∧ IsChain ast (some a) (outer ++ [a]) ∧
      a ∈ emittedTypes ast s ∧ s.name a = name ∧ ∀ r ∈ inner, typeIn? ast s (some r) name = none := by
  induction chain using List.reverseRecOn generalizing start with
  | nil =>
    obtain ⟨hemitted, hscope, hname⟩ := of_typeIn? h
    exact ⟨[], [], rfl, isChain_of_scopeOf? hscope hemitted .none, hemitted, hname, by simp⟩
  | append_singleton before last ih =>
    obtain ⟨d, hd, htype, hbefore⟩ := hchain.of_append
    rw [List.reverse_append, List.reverse_singleton, List.singleton_append, visibleType?] at h
    cases hlast : typeIn? ast s (some last) name with
    | some found =>
      rw [hlast, Option.some_or] at h
      obtain rfl := Option.some.inj h
      obtain ⟨hemitted, hscope, hname⟩ := of_typeIn? hlast
      refine ⟨before ++ [last], [], by simp, ?_, hemitted, hname, by simp⟩
      exact isChain_of_scopeOf? hscope hemitted (.type hd htype hbefore)
    | none =>
      rw [hlast, Option.none_or] at h
      obtain ⟨outer, inner, rfl, ha, hemitted, hname, hinner⟩ := ih h hbefore
      refine ⟨outer, inner ++ [last], by simp, ha, hemitted, hname, ?_⟩
      intro r hr
      rcases List.mem_append.mp hr with hr | hr
      · exact hinner r hr
      · rw [List.mem_singleton.mp hr, hlast]

/-! ## From types to names -/

theorem visibleType?_append (hinner : ∀ r ∈ inner, typeIn? ast s (some r) name = none) :
    visibleType? ast s name (outer ++ inner).reverse = visibleType? ast s name outer.reverse := by
  induction inner using List.reverseRecOn with
  | nil => rw [List.append_nil]
  | append_singleton inner last ih =>
    rw [← List.append_assoc, List.reverse_append, List.reverse_singleton, List.singleton_append,
      visibleType?, hinner last (by simp), Option.none_or]
    exact ih fun r hr => hinner r (List.mem_append_left _ hr)

section

variable (hvalid : ast.Valid) (hparents : IsAcyclic ast.ParentStep) (hdistinct : HasDistinctTypes ast s)
include hvalid hparents hdistinct

theorem visibleType?_eq (hchain : IsChain ast start (outer ++ first :: rest))
    (hfirst : first ∈ emittedTypes ast s)
    (hinner : ∀ r ∈ inner, typeIn? ast s (some r) (s.name first) = none) :
    visibleType? ast s (s.name first) (outer ++ inner).reverse = some first := by
  have hfound := hdistinct.typeIn?_eq hfirst (hchain.scopeOf?_eq hvalid hparents)
  rw [visibleType?_append hinner]
  rcases List.eq_nil_or_concat outer with rfl | ⟨before, last, rfl⟩
  · exact hfound
  · rw [List.concat_eq_append] at hfound ⊢
    rw [List.getLast?_append, List.getLast?_singleton, Option.some_or] at hfound
    rw [List.reverse_append, List.reverse_singleton, List.singleton_append, visibleType?, hfound,
      Option.some_or]

theorem nestedType?_eq (hchain : IsChain ast start (outer ++ a :: path))
    (hpath : ∀ t ∈ path, t ∈ emittedTypes ast s) (hlast : (a :: path).getLast? = some b) :
    nestedType? ast s a (path.map s.name) = some b := by
  induction path generalizing a outer with
  | nil => simpa [nestedType?] using hlast
  | cons next path ih =>
    have hchain' : IsChain ast start ((outer ++ [a]) ++ next :: path) := by simpa using hchain
    have hscope := hchain'.scopeOf?_eq hvalid hparents
    rw [List.getLast?_append, List.getLast?_singleton, Option.some_or] at hscope
    have hfound := hdistinct.typeIn?_eq (hpath next (.head _)) hscope
    rw [List.map_cons, nestedType?, hfound, Option.bind_some]
    refine ih hchain' (fun t ht => hpath t (.tail _ ht)) ?_
    rwa [List.getLast?_cons_cons] at hlast

end

/-! ## Dotted names -/

theorem split_ne_nil (sep : Char) (text : String) : Text.split sep text ≠ [] := by
  unfold Text.split
  rcases Managed.splitChars_cases sep text.toList with ⟨-, hsplit⟩ | ⟨first, rest, -, -, hsplit⟩
  · simp [hsplit]
  · simp [hsplit]

theorem joinWith_split (text : String) : Text.joinWith "." (Text.split '.' text) = text := by
  unfold Text.split
  generalize hcs : text.toList = cs
  have htext : text = String.ofList cs := by rw [← hcs, String.ofList_toList]
  subst htext
  clear hcs
  induction hn : cs.length using Nat.strong_induction_on generalizing cs with
  | _ n ih =>
    rcases Managed.splitChars_cases '.' cs with ⟨-, hsplit⟩ | ⟨first, rest, rfl, -, hsplit⟩
    · simp [hsplit, Text.joinWith]
    · have hrest := ih rest.length (by simp at hn; omega) rest rfl
      rw [hsplit, List.map_cons]
      cases hparts : (Text.splitChars '.' rest).map String.ofList with
      | nil => exact absurd hparts (by simpa [Text.split] using split_ne_nil '.' (String.ofList rest))
      | cons second parts =>
        rw [hparts] at hrest
        rw [Text.joinWith, hrest]
        apply String.toList_inj.mp
        simp

theorem split_joinWith (hnames : names ≠ []) (hdots : ∀ name ∈ names, '.' ∉ name.toList) :
    Text.split '.' (Text.joinWith "." names) = names := by
  induction names using Text.joinWith.induct with
  | case1 => exact absurd rfl hnames
  | case2 name =>
    have hname : '.' ∉ name.toList := hdots name (.head _)
    simp [Text.joinWith, Text.split, Managed.splitChars_of_not_mem hname]
  | case3 name next rest ih =>
    have hname : '.' ∉ name.toList := hdots name (.head _)
    have hrest := ih (by simp) fun name hname => hdots name (.tail _ hname)
    unfold Text.split at hrest ⊢
    have htext : (Text.joinWith "." (name :: next :: rest)).toList =
        name.toList ++ '.' :: (Text.joinWith "." (next :: rest)).toList := by
      simp [Text.joinWith]
    rw [htext, Managed.splitChars_append, Managed.splitChars_of_not_mem hname, List.map_append, hrest]
    simp

theorem not_mem_of_mem_split (h : part ∈ Text.split sep text) : sep ∉ part.toList := by
  obtain ⟨cs, hcs, rfl⟩ := List.mem_map.mp h
  simpa using Managed.not_mem_of_mem_splitChars hcs

theorem length_joinWith_lt (hbefore : before ≠ []) (hnames : names ≠ []) :
    (Text.joinWith "." names).length < (Text.joinWith "." (before ++ names)).length := by
  induction before with
  | nil => exact absurd rfl hbefore
  | cons first before ih =>
    obtain ⟨second, rest, hrest⟩ := List.exists_cons_of_ne_nil
      (List.append_ne_nil_of_right_ne_nil before hnames)
    rw [List.cons_append, hrest, Text.joinWith, ← hrest, String.length_append, String.length_append]
    have hdot : ".".length = 1 := rfl
    by_cases hempty : before = []
    · subst hempty
      rw [List.nil_append]
      omega
    · have := ih hempty
      omega

theorem eq_of_joinWith_eq (name : DeclId → String) {a b : List DeclId} (ha : a <:+ chain) (hb : b <:+ chain)
    (hane : a ≠ []) (hbne : b ≠ []) (h : Text.joinWith "." (a.map name) = Text.joinWith "." (b.map name)) :
    a = b := by
  have hends : ∀ {x y : List DeclId}, x <:+ y → x ≠ [] →
      Text.joinWith "." (x.map name) = Text.joinWith "." (y.map name) → x = y := by
    rintro x y ⟨before, rfl⟩ hx hname
    by_contra hne
    have hbefore : before.map name ≠ [] := by
      simp only [ne_eq, List.map_eq_nil_iff]
      rintro rfl
      exact hne rfl
    have hlt := length_joinWith_lt hbefore (by simpa using hx : x.map name ≠ [])
    rw [← List.map_append, ← hname] at hlt
    exact Nat.lt_irrefl _ hlt
  rcases List.suffix_or_suffix_of_suffix ha hb with hab | hba
  · exact hends hab hane h
  · exact (hends hba hbne h.symm).symm

/-! ## What is written is what is found -/

theorem exists_type_definition (hs : s.Describes ast settings) (hd : ast.decl? id = some d)
    (htype : isTypeDecl d = true) : ∃ e, ast.decl? (s.definition id) = some e ∧ isTypeDecl e = true := by
  rw [hs.definition_eq, definitionIn]
  cases hlookup : (definitionsOf ast).lookup id with
  | none => exact ⟨d, hd, htype⟩
  | some target =>
    obtain ⟨e, r, he, hkind, -⟩ := Symbols.isRecordDefinition_of_mem (mem_of_lookup hlookup)
    exact ⟨e, he, by simp [isTypeDecl, hkind]⟩

theorem exists_split_dropCommon (scope : List DeclId) (htarget : target ≠ []) :
    ∃ outer first rest inner, target = outer ++ first :: rest ∧ scope = outer ++ inner ∧
      (inner.head? = some first → rest = []) ∧ dropCommon target scope = first :: rest := by
  fun_induction dropCommon target scope with
  | case1 b rest a scope ih =>
    obtain ⟨outer, first, rest', inner, htarget, rfl, hmax, hdrop⟩ := ih (by simp)
    exact ⟨a :: outer, first, rest', inner, by rw [htarget, List.cons_append], rfl, hmax, hdrop⟩
  | case2 a b rest c scope hne =>
    refine ⟨[], a, b :: rest, c :: scope, rfl, rfl, ?_, rfl⟩
    rintro ⟨⟩
    exact absurd rfl hne
  | case3 target scope hshort =>
    obtain ⟨first, rest, rfl⟩ := List.exists_cons_of_ne_nil htarget
    refine ⟨[], first, rest, scope, rfl, rfl, ?_, rfl⟩
    intro hhead
    cases rest with
    | nil => rfl
    | cons second rest =>
      obtain ⟨inner, rfl⟩ := List.head?_eq_some_iff.mp hhead
      exact absurd rfl (hshort first second rest first inner rfl)

theorem chain_of_resolve? (haround : recordChain? ast scope = some around)
    (h : resolve? ast s scope name = some id) :
    ∃ outer a path inner, around = outer ++ inner ∧ IsChain ast (some id) (outer ++ a :: path) ∧
      Text.split '.' name = (a :: path).map s.name ∧ (∀ t ∈ a :: path, t ∈ emittedTypes ast s) ∧
      ∀ r ∈ inner, typeIn? ast s (some r) (s.name a) = none := by
  simp only [resolve?, haround, bind, Option.bind_some] at h
  cases hsplit : Text.split '.' name with
  | nil => exact absurd hsplit (split_ne_nil '.' name)
  | cons firstName names =>
    rw [hsplit] at h
    obtain ⟨a, hvisible, hnested⟩ := Option.bind_eq_some_iff.mp h
    obtain ⟨outer, inner, rfl, ha, hemitted, rfl, hinner⟩ :=
      chain_of_visibleType? hvisible (IsChain.of_recordChain? haround)
    obtain ⟨path, rfl, hpath, hchain⟩ := chain_of_nestedType? hnested ha
    exact ⟨outer, a, path, inner, rfl, hchain, rfl, List.forall_mem_cons.mpr ⟨hemitted, hpath⟩, hinner⟩

/-- **When a name stands for the type that it is written for.** C# finds the type exactly if all types that
are named are emitted, and no record that is only around the place hides the first one. -/
theorem qualified_name_resolves_iff_not_hidden (hvalid : ast.Valid) (hparents : IsAcyclic ast.ParentStep)
    (hbuild : Symbols.build ast settings = .ok s) (hdistinct : HasDistinctTypes ast s) {id : DeclId}
    {d : Decl} (hd : ast.decl? id = some d) (htype : isTypeDecl d = true) (scope : Option DeclId)
    (hscope : ∀ r, scope = some r → ast.inRange (.decl r)) :
    ∃ outer first rest inner name,
      recordChain? ast (some (s.definition id)) = some (outer ++ first :: rest) ∧
      recordChain? ast scope = some (outer ++ inner) ∧ (inner.head? = some first → rest = []) ∧
      qualifiedName? ast s id scope = some name ∧
      name = Text.joinWith "." ((first :: rest).map s.name) ∧
      (resolve? ast s scope name = some (s.definition id) ↔
        (∀ t ∈ first :: rest, t ∈ emittedTypes ast s ∧ '.' ∉ (s.name t).toList) ∧
          ∀ r ∈ inner, ∀ t ∈ emittedTypes ast s,
            scopeOf? ast t = some (some r) → s.name t ≠ s.name first) := by
  obtain ⟨e, he, hetype⟩ := exists_type_definition (Symbols.build_describes hbuild) hd htype
  obtain ⟨around, haround⟩ := Option.isSome_iff_exists.mp (isSome_recordChain hvalid hparents hscope)
  have hin : ∀ r, some (s.definition id) = some r → ast.inRange (.decl r) := by
    rintro r ⟨⟩
    exact Ast.inRange_of_decl? he
  obtain ⟨target, htarget⟩ := Option.isSome_iff_exists.mp (isSome_recordChain hvalid hparents hin)
  have hchain := IsChain.of_recordChain? htarget
  obtain ⟨before, hlast, -⟩ := hchain.eq_append he hetype
  obtain ⟨outer, first, rest, inner, rfl, rfl, hmax, hdrop⟩ :=
    exists_split_dropCommon around (by simp [hlast] : target ≠ [])
  refine ⟨outer, first, rest, inner, _, htarget, haround, hmax, ?_, rfl, ?_⟩
  · simp [qualifiedName?, htarget, haround, hdrop]
  constructor
  · intro h
    obtain ⟨outer', a, path, inner', hsplit, hchain', hnames, hemitted, hinner⟩ :=
      chain_of_resolve? haround h
    -- Both chains are the one around the type, and both ends of it have the name that is written.
    have heq := hchain.unique hchain'
    have hpath : a :: path = first :: rest := by
      refine eq_of_joinWith_eq s.name (heq ▸ List.suffix_append outer' _) (List.suffix_append outer _)
        (by simp) (by simp) ?_
      rw [← hnames, joinWith_split]
    obtain ⟨rfl, rfl⟩ := List.cons.inj hpath
    obtain rfl := List.append_cancel_right heq
    obtain rfl := List.append_cancel_left hsplit
    refine ⟨fun t ht => ⟨hemitted t ht, not_mem_of_mem_split (hnames ▸ List.mem_map_of_mem ht)⟩, ?_⟩
    exact fun r hr => typeIn?_eq_none.mp (hinner r hr)
  · rintro ⟨hnamed, hinner⟩
    have hsplit : Text.split '.' (Text.joinWith "." ((first :: rest).map s.name)) = _ :=
      split_joinWith (by simp) (by simpa using fun t ht => (hnamed t ht).2)
    have hfirst := visibleType?_eq hvalid hparents hdistinct hchain (hnamed first (.head _)).1
      fun r hr => typeIn?_eq_none.mpr (hinner r hr)
    have hend : (first :: rest).getLast? = some (s.definition id) := by
      have := congrArg List.getLast? hlast
      simpa [List.getLast?_append] using this
    have hnested := nestedType?_eq hvalid hparents hdistinct hchain
      (fun t ht => (hnamed t (.tail _ ht)).1) hend
    simp only [resolve?, haround, bind, Option.bind_some]
    rw [hsplit, List.map_cons]
    simp only [hfirst, Option.bind_some, hnested]

/-- A queue with items, and with batches that have items and cursors of their own. -/
def queues : Ast where
  file := "queue.h"
  topLevel := [⟨0⟩]
  decls :=
    #[{ kind := .record { tag := .struct, members := [⟨1⟩, ⟨2⟩] }, name := "Queue" },
      { kind := .record { tag := .struct }, name := "Item", parent := some ⟨0⟩ },
      { kind := .record { tag := .struct, members := [⟨3⟩, ⟨4⟩] }, name := "Batch", parent := some ⟨0⟩ },
      { kind := .record { tag := .struct }, name := "Item", parent := some ⟨2⟩ },
      { kind := .record { tag := .struct }, name := "Cursor", parent := some ⟨2⟩ }]

def queueSymbols : Symbols where
  names := #["Queue", "Item", "Batch", "Item", "Cursor"]
  anonymous := []
  namingTypedefs := []
  definitions := []
  shadowed := []
  globals := []
  vtables := []

theorem cursor_name_resolves :
    Symbols.build queues {} = .ok queueSymbols ∧ HasDistinctTypes queues queueSymbols ∧
      qualifiedName? queues queueSymbols ⟨4⟩ (some ⟨1⟩) = some "Batch.Cursor" ∧
      resolve? queues queueSymbols (some ⟨1⟩) "Batch.Cursor" = some ⟨4⟩ := by
  have hbuild : Symbols.build queues {} = .ok queueSymbols := rfl
  have hdistinct : HasDistinctTypes queues queueSymbols := by decide
  have hvalid : queues.Valid := Ast.firstMissing?_eq_none_iff.mp (by decide)
  have hparents := (acyclic_of_inOrder (by decide : InOrder queues)).parents
  have hcursor : queues.decl? ⟨4⟩ = some _ := rfl
  obtain ⟨outer, first, rest, inner, name, hchain, hplace, hmax, hname, -, hiff⟩ :=
    qualified_name_resolves_iff_not_hidden hvalid hparents hbuild hdistinct hcursor rfl (some ⟨1⟩)
      (by rintro r ⟨⟩; decide)
  have hwritten : qualifiedName? queues queueSymbols ⟨4⟩ (some ⟨1⟩) = some "Batch.Cursor" := rfl
  obtain rfl := Option.some.inj (hwritten.symm.trans hname)
  refine ⟨hbuild, hdistinct, hwritten, hiff.mpr ?_⟩
  replace hchain : [⟨0⟩, ⟨2⟩, ⟨4⟩] = outer ++ first :: rest := Option.some.inj hchain
  replace hplace : [⟨0⟩, ⟨1⟩] = outer ++ inner := Option.some.inj hplace
  -- The queue is around both, and nothing else is.
  obtain ⟨rfl, rfl, rfl, rfl⟩ : outer = [⟨0⟩] ∧ first = ⟨2⟩ ∧ rest = [⟨4⟩] ∧ inner = [⟨1⟩] := by
    rcases outer with _ | ⟨a, _ | ⟨b, outer⟩⟩
    · obtain ⟨rfl, rfl⟩ := List.cons.inj hchain
      obtain rfl := hplace
      exact absurd (hmax rfl) (by simp)
    · obtain ⟨ha, hrest⟩ := List.cons.inj hchain
      obtain ⟨rfl, rfl⟩ := List.cons.inj hrest
      exact ⟨by rw [ha], rfl, rfl, (List.cons.inj hplace).2.symm⟩
    · obtain ⟨-, hrest⟩ := List.cons.inj hchain
      obtain ⟨-, hrest'⟩ := List.cons.inj hplace
      exact absurd ((List.cons.inj hrest).1.trans (List.cons.inj hrest').1.symm) (by decide)
  decide

/-- The items of the queue are hidden by those of the batch. -/
theorem hidden_item_resolves_to_other :
    Symbols.build queues {} = .ok queueSymbols ∧ HasDistinctTypes queues queueSymbols ∧
      queueSymbols.definition ⟨1⟩ = ⟨1⟩ ∧
      qualifiedName? queues queueSymbols ⟨1⟩ (some ⟨2⟩) = some "Item" ∧
      resolve? queues queueSymbols (some ⟨2⟩) "Item" = some ⟨3⟩ ∧
      resolve? queues queueSymbols (some ⟨2⟩) "Queue.Item" = some ⟨1⟩ :=
  ⟨rfl, by decide, rfl, rfl, rfl, rfl⟩

end Interop.Binding
