import Interop.Proofs.AnonymousPaths
import Interop.Proofs.SpelledNames

/-!
# Initializer lists

The values of a list are given to the members of a record one by one. The subobjects that they are meant
for are counted differently: a base comes first, and bit fields without a name are left out.
`initializers_bind_subobjects_iff` says when the two agree.
-/

namespace Interop.Binding

open Native (DeclId Decl DeclKind ExprId Record)
open Emit

variable {env : Env} {scope : Scope} {settings : Settings} {r : Record}

/-- The C# name for a field or an anonymous record. -/
def placeName? (env : Env) (id : DeclId) : Option String :=
  (env.ast.decl? id).bind fun d =>
    match d.kind with
    | .field _ => some (env.symbols.name id)
    | .record r => if r.isAnonymous then (env.symbols.anonymous? id).map (·.field) else none
    | _ => none

/-- The C# names of the places that a record gives to its members. -/
def placeNames (env : Env) (members : List DeclId) : List String :=
  members.filterMap (placeName? env)

/-- A union has a place for its first member only. -/
def firstIf (isUnion : Bool) (names : List String) : List String :=
  if isUnion then names.take 1 else names

theorem firstIf_isPrefix (isUnion : Bool) (names : List String) : firstIf isUnion names <+: names := by
  cases isUnion
  · exact List.prefix_rfl
  · exact List.take_prefix 1 names

/-! ## Subobjects -/

def isUnnamedField (env : Env) (id : DeclId) : Bool :=
  (env.ast.decl? id).any fun d =>
    match d.kind with
    | .field _ => d.name = ""
    | _ => false

def baseNames (r : Record) : List String :=
  if r.bases.isEmpty then [] else ["Base"]

def memberNames (env : Env) (r : Record) : List String :=
  placeNames env (r.members.filter fun id => !isUnnamedField env id)

/-- The C# names of the subobjects of a record in the order of its initial values. -/
def subobjectNames (env : Env) (r : Record) : List String :=
  baseNames r ++ firstIf (r.tag == .union) (memberNames env r)

/-- Whether an element stands for a value of its own. -/
def isGiven (env : Env) (id : ExprId) : Bool :=
  (env.ast.expr? id).any fun e => e.kind ≠ .valueInit

/-- The targets of the elements that are given, each at its own place. -/
def targetsOf (env : Env) (targets : List String) (elements : List ExprId) : List String :=
  ((targets.zip elements).filter fun p => isGiven env p.2).map Prod.fst

theorem initializedFields_cases {names : List String} {elements : List ExprId}
    (hlength : elements.length ≤ names.length)
    (h : (initializedFields parts (names.zip elements)).Gives env scope fields) :
    fields.map Prod.fst = targetsOf env names elements ∧
      List.Forall₂ (fun id value => (parts.value id).Gives env scope value)
        (elements.filter (isGiven env)) (fields.map Prod.snd) := by
  induction elements generalizing names fields with
  | nil =>
    rw [List.zip_nil_right] at h
    obtain rfl := gives_pure.mp h
    simp [targetsOf]
  | cons element elements ih =>
    obtain _ | ⟨name, names⟩ := names
    · simp at hlength
    replace hlength : elements.length ≤ names.length := by simpa using hlength
    simp only [List.zip_cons_cons, initializedFields, gives_bind, gives_exprOf] at h
    obtain ⟨e, he, h⟩ := h
    split at h
    · rename_i hkind
      have hskip : isGiven env element = false := by simp [isGiven, he, hkind]
      simpa [targetsOf, hskip] using ih hlength h
    · rename_i hkind
      have hgiven : isGiven env element = true := by simpa [isGiven, he] using hkind
      simp only [gives_bind, gives_pure] at h
      obtain ⟨value, hvalue, rest, h, rfl⟩ := h
      obtain ⟨hnames, hvalues⟩ := ih hlength h
      simp [targetsOf, hgiven, hvalue, hvalues, hnames]

theorem targetsOf_eq_iff {names others : List String} {elements : List ExprId}
    (hnames : elements.length ≤ names.length) (hothers : elements.length ≤ others.length) :
    targetsOf env names elements = targetsOf env others elements ↔
      ∀ (i : Nat) id, elements[i]? = some id → isGiven env id = true → names[i]? = others[i]? := by
  induction elements generalizing names others with
  | nil => simp [targetsOf]
  | cons element elements ih =>
    obtain _ | ⟨name, names⟩ := names
    · simp at hnames
    obtain _ | ⟨other, others⟩ := others
    · simp at hothers
    have hrest := @ih names others (by simpa using hnames) (by simpa using hothers)
    rw [← Nat.and_forall_add_one]
    cases hgiven : isGiven env element <;> simp [targetsOf, hgiven, ← hrest]

/-! ## Counting places -/

theorem placeName_eq_empty_iff {id : DeclId} (hs : env.symbols.Describes env.ast settings)
    (h : placeName? env id = some name) : name = "" ↔ isUnnamedField env id = true := by
  obtain ⟨d, hd, h⟩ := Option.bind_eq_some_iff.mp h
  have hdecl := hs.name id d hd
  cases hkind : d.kind <;> simp only [hkind] at h
  case field f =>
    simp only [declName?, hkind] at hdecl
    obtain rfl := Option.some.inj h
    rw [← Option.some.inj hdecl]
    have hempty : Managed.escapeIdentifier d.name = "" ↔ d.name = "" := by
      refine ⟨Managed.eq_empty_of_escapeIdentifier, fun h => ?_⟩
      rw [h]
      rfl
    simp [isUnnamedField, hd, hkind, hempty]
  case record r =>
    split at h
    · obtain ⟨member, hmember, rfl⟩ := Option.map_eq_some_iff.mp h
      obtain ⟨numbered, position, hfield⟩ := hs.anonymous_field hmember
      cases numbered <;> simp [hfield, anonymousField, isUnnamedField, hd, hkind]
    · cases h
  all_goals cases h

theorem placeNames_filter (hs : env.symbols.Describes env.ast settings) (members : List DeclId) :
    placeNames env (members.filter fun id => !isUnnamedField env id) =
      (placeNames env members).filter (· ≠ "") := by
  unfold placeNames
  rw [List.filter_filterMap, List.filterMap_filter]
  congr 1
  funext id
  cases hname : placeName? env id with
  | none => simp
  | some name =>
    have hempty := placeName_eq_empty_iff hs hname
    cases hunnamed : isUnnamedField env id <;> simp_all [Option.filter]

theorem placeName_of_steps {id : DeclId} (hanonymous : ∀ d, env.ast.decl? id = some d →
      isAnonymousRecord d = true → (env.symbols.anonymous? id).isSome = true)
    (hname : (initializerName id).Gives env scope name) (htakes : (takesPlace id).Gives env scope takes) :
    name = placeName? env id ∧ takes = name.isSome := by
  simp only [initializerName, gives_bind, gives_decl] at hname
  obtain ⟨d, hd, hname⟩ := hname
  simp only [takesPlace, gives_bind, gives_decl, exists_found hd] at htakes
  have hrecord := hanonymous d hd
  cases hkind : d.kind <;> simp only [hkind, gives_bind, gives_nameOf, gives_pure, exists_eq_left] at hname htakes
  case field => simp [placeName?, hd, hkind, ← hname, ← htakes]
  case record r =>
    cases hflag : r.isAnonymous <;> simp only [hflag] at hname htakes
    · obtain rfl := gives_pure.mp hname
      simp [placeName?, hd, hkind, hflag, ← htakes]
    · have hsome := hrecord (by simpa [isAnonymousRecord, hkind] using hflag)
      simp only [if_true, gives_bind, gives_symbols, exists_eq_left, gives_pure] at hname
      simp [placeName?, hd, hkind, hflag, ← hname, ← htakes, hsome]
  all_goals simp [placeName?, hd, hkind, ← hname, ← htakes]

theorem initializerNames_eq
    (hanonymous : ∀ id ∈ members, ∀ d, env.ast.decl? id = some d → isAnonymousRecord d = true →
      (env.symbols.anonymous? id).isSome = true)
    (h : (initializerNames isUnion members).Gives env scope names) :
    names = firstIf isUnion (placeNames env members) := by
  induction members generalizing names with
  | nil =>
    obtain rfl := gives_pure.mp h
    cases isUnion <;> rfl
  | cons id members ih =>
    simp only [initializerNames, gives_bind] at h
    obtain ⟨name, hname, takes, htakes, h⟩ := h
    obtain ⟨rfl, rfl⟩ := placeName_of_steps (hanonymous id (List.mem_cons_self ..)) hname htakes
    have hrest : ∀ {rest}, (initializerNames isUnion members).Gives env scope rest →
        rest = firstIf isUnion (placeNames env members) :=
      ih fun id hid => hanonymous id (List.mem_cons_of_mem _ hid)
    have hcons : placeNames env (id :: members) = (placeName? env id).toList ++ placeNames env members := by
      cases hplace : placeName? env id <;> simp [placeNames, hplace]
    rw [hcons]
    split at h
    · rename_i hfirst
      obtain rfl := gives_pure.mp h
      obtain ⟨rfl, hsome⟩ := Bool.and_eq_true_iff.mp hfirst
      obtain ⟨name, hplace⟩ := Option.isSome_iff_exists.mp hsome
      simp [hplace, firstIf]
    · rename_i hother
      simp only [gives_bind, gives_pure] at h
      obtain ⟨rest, h, rfl⟩ := h
      rw [hrest h]
      cases isUnion <;> cases hplace : placeName? env id <;> simp_all [firstIf]

/-- A place has the name of the subobject with its number exactly if as many subobjects stand before it. -/
theorem place_eq_subobject_iff {places base : List String} {i : Nat} (hi : i < places.length)
    (hlt : i < (base ++ places.filter (· ≠ "")).length) (hbase : "" ∉ base)
    (hnodup : (base ++ places.filter (· ≠ "")).Nodup) :
    places[i]? = (base ++ places.filter (· ≠ ""))[i]? ↔
      places[i]? ≠ some "" ∧ base.length + (places.take i).countP (· ≠ "") = i := by
  obtain ⟨before, name, behind, rfl, rfl⟩ : ∃ before name behind, places = before ++ name :: behind ∧
      i = before.length := ⟨places.take i, places[i], places.drop (i + 1), by simp, by simp; omega⟩
  have hplace : (before ++ name :: behind)[before.length]? = some name := by simp
  rw [hplace, List.take_left]
  by_cases hname : name = ""
  · refine iff_of_false (fun h => ?_) (fun h => h.1 (congrArg some hname))
    have hmem := List.mem_of_getElem? (hname ▸ h.symm)
    simp [hbase] at hmem
  · -- The place is among the subobjects, behind those that stand before it.
    have hfound : (base ++ (before ++ name :: behind).filter (· ≠ ""))[base.length +
        before.countP (· ≠ "")]? = some name := by
      rw [List.getElem?_append_right (by omega), Nat.add_sub_cancel_left, List.countP_eq_length_filter,
        List.filter_append, List.getElem?_append_right (le_refl _)]
      simp [hname]
    have hne : some name ≠ some "" := by simpa using hname
    rw [and_iff_right hne, ← hfound, eq_comm, List.getElem?_inj hlt hnodup, eq_comm]

/-- **Values are given to the subobjects that they are meant for** exactly if each of them finds as many
subobjects before its place as there are places. -/
theorem initializers_bind_subobjects_iff {ast : Native.Ast} {parts : Parts} {e : Native.Expr} {record : DeclId}
    {d : Decl} {elements : List ExprId} {out : Managed.Expr} (henv : prepare settings ast = .ok env)
    (htype : env.ast.canonicalKind? e.type = some (.record record))
    (hd : env.ast.decl? (env.symbols.definition record) = some d) (hkind : d.kind = .record r)
    (hnodup : (baseNames r ++ memberNames env r).Nodup) (hne : elements ≠ [])
    (hlength : elements.length ≤ (subobjectNames env r).length)
    (h : (initListRule parts e elements).Gives env scope out) :
    ∃ type fields, out = .objectOf type fields ∧
      List.Forall₂ (fun id value => (parts.value id).Gives env scope value)
        (elements.filter (isGiven env)) (fields.map Prod.snd) ∧
      (fields.map Prod.fst = targetsOf env (subobjectNames env r) elements ↔
        ∀ (i : Nat) id, elements[i]? = some id → isGiven env id = true →
          (placeNames env r.members)[i]? ≠ some "" ∧
            (baseNames r).length + ((placeNames env r.members).take i).countP (· ≠ "") = i) := by
  have hs := Symbols.describes_of_prepare henv
  have hanonymous : ∀ id ∈ r.members, ∀ d, env.ast.decl? id = some d → isAnonymousRecord d = true →
      (env.symbols.anonymous? id).isSome = true := by
    intro id hid d' hd' hflag
    obtain ⟨member, hmember⟩ := hs.exists_anonymous ⟨⟨d, r, hd, hkind, hid⟩, d', hd', hflag⟩
    exact Option.isSome_iff_exists.mpr ⟨member, hmember⟩
  simp only [initListRule, recordInit, initializerNamesOf, gives_bind, gives_canonicalKind,
    exists_found htype] at h
  obtain ⟨mapped, -, h⟩ := h
  rw [if_neg (by simpa using hne)] at h
  simp only [gives_bind, gives_symbols, exists_eq_left, gives_decl, exists_found hd, hkind] at h
  obtain ⟨names, hnames, h⟩ := h
  obtain rfl := initializerNames_eq hanonymous hnames
  split at h
  · simp at h
  rename_i hcount
  simp only [gives_bind, gives_pure] at h
  obtain ⟨fields, hfields, rfl⟩ := h
  obtain ⟨htargets, hvalues⟩ := initializedFields_cases (not_lt.mp hcount) hfields
  refine ⟨mapped.type, fields, rfl, hvalues, ?_⟩
  rw [htargets, targetsOf_eq_iff (not_lt.mp hcount) hlength]
  refine forall_congr' fun i => forall_congr' fun id => forall_congr' fun hid => forall_congr' fun _ => ?_
  have hi : i < elements.length := (List.getElem?_eq_some_iff.mp hid).1
  have hstart : ∀ {l l' : List String}, l <+: l' → i < l.length → l[i]? = l'[i]? ∧ i < l'.length :=
    fun h hi => ⟨(List.getElem?_eq_getElem hi).trans (List.prefix_iff_getElem?.mp h i hi).symm,
      hi.trans_le h.length_le⟩
  obtain ⟨hplace, hplaces⟩ := hstart (firstIf_isPrefix _ _) (hi.trans_le (not_lt.mp hcount))
  obtain ⟨hsubobject, hsubobjects⟩ := hstart
    ((List.prefix_append_right_inj (baseNames r)).mpr (firstIf_isPrefix _ _)) (hi.trans_le hlength)
  rw [hplace, subobjectNames, hsubobject]
  rw [memberNames, placeNames_filter hs] at hnodup hsubobjects ⊢
  refine place_eq_subobject_iff hplaces hsubobjects ?_ hnodup
  unfold baseNames
  split <;> simp

/-- A record with a bit field in the middle, and a list of two values for it. -/
def banner (second : String) : Native.Ast where
  file := "banner.h"
  topLevel := [⟨0⟩]
  decls :=
    #[{ kind := .record { tag := .struct, members := [⟨1⟩, ⟨2⟩, ⟨3⟩] }, name := "Banner" },
      { kind := .field { type := ⟨0⟩ }, name := "width", parent := some ⟨0⟩ },
      { kind := .field { type := ⟨0⟩, bitWidth := some 3 }, name := second, parent := some ⟨0⟩ },
      { kind := .field { type := ⟨0⟩ }, name := "height", parent := some ⟨0⟩ }]
  types := #[.ofBuiltin .int, { kind := .record ⟨0⟩, spelling := "Banner" }]
  exprs :=
    #[{ kind := .initList [⟨1⟩, ⟨2⟩], type := ⟨1⟩ }, { kind := .integer "640", type := ⟨0⟩ },
      { kind := .integer "4", type := ⟨0⟩ }]

def modeBanner : Env :=
  ⟨banner "mode", {}, ⟨#["Banner", "width", "mode", "height"], [], [], [], [], [], []⟩⟩

theorem banner_values_in_place : prepare {} (banner "mode") = .ok modeBanner ∧
    ∃ type fields, (initListRule (partsTo 1) { kind := .initList [⟨1⟩, ⟨2⟩], type := ⟨1⟩ }
      [⟨1⟩, ⟨2⟩]).Gives modeBanner {} (.objectOf type fields) ∧ fields.map Prod.fst = ["width", "mode"] := by
  have henv : prepare {} (banner "mode") = .ok modeBanner := rfl
  have hgives : (initListRule (partsTo 1) { kind := .initList [⟨1⟩, ⟨2⟩], type := ⟨1⟩ }
      [⟨1⟩, ⟨2⟩]).Gives modeBanner {} _ := gives_of_run (c := {}) rfl
  obtain ⟨type, fields, hout, -, hiff⟩ := initializers_bind_subobjects_iff henv (by rfl) (by rfl) rfl
    (by decide) (by simp) (by decide) hgives
  refine ⟨henv, type, fields, hout ▸ hgives, (hiff.mpr ?_).trans (by decide)⟩
  intro i id hid _
  have hi : i < 2 := (List.getElem?_eq_some_iff.mp hid).1
  interval_cases i <;> decide

theorem unnamed_bits_take_value : ∃ env type fields, prepare {} (banner "") = .ok env ∧
    (emitValue ⟨0⟩).Gives env {} (.objectOf type fields) ∧ fields.map Prod.fst = ["width", ""] :=
  ⟨_, _, _, rfl, gives_of_run (c := {}) rfl, rfl⟩

end Interop.Binding
