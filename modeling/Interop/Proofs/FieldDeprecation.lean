import Interop.Proofs.StructMembers

/-!
# Deprecated fields

A field is deprecated by itself, or by a typedef that names its type. `field_deprecation_kept_iff` says
when the C# member for it is marked like that: fields and buffers always are, but a property for a bit
field knows nothing about typedefs.
-/

namespace Interop.Managed

def Attribute.deprecation? : Attribute → Option (Option String)
  | .obsolete message => some message
  | _ => none

/-- The message of the mark on a value of a struct. -/
def Member.deprecation? : Member → Option (Option String)
  | .field attrs _ _ _ _ | .property attrs _ _ _ _ => attrs.findSome? Attribute.deprecation?
  | _ => none

end Interop.Managed

namespace Interop.Binding

open Native (Ast DeclId TypeId)
open Emit
open Managed (Member Attribute)
open Symbols (IsRecordDefinition)

/-! ## Native deprecation -/

def deprecation? (ast : Ast) (id : DeclId) : Option (Option String) :=
  (ast.decl? id).bind fun d => d.attrs.deprecated.map (·.message)

/-- The typedefs that name a type, outermost first. -/
inductive IsNamedBy (ast : Ast) : TypeId → List DeclId → Prop
  | base : ast.type? type = some t → (∀ id underlying, t.kind ≠ .typedef id underlying) → IsNamedBy ast type []
  | typedef {id : DeclId} : ast.type? type = some t → t.kind = .typedef id underlying →
      IsNamedBy ast underlying chain → IsNamedBy ast type (id :: chain)

/-- The message for a field: its own if it is deprecated, or that of the outermost deprecated typedef. -/
def fieldDeprecation? (ast : Ast) (id : DeclId) (chain : List DeclId) : Option (Option String) :=
  (id :: chain).findSome? (deprecation? ast)

/-! ## Marks -/

variable {env : Env} {scope : Scope} {id record : DeclId} {type : TypeId} {chain : List DeclId}

theorem ensures_mark_of_decl :
    (obsoleteAttribute id).Ensures env imports (· = (deprecation? env.ast id).map .obsolete) := by
  refine Ensures.decl.bind fun d hd => ?_
  rw [deprecation?, hd]
  split
  · rename_i hnone
    exact .pure (by simp [hnone])
  · rename_i deprecation hsome
    exact .skip fun _ => .pure (by simp [hsome])

theorem findSome_of_deprecatedTypedef {found : Option DeclId} (hchain : IsNamedBy env.ast type chain)
    (h : deprecatedTypedef? env.ast fuel type = some found) :
    chain.findSome? (deprecation? env.ast) = found.bind (deprecation? env.ast) := by
  induction hchain generalizing fuel with
  | base ht hkind =>
    cases fuel with
    | zero => cases h
    | succ fuel =>
      simp only [deprecatedTypedef?, ht, bind, Option.bind_some] at h
      obtain rfl := Option.some.inj h
      rfl
  | @typedef type t underlying chain id ht hkind hchain ih =>
    cases fuel with
    | zero => cases h
    | succ fuel =>
      simp only [deprecatedTypedef?, ht, hkind, bind, Option.bind_some, Option.bind_eq_some_iff] at h
      obtain ⟨d, hd, h⟩ := h
      have hown : deprecation? env.ast id = d.attrs.deprecated.map (·.message) := by simp [deprecation?, hd]
      split at h
      · rename_i hsome
        obtain rfl := Option.some.inj h
        obtain ⟨deprecation, hdeprecation⟩ := Option.isSome_iff_exists.mp hsome
        simp [hown, hdeprecation]
      · rename_i hnone
        rw [List.findSome?_cons, hown, Option.not_isSome_iff_eq_none.mp hnone]
        exact ih h

theorem ensures_mark_of_field (hchain : IsNamedBy env.ast type chain) :
    (fieldObsoleteAttribute id type).Ensures env imports
      (· = (fieldDeprecation? env.ast id chain).map .obsolete) := by
  refine ensures_mark_of_decl.bind fun mark hmark => ?_
  rw [fieldDeprecation?, List.findSome?_cons]
  cases hown : deprecation? env.ast id with
  | some message =>
    rw [hown] at hmark
    subst hmark
    exact .pure rfl
  | none =>
    rw [hown] at hmark
    subst hmark
    refine Ensures.of_gives fun scope mark h => ?_
    change (typedefObsoleteAttribute type).Gives env scope mark at h
    simp only [typedefObsoleteAttribute, gives_bind, gives_ast, exists_eq_left, gives_lift_option] at h
    obtain ⟨found, hfound, h⟩ := h
    rw [findSome_of_deprecatedTypedef hchain hfound]
    cases found with
    | none => exact (gives_pure.mp h).symm
    | some typedef => exact h.of_ensures fun _ => ensures_mark_of_decl

/-! ## Members -/

theorem deprecation_of_attrs {mark : Option (Option String)} {attrs : List Attribute}
    (h : attrs.findSome? Attribute.deprecation? = none) :
    (attrs ++ (mark.map Attribute.obsolete).toList).findSome? Attribute.deprecation? = mark := by
  rw [List.findSome?_append, h]
  cases mark <;> rfl

theorem deprecation_of_native (native : String) (mark : Option (Option String)) :
    (.nativeTypeName native :: (mark.map Attribute.obsolete).toList).findSome? Attribute.deprecation? = mark :=
  deprecation_of_attrs (show [Attribute.nativeTypeName native].findSome? Attribute.deprecation? = none from rfl)

theorem deprecation_nativeAttribute (m : MappedType) :
    m.nativeAttribute.findSome? Attribute.deprecation? = none := by
  unfold MappedType.nativeAttribute
  cases m.nativeTypeName? <;> rfl

theorem ensures_deprecation_of_arrayField (hchain : IsNamedBy env.ast type chain)
    (hoffset : offset.findSome? Attribute.deprecation? = none) :
    (arrayField id d type element size offset).Ensures env imports fun items =>
      ∀ m ∈ items.fields, m.deprecation? = fieldDeprecation? env.ast id chain := by
  refine .skip fun element => .skip fun spelled => (ensures_mark_of_field hchain).bind fun mark hmark => ?_
  subst hmark
  have hattrs : (offset ++ .nativeTypeName spelled ::
      ((fieldDeprecation? env.ast id chain).map Attribute.obsolete).toList).findSome? Attribute.deprecation? =
        fieldDeprecation? env.ast id chain := by
    rw [List.findSome?_append, hoffset]
    exact deprecation_of_native spelled _
  refine .skip fun name => .ite (.skip fun _ => .pure ?_) (.skip fun _ => .pure ?_)
  · exact List.forall_mem_singleton.mpr hattrs
  · exact List.forall_mem_singleton.mpr hattrs

theorem ensures_deprecation_of_placedField {f : Native.Field} (hchain : IsNamedBy env.ast f.type chain)
    (hoffset : offset.findSome? Attribute.deprecation? = none) :
    (do
      match ← arrayShape f.type d.location with
      | some (element, size) => arrayField id d f.type element size offset
      | none =>
        let mapped ← mapType f.type .field d.location
        let obsolete ← fieldObsoleteAttribute id f.type
        let attrs := offset ++ mapped.nativeAttribute ++ obsolete.toList
        return { fields := [.field attrs .plain mapped.type (← nameOf id) none] } :
      Emit RecordItems).Ensures env imports fun items =>
        ∀ m ∈ items.fields, m.deprecation? = fieldDeprecation? env.ast id chain := by
  refine .skip fun shape => ?_
  cases shape with
  | some shape => exact ensures_deprecation_of_arrayField hchain hoffset
  | none =>
    refine .skip fun mapped => (ensures_mark_of_field hchain).bind fun mark hmark => .skip fun name => ?_
    subst hmark
    refine .pure (List.forall_mem_singleton.mpr (deprecation_of_attrs ?_))
    rw [List.findSome?_append, hoffset, deprecation_nativeAttribute]
    rfl

theorem ensures_deprecation_of_emitField {f : Native.Field} (hchain : IsNamedBy env.ast f.type chain) :
    (emitField id d f isUnion).Ensures env imports fun items =>
      ∀ m ∈ items.fields, m.deprecation? = fieldDeprecation? env.ast id chain := by
  cases isUnion with
  | false => exact ensures_deprecation_of_placedField hchain rfl
  | true =>
    have hoffset : (unionOffset d f).Ensures env imports (·.deprecation? = none) := by
      unfold unionOffset
      split
      · exact .ite (.pure rfl) (.skip fun _ => .pure rfl)
      · exact .pure rfl
    exact hoffset.bind fun offset h => ensures_deprecation_of_placedField hchain (by simp [h])

theorem ensures_deprecation_of_bitProperty :
    (bitProperty place u slot).Ensures env imports (·.deprecation? = deprecation? env.ast slot.field) := by
  refine .skip fun d => ?_
  split
  · refine .skip fun mapped => ensures_mark_of_decl.bind fun mark hmark => .skip fun name => .pure ?_
    subst hmark
    rw [Member.deprecation?, deprecation_of_native]
  · exact .malformed

theorem deprecation_of_isEmittedFor {f : Native.Field} {m : Member} (h : IsEmittedFor env record id m)
    (hd : env.ast.decl? id = some d) (hkind : d.kind = .field f) (hchain : IsNamedBy env.ast f.type chain) :
    m.deprecation? = if f.bitWidth = none then fieldDeprecation? env.ast id chain else deprecation? env.ast id := by
  cases h with
  | field _ hd' hkind' hwidth hitems hm =>
    obtain rfl := Option.mem_unique hd' hd
    obtain rfl := Native.DeclKind.field.inj (hkind'.symm.trans hkind)
    rw [if_pos hwidth]
    exact hitems.of_ensures (fun _ => ensures_deprecation_of_emitField hchain) m hm
  | property _ _ _ hfield hm =>
    have hmark := hm.of_ensures fun _ => ensures_deprecation_of_bitProperty
    rw [hfield] at hmark
    obtain ⟨d', hd', hm⟩ := gives_bind.mp hm
    rw [gives_decl, hfield] at hd'
    obtain rfl := Option.mem_unique hd' hd
    rw [hkind] at hm
    split at hm
    · rename_i hfields
      rw [if_neg (by simp [Native.DeclKind.field.inj hfields]), hmark]
    · simp at hm

/-- **The mark on a field is kept unless a typedef deprecates a bit field.** -/
theorem field_deprecation_kept_iff {f : Native.Field} (hrecord : IsRecordDefinition env.ast record)
    (h : (emitRecord record).Gives env scope (.record attrs usesPointers name members))
    (hid : IsFieldIn env record id) (hd : env.ast.decl? id = some d) (hkind : d.kind = .field f)
    (hchain : IsNamedBy env.ast f.type chain) :
    (∃ m ∈ members, IsEmittedFor env record id m) ∧ ∀ m, IsEmittedFor env record id m →
      (m.deprecation? = fieldDeprecation? env.ast id chain ↔
        f.bitWidth = none ∨ (deprecation? env.ast id).isSome ∨ ∀ t ∈ chain, deprecation? env.ast t = none) := by
  refine ⟨?_, fun m hm => ?_⟩
  · obtain ⟨_, r, depth, scope', inherited, own, -, -, -, -, hown, rfl, -⟩ :=
      (isStructOf_of_emitRecord hrecord h).cases
    obtain ⟨m, hm, hemitted⟩ := exists_emitted_of_field hown rfl hid
    exact ⟨m, (RecordItems.members_append_subset.mp (List.Subset.refl _)).2 hm, hemitted⟩
  · rw [deprecation_of_isEmittedFor hm hd hkind hchain]
    split
    · rename_i hwidth
      simp [hwidth]
    · rename_i hwidth
      rw [fieldDeprecation?, List.findSome?_cons]
      cases deprecation? env.ast id with
      | some message => simp
      | none =>
        rw [eq_comm]
        simp [hwidth]

/-- A record with a field and a bit field whose type is a deprecated typedef. -/
def mixer : Ast where
  file := "mixer.h"
  topLevel := [⟨0⟩, ⟨1⟩]
  decls :=
    #[{ kind := .typedef ⟨0⟩, name := "Level", attrs := { deprecated := some ⟨some "use Gain"⟩ } },
      { kind := .record { tag := .struct, members := [⟨2⟩, ⟨3⟩] }, name := "Mixer" },
      { kind := .field { type := ⟨1⟩ }, name := "master", parent := some ⟨1⟩ },
      { kind := .field { type := ⟨1⟩, bitWidth := some 3 }, name := "muted", parent := some ⟨1⟩ }]
  types := #[.ofBuiltin .int, { kind := .typedef ⟨0⟩ ⟨0⟩, spelling := "Level" }]

theorem mixer_named : IsNamedBy mixer ⟨1⟩ [⟨0⟩] :=
  .typedef rfl rfl (.base rfl fun _ _ h => by cases h)

theorem mixer_emitted : ∃ env, prepare {} mixer = .ok env ∧ env.ast = mixer ∧
    ∃ attrs usesPointers name members,
      (emitRecord ⟨1⟩).Gives env {} (.record attrs usesPointers name members) :=
  ⟨_, rfl, rfl, _, _, _, _, gives_of_run (c := {}) rfl⟩

theorem mixer_master_marked : ∃ env members m, prepare {} mixer = .ok env ∧ m ∈ members ∧
    (∃ attrs usesPointers name, (emitRecord ⟨1⟩).Gives env {} (.record attrs usesPointers name members)) ∧
      IsEmittedFor env ⟨1⟩ ⟨2⟩ m ∧ m.deprecation? = some (some "use Gain") := by
  obtain ⟨env, henv, hast, attrs, usesPointers, name, members, h⟩ := mixer_emitted
  have hid : IsFieldIn env ⟨1⟩ ⟨2⟩ := by
    refine ⟨⟨_, _, by rw [hast]; rfl, rfl, by decide, by decide⟩, _, _, by rw [hast]; rfl, rfl, by decide⟩
  obtain ⟨⟨m, hm, hemitted⟩, hkept⟩ := field_deprecation_kept_iff ⟨_, _, by rw [hast]; rfl, rfl, rfl⟩ h hid
    (by rw [hast]; rfl) rfl (by rw [hast]; exact mixer_named)
  refine ⟨env, members, m, henv, hm, ⟨attrs, usesPointers, name, h⟩, hemitted, ?_⟩
  rw [(hkept m hemitted).mpr (.inl rfl), hast]
  decide

theorem mixer_muted_not_marked : ∃ env m, prepare {} mixer = .ok env ∧ IsEmittedFor env ⟨1⟩ ⟨3⟩ m ∧
    fieldDeprecation? env.ast ⟨3⟩ [⟨0⟩] = some (some "use Gain") ∧ m.deprecation? = none := by
  obtain ⟨env, henv, hast, attrs, usesPointers, name, members, h⟩ := mixer_emitted
  have hd : env.ast.decl? ⟨3⟩ = mixer.decl? ⟨3⟩ := by rw [hast]
  have hid : IsFieldIn env ⟨1⟩ ⟨3⟩ :=
    ⟨⟨_, _, by rw [hast]; rfl, rfl, by decide, by decide⟩, _, _, hd, rfl, by decide⟩
  obtain ⟨_, r, depth, scope, inherited, own, -, -, -, -, hown, -⟩ :=
    (isStructOf_of_emitRecord ⟨_, _, by rw [hast]; rfl, rfl, rfl⟩ h).cases
  obtain ⟨m, -, hemitted⟩ := exists_emitted_of_field hown rfl hid
  refine ⟨env, m, henv, hemitted, by rw [hast]; decide, ?_⟩
  rw [deprecation_of_isEmittedFor hemitted hd rfl (by rw [hast]; exact mixer_named), hast]
  decide

end Interop.Binding
