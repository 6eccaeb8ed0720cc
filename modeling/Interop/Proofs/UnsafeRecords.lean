import Interop.Proofs.PointerContexts
import Interop.Proofs.PointerTypes
import Interop.Proofs.StructMembers

/-!
# Records that need an unsafe context

A struct is `unsafe` if one of its members uses pointers. What a step gives without using pointers has no
pointers in its types (`Emit.Unflagged`), so a type that has some is covered by the flag of the struct.
The converse names what the flag comes from: a member that is skipped is nothing of the sort.
-/

namespace Interop.Managed

def Parameter.types : Parameter → List TypeName
  | .value _ type _ => [type]
  | .receiver record => [.pointer (.named record)]
  | .arglist => []

namespace Member

/-- The types that a member is declared with; a nested type answers for its own. -/
def types : Member → List TypeName
  | .field _ _ type _ _ => [type]
  | .property _ type _ _ _ => [type]
  | .accessor _ _ type _ _ => [type]
  | .method m => m.result :: m.params.flatMap Parameter.types
  | .record _ _ _ _ => []
  | .enum _ _ _ _ => []

def isBuffer : Member → Bool
  | .field _ (.buffer _) _ _ _ => true
  | _ => false

/-- The member can stand in unsafe code only. -/
def usesPointers (m : Member) : Bool :=
  m.isBuffer || m.types.any TypeName.hasPointers

end Member

end Interop.Managed

namespace Interop.Binding

open Native (DeclId TypeId)
open Emit
open Managed (Member TypeName Parameter)

variable {env : Env} {scope : Scope} {id record : DeclId} {type : TypeId}

/-! ## Steps without pointers -/

namespace Emit

/-- Whatever the step gives without using pointers has the property. -/
def Unflagged (m : Emit α) (env : Env) (P : α → Prop) : Prop :=
  ∀ scope a, m.Marks env scope a false → P a

namespace Unflagged

variable {m n : Emit α} {f : α → Emit β} {P : α → Prop} {R : β → Prop} {a : α}

theorem bind (hm : m.Unflagged env P) (hf : ∀ a, P a → (f a).Unflagged env R) : (m >>= f).Unflagged env R := by
  intro scope b h
  obtain ⟨a, p, hp, q, hq, hflag⟩ := marks_bind.mp h
  obtain ⟨rfl, rfl⟩ := Bool.or_eq_false_iff.mp hflag.symm
  exact hf a (hm scope a hp) scope b hq

theorem skip (hf : ∀ a, (f a).Unflagged env R) : (m >>= f).Unflagged env R :=
  bind (P := fun _ => True) (fun _ _ _ => trivial) fun a _ => hf a

theorem ite {p : Prop} [Decidable p] (hm : m.Unflagged env P) (hn : n.Unflagged env P) :
    (if p then m else n).Unflagged env P := by
  split
  · exact hm
  · exact hn

theorem pure (h : P a) : (Pure.pure a : Emit α).Unflagged env P :=
  fun _ _ hmarks => (marks_pure.mp hmarks).1 ▸ h

theorem ofResult {r : Result α} (h : ∀ a, r = .ok a → P a) : (ofResult r).Unflagged env P :=
  fun _ _ hmarks => h _ (gives_ofResult.mp hmarks.gives)

theorem unsupported : (unsupported node location reason : Emit α).Unflagged env P :=
  fun _ _ hmarks => absurd hmarks not_marks_unsupported

theorem malformed : (malformed node location reason : Emit α).Unflagged env P :=
  fun _ _ hmarks => absurd hmarks not_marks_malformed

theorem marked {f : Unit → Emit β} : (markPointers >>= f).Unflagged env R :=
  bind (P := fun _ => False) (fun _ _ h => by cases marks_markPointers.mp h) fun _ h => h.elim

theorem forEach {as : List α} (h : ∀ a, (f a).Unflagged env R) :
    (forEach f as).Unflagged env fun bs => ∀ b ∈ bs, R b := by
  induction as with
  | nil => exact .pure (List.forall_mem_nil _)
  | cons a as ih =>
    refine (h a).bind fun b hb => ih.bind fun bs hbs => .pure ?_
    exact List.forall_mem_cons.mpr ⟨hb, hbs⟩

end Unflagged

/-! ## Members that are kept or skipped -/

variable {m : Emit α}

theorem marks_skippableMember (h : (skippableMember m).Marks env scope r flag) :
    (∃ a, r = some a ∧ m.Marks env scope a flag) ∨ r = none ∧ flag = false := by
  obtain ⟨⟨result, uses⟩, p, hp, q, hq, rfl⟩ := marks_bind.mp h
  -- The use of pointers inside does not show outside by itself.
  obtain ⟨effects, hdoes⟩ := hp.gives.of_contained.does
  obtain rfl : p = false := hp.flag_eq ⟨_, hdoes.contained, rfl⟩
  have hinner := Marks.of_contained hp.gives
  cases result with
  | none =>
    simp only [Option.isSome_none, Bool.false_and, Bool.false_eq_true, if_false, marks_pure] at hq
    exact .inr ⟨hq.1.symm, by simp [hq.2]⟩
  | some a =>
    cases uses with
    | false =>
      simp only [Bool.and_false, Bool.false_eq_true, if_false, marks_pure] at hq
      obtain ⟨rfl, rfl⟩ := hq
      exact .inl ⟨a, rfl, hinner.of_skippable⟩
    | true =>
      simp only [Option.isSome_some, Bool.and_true, if_true, marks_bind, marks_markPointers, marks_pure] at hq
      obtain ⟨-, _, rfl, _, ⟨rfl, rfl⟩, rfl⟩ := hq
      exact .inl ⟨a, rfl, hinner.of_skippable⟩

theorem Unflagged.skippableMember {P : α → Prop} (h : m.Unflagged env P) :
    (skippableMember m).Unflagged env fun r => ∀ a ∈ r, P a := by
  rintro scope r hmarks a rfl
  rcases marks_skippableMember hmarks with ⟨b, hb, hkept⟩ | ⟨hnone, -⟩
  · cases hb
    exact h scope a hkept
  · cases hnone

end Emit

/-! ## Types -/

theorem usesPointers_of_mapType (h : (mapType type usage location).Gives env scope m) :
    m.usesPointers = m.type.hasPointers := by
  exact (isFlagged_of_map (gives_mapType.mp h)).flag

theorem unflagged_mapType : (mapType type usage location).Unflagged env fun m => m.type.hasPointers = false := by
  intro scope m h
  obtain ⟨hgives, hflag⟩ := marks_mapType.mp h
  rw [← usesPointers_of_mapType hgives, ← hflag]

/-! ## Callables and variables -/

theorem unflagged_parameterOf :
    (parameterOf id).Unflagged env fun p => ∀ t ∈ p.types, t.hasPointers = false := by
  refine .skip fun d => ?_
  split
  · refine unflagged_mapType.bind fun mapped hmapped => .skip fun name => .pure ?_
    exact List.forall_mem_singleton.mpr hmapped
  · exact .malformed

theorem usesPointers_method {m : Managed.Method} (hresult : m.result.hasPointers = false)
    (hparams : ∀ p ∈ m.params, ∀ t ∈ p.types, t.hasPointers = false) :
    (Member.method m).usesPointers = false := by
  simp only [Member.usesPointers, Member.isBuffer, Member.types, Bool.false_or, List.any_eq_false]
  intro t ht
  rcases List.mem_cons.mp ht with rfl | ht
  · simp [hresult]
  · obtain ⟨p, hp, ht⟩ := List.mem_flatMap.mp ht
    simp [hparams p hp t ht]

theorem unflagged_methodOf : (methodOf id d c).Unflagged env fun m => m.usesPointers = false := by
  refine .skip fun proto => unflagged_mapType.bind fun result hresult => ?_
  refine (Unflagged.forEach fun _ => unflagged_parameterOf).bind fun params hparams => ?_
  split
  · have hdefined : (definedMethod id d c proto result params ‹_›).Unflagged env fun m =>
        (Member.method m).usesPointers = false :=
      .ite .unsupported (.skip fun obsolete => .skip fun name => .skip fun body =>
        .pure (usesPointers_method hresult hparams))
    exact hdefined.bind fun m hm => .pure hm
  · have hreceiver : (markPointersIf c.receiver.isSome).Unflagged env fun _ => c.receiver = none := by
      intro scope u h
      rw [marks_markPointersIf] at h
      exact Option.not_isSome_iff_eq_none.mp (by simp [← h])
    have himported : (importedMethod id d c proto result params).Unflagged env fun m =>
        (Member.method m).usesPointers = false := by
      refine .skip fun source => .skip fun obsolete => hreceiver.bind fun _ hnone => .skip fun name => .pure ?_
      refine usesPointers_method hresult fun p hp t ht => ?_
      rw [hnone] at hp
      rcases List.mem_append.mp hp with hp | hp
      · exact hparams p (by simpa using hp) t ht
      · split at hp
        · rw [List.mem_singleton.mp hp] at ht
          cases ht
        · cases hp
    exact himported.bind fun m hm => .pure hm

theorem unflagged_emitMethod : (emitMethod record id).Unflagged env fun m => m.usesPointers = false := by
  refine .skip fun d => ?_
  split
  · exact .skip fun owner => unflagged_methodOf
  · exact .malformed

theorem usesPointers_field {attrs : List Managed.Attribute} {kind : Managed.FieldKind} {t : TypeName}
    {name : String} {value : Option Managed.Expr} (hkind : ∀ size, kind ≠ .buffer size)
    (ht : t.hasPointers = false) : (Member.field attrs kind t name value).usesPointers = false := by
  cases kind with
  | buffer size => exact absurd rfl (hkind size)
  | _ => simp [Member.usesPointers, Member.isBuffer, Member.types, ht]

theorem unflagged_emitGlobal : (emitGlobal id).Unflagged env fun m => m.usesPointers = false := by
  refine .skip fun d => ?_
  split
  · refine .ite .unsupported (unflagged_mapType.bind fun mapped hmapped => ?_)
    refine .skip fun obsolete => .skip fun name => ?_
    split
    · refine .skip fun ast => .skip fun t => .skip fun value => .pure ?_
      refine usesPointers_field (fun size => ?_) hmapped
      split <;> simp
    · refine .skip fun kind => ?_
      split
      · exact .skip fun element => .pure (usesPointers_field (by simp) hmapped)
      · exact .pure (usesPointers_field (by simp) hmapped)
  · exact .malformed

/-! ## Fields and accessors -/

def RecordItems.ArePointerFree (items : RecordItems) : Prop :=
  ∀ m ∈ items.members, m.usesPointers = false

namespace RecordItems.ArePointerFree

variable {a b items : RecordItems}

theorem append (ha : a.ArePointerFree) (hb : b.ArePointerFree) : (a ++ b).ArePointerFree :=
  fun m hm => (RecordItems.mem_members_append.mp hm).elim (ha m) (hb m)

theorem empty : ({} : RecordItems).ArePointerFree :=
  List.forall_mem_nil _

theorem of_groups (hfields : ∀ m ∈ items.fields, m.usesPointers = false)
    (hnested : ∀ m ∈ items.nested, m.usesPointers = false)
    (haccessors : ∀ m ∈ items.accessors, m.usesPointers = false)
    (hmethods : ∀ m ∈ items.methods, m.usesPointers = false)
    (hnamed : ∀ m ∈ items.named, m.usesPointers = false) : items.ArePointerFree := by
  intro m hm
  rcases RecordItems.mem_members.mp hm with h | h | h | h | h
  · exact hfields m h
  · exact hnested m h
  · exact haccessors m h
  · exact hmethods m h
  · exact hnamed m h

theorem ofFields {fields : List Member} (h : ∀ m ∈ fields, m.usesPointers = false) :
    ({ fields := fields } : RecordItems).ArePointerFree :=
  of_groups h (List.forall_mem_nil _) (List.forall_mem_nil _) (List.forall_mem_nil _) (List.forall_mem_nil _)

end RecordItems.ArePointerFree

theorem unflagged_collect {f : α → Emit RecordItems} {as : List α}
    (h : ∀ a, (f a).Unflagged env RecordItems.ArePointerFree) :
    (collect f as).Unflagged env RecordItems.ArePointerFree := by
  induction as with
  | nil => exact .pure .empty
  | cons a rest ih => exact (h a).bind fun first hfirst => ih.bind fun others hothers => .pure (hfirst.append hothers)

theorem usesPointers_plain (attrs : List Managed.Attribute) (name : String) (value : Option Managed.Expr)
    {t : TypeName} (ht : t.hasPointers = false) : (Member.field attrs .plain t name value).usesPointers = false :=
  usesPointers_field (by simp) ht

theorem unflagged_arrayField :
    (arrayField id d type element size offset).Unflagged env RecordItems.ArePointerFree := by
  refine .skip fun element => .skip fun spelled => .skip fun obsolete => .skip fun name => .ite .marked ?_
  refine .skip fun _ => .pure ?_
  refine .of_groups (List.forall_mem_singleton.mpr (usesPointers_plain _ _ _ rfl))
    (List.forall_mem_singleton.mpr rfl) ?_ ?_ ?_
  all_goals exact List.forall_mem_nil _

theorem unflagged_emitField : (emitField id d f isUnion).Unflagged env RecordItems.ArePointerFree := by
  refine .ite (.skip fun offset => .skip fun offsets => ?_) (.skip fun offsets => ?_)
  all_goals
    refine .skip fun shape => ?_
    split
    · exact unflagged_arrayField
    · refine unflagged_mapType.bind fun mapped hmapped => .skip fun obsolete => .skip fun name => ?_
      exact .pure (.ofFields (List.forall_mem_singleton.mpr (usesPointers_plain _ _ _ hmapped)))

theorem usesPointers_property (attrs : List Managed.Attribute) (name : String) (getter setter : Managed.Expr)
    {t : TypeName} (ht : t.hasPointers = false) :
    (Member.property attrs t name getter setter).usesPointers = false := by
  simp [Member.usesPointers, Member.isBuffer, Member.types, ht]

theorem unflagged_bitProperty : (bitProperty place u slot).Unflagged env fun m => m.usesPointers = false := by
  refine .skip fun d => ?_
  split
  · refine unflagged_mapType.bind fun mapped hmapped => .skip fun obsolete => .skip fun name => .pure ?_
    exact usesPointers_property _ _ _ _ hmapped
  · exact .malformed

theorem unflagged_emitBitUnit :
    (emitBitUnit id units isUnion base).Unflagged env RecordItems.ArePointerFree := by
  unfold emitBitUnit
  split
  · exact .pure .empty
  · refine (Unflagged.forEach fun _ => unflagged_bitProperty).bind fun properties hproperties => .pure ?_
    refine .of_groups (List.forall_mem_singleton.mpr (usesPointers_plain _ _ _ rfl)) ?_ hproperties ?_ ?_
    all_goals exact List.forall_mem_nil _

theorem unflagged_forwardField {path : Managed.Expr} :
    (forwardField anonymous id d type path).Unflagged env fun m => m.usesPointers = false := by
  refine .skip fun name => .skip fun _ => .skip fun shape => ?_
  split
  · exact .skip fun element => .ite .marked (.skip fun owner => .pure rfl)
  · refine unflagged_mapType.bind fun mapped hmapped => .pure ?_
    simp [Member.usesPointers, Member.isBuffer, Member.types, hmapped]

theorem unflagged_forwardMember {inner : DeclId → Managed.Expr → Emit (List Member)} {path : Managed.Expr}
    (hinner : ∀ id path, (inner id path).Unflagged env fun ms => ∀ m ∈ ms, m.usesPointers = false) :
    (forwardMember inner anonymous path id).Unflagged env fun ms => ∀ m ∈ ms, m.usesPointers = false := by
  refine .skip fun d => ?_
  split
  · have hbits : (forwardBits id d ‹_› path).Unflagged env fun m => m.usesPointers = false :=
      unflagged_mapType.bind fun mapped hmapped => .skip fun name =>
        .pure (usesPointers_property _ _ _ _ hmapped)
    exact hbits.bind fun m hm => .pure (List.forall_mem_singleton.mpr hm)
  · exact unflagged_forwardField.bind fun m hm => .pure (List.forall_mem_singleton.mpr hm)
  · refine .skip fun symbols => ?_
    split
    · exact hinner id _
    · exact .pure (List.forall_mem_nil _)
  · exact .pure (List.forall_mem_nil _)

theorem unflagged_forwardFrom {path : Managed.Expr} :
    (forwardFrom fuel anonymous path).Unflagged env fun ms => ∀ m ∈ ms, m.usesPointers = false := by
  induction fuel generalizing anonymous path with
  | zero => exact .ofResult fun _ h => by cases h
  | succ fuel ih =>
    refine .skip fun ast => .skip fun members => ?_
    refine (Unflagged.forEach fun _ => unflagged_forwardMember fun _ _ => ih).bind fun parts hparts => .pure ?_
    intro m hm
    obtain ⟨part, hpart, hm⟩ := List.mem_flatten.mp hm
    exact hparts part hpart m hm

/-! ## Members -/

section

variable {nested : DeclId → Emit Member} (hnested : ∀ id, (nested id).Unflagged env fun m => m.usesPointers = false)
include hnested

theorem unflagged_emitAnonymous :
    (emitAnonymous nested id d isUnion isInherited).Unflagged env RecordItems.ArePointerFree := by
  refine .skip fun symbols => ?_
  split
  · exact .malformed
  · have hpure : ∀ types : List Member, (∀ m ∈ types, m.usesPointers = false) →
        (pure types : Emit (List Member)).Unflagged env fun types => ∀ m ∈ types, m.usesPointers = false :=
      fun types htypes => .pure htypes
    have haccessors : ∀ field, (forwardingAccessors id field).Unflagged env fun ms =>
        ∀ m ∈ ms, m.usesPointers = false := fun field => .skip fun ast => unflagged_forwardFrom
    refine .skip fun type => .ite ((hpure [] (List.forall_mem_nil _)).bind fun types htypes => ?_)
      ((hnested id).bind fun m hm => (hpure [m] (List.forall_mem_singleton.mpr hm)).bind fun types htypes => ?_)
    all_goals
      refine (haccessors _).bind fun accessors haccessors => .pure ?_
      refine .of_groups (List.forall_mem_singleton.mpr (usesPointers_plain _ _ _ rfl)) htypes haccessors ?_ ?_
    all_goals exact List.forall_mem_nil _

omit hnested in
theorem unflagged_nestedType {m : Emit Member} (hm : m.Unflagged env fun m => m.usesPointers = false) :
    (nestedType d m).Unflagged env RecordItems.ArePointerFree := by
  refine hm.skippableMember.bind fun kept hkept => ?_
  split
  · exact .pure .empty
  · rename_i member
    have hmember : ∀ m ∈ [member], m.usesPointers = false := List.forall_mem_singleton.mpr (hkept member rfl)
    refine .ite (.pure (.of_groups ?_ hmember ?_ ?_ ?_)) (.pure (.of_groups ?_ ?_ ?_ ?_ hmember))
    all_goals exact List.forall_mem_nil _

theorem unflagged_emitOwnMember : (emitOwnMember nested record id d).Unflagged env RecordItems.ArePointerFree := by
  unfold emitOwnMember
  split
  · exact .skip fun symbols => .ite (.pure .empty) (unflagged_nestedType (hnested id))
  · have henum : (emitEnum id).Unflagged env fun m => m.usesPointers = false := by
      refine .skip fun d => ?_
      split
      · exact .skip fun underlying => .skip fun obsolete => .skip fun constants => .skip fun name => .pure rfl
      · exact .malformed
    exact unflagged_nestedType henum
  · refine .ite (.pure .empty) (unflagged_emitMethod.skippableMember.bind fun kept hkept => .pure ?_)
    refine .of_groups ?_ ?_ ?_ (fun m hm => hkept m (Option.mem_toList.mp hm)) ?_
    all_goals exact List.forall_mem_nil _
  · refine unflagged_emitGlobal.skippableMember.bind fun kept hkept => .pure (.ofFields ?_)
    exact fun m hm => hkept m (Option.mem_toList.mp hm)
  · exact .skip fun _ => .pure .empty
  · exact .skip fun _ => .pure .empty
  · exact .skip fun _ => .pure .empty
  · exact .pure .empty

theorem unflagged_emitMember :
    (emitMember nested record isUnion isInherited units id).Unflagged env RecordItems.ArePointerFree := by
  refine .skip fun d => ?_
  split
  · refine .ite (.skip fun name => .skip fun base => ?_) (.skip fun base => ?_)
    all_goals exact unflagged_emitBitUnit
  · exact unflagged_emitField
  · exact unflagged_emitAnonymous hnested
  · exact .ite (.pure .empty) (unflagged_emitOwnMember hnested)

theorem unflagged_emitMembers :
    (emitMembers nested record isUnion isInherited).Unflagged env RecordItems.ArePointerFree :=
  .skip fun _ => .skip fun _ => .skip fun _ => unflagged_collect fun _ => unflagged_emitMember hnested

omit hnested in
theorem unflagged_emitBases : (emitBases nested record d r).Unflagged env RecordItems.ArePointerFree := by
  refine .skip fun symbols => .ite .marked ?_
  split
  · exact .pure .empty
  · refine unflagged_mapType.bind fun mapped hmapped => .pure (.ofFields ?_)
    exact List.forall_mem_singleton.mpr (usesPointers_plain _ _ _ hmapped)

end

/-! ## What is flagged -/

@[simp] theorem isSilent_report {diagnostic : Diagnostic} : (report diagnostic).IsSilent :=
  isSilent_of_does fun _ _ _ _ => ⟨{ diagnostics := [diagnostic] }, fun _ _ => rfl, rfl⟩

theorem hasPointers_of_letters {t : TypeName} (h : ∀ c ∈ t.text.toList, c.isAlpha = true) :
    t.hasPointers = false := by
  rw [Bool.eq_false_iff]
  intro hpointers
  have hstar := h '*' (TypeName.star_mem_text_iff t |>.mpr (.inl hpointers))
  exact absurd hstar (by decide)

@[simp] theorem isSilent_bitStorage : (bitStorage type location).IsSilent := by
  have htail : ∀ stored, (do
      let mapped ← mapType stored .field location
      if mapped.name = "bool" then return "byte"
      else if mapped.name = "char" then
        unsupported "bitfield" location "character bitfields are not supported"
      else if (Managed.IntegerType.ofName? mapped.name).isSome then return mapped.name
      else
        unsupported "bitfield" location
          ("bitfield of type `" ++ mapped.name ++ "` is not supported") : Emit String).IsSilent := by
    intro stored env scope storage flag h
    obtain ⟨mapped, p, hp, q, hq, rfl⟩ := marks_bind.mp h
    obtain ⟨hgives, rfl⟩ := marks_mapType.mp hp
    rw [usesPointers_of_mapType hgives]
    -- A type with a storage type is spelled with letters only.
    have hname : storageOf? mapped.name = some storage ∧ q = false := by
      unfold storageOf?
      split at hq
      · rename_i hbool
        rw [if_pos hbool]
        exact ⟨congrArg some (marks_pure.mp hq).1, (marks_pure.mp hq).2⟩
      split at hq
      · exact absurd hq not_marks_unsupported
      split at hq
      · rename_i htype
        obtain ⟨type, htype⟩ := Option.isSome_iff_exists.mp htype
        simp_all
      · exact absurd hq not_marks_unsupported
    rw [hasPointers_of_letters (letters_of_storageOf hname.1), hname.2]
    rfl
  refine isSilent_bind (by simp) fun ast => isSilent_bind (by simp) fun kind => ?_
  split
  · refine isSilent_bind (by simp) fun d => ?_
    split
    · exact isSilent_bind (by simp) htail
    · exact isSilent_bind (by simp) htail
  · exact isSilent_bind (by simp) htail

theorem isSilent_bitUnitsOf : (bitUnitsOf isUnion members).IsSilent := by
  refine isSilent_bind (.forEach fun id => isSilent_bind (by simp) fun d => ?_) fun items => isSilent_pure
  split
  · have hunion : ∀ item : BitItem, (do
        if isUnion then reportLayout ("bitfield `" ++ d.name ++ "` is a union member") d.location
        return item : Emit BitItem).IsSilent := fun item =>
      .ite (isSilent_bind isSilent_report fun _ => isSilent_pure) isSilent_pure
    refine .ite isSilent_pure (isSilent_bind (by simp) fun storage => ?_)
    exact .ite (isSilent_bind isSilent_report fun _ => hunion _) (hunion _)
  · exact isSilent_pure
  · exact isSilent_pure
  · exact isSilent_pure

theorem marks_collect {f : α → Emit RecordItems} {as : List α}
    (h : (collect f as).Marks env scope items flag) :
    flag = true ↔ ∃ a ∈ as, ∃ part, (f a).Marks env scope part true := by
  induction as generalizing items flag with
  | nil => simp [(marks_pure.mp h).2]
  | cons a rest ih =>
    obtain ⟨part, p, hp, _, hrest, rfl⟩ := marks_bind.mp h
    obtain ⟨others, q, hothers, _, hpure, rfl⟩ := marks_bind.mp hrest
    obtain ⟨-, rfl⟩ := marks_pure.mp hpure
    rw [Bool.or_false, Bool.or_eq_true, ih hothers, List.exists_mem_cons_iff]
    refine or_congr_left ⟨fun hflag => ⟨part, hflag ▸ hp⟩, ?_⟩
    rintro ⟨_, hmarks⟩
    exact hp.flag_eq hmarks

/-- A step that ends with keeping or skipping a member is flagged only if the member is kept. -/
theorem exists_kept {m : Emit Member} {f : Option Member → Emit RecordItems} (hf : ∀ r, (f r).IsSilent)
    (h : (skippableMember m >>= f).Marks env scope items true) :
    ∃ a, (f (some a)).Gives env scope items := by
  obtain ⟨r, p, hp, q, hq, hflag⟩ := marks_bind.mp h
  rcases marks_skippableMember hp with ⟨a, rfl, -⟩ | ⟨rfl, rfl⟩
  · exact ⟨a, hq.gives⟩
  · cases hflag.trans (congrArg (false || ·) (hf _ _ _ _ _ hq))

theorem nestedType_keeps {m : Emit Member} (h : (nestedType d m).Marks env scope items true) :
    items.members ≠ [] := by
  obtain ⟨a, ha⟩ := exists_kept (fun r => by cases r <;> simp [IsSilent.ite]) h
  dsimp only at ha
  split at ha
  all_goals
    rw [← gives_pure.mp ha]
    exact List.cons_ne_nil _ _

theorem emitOwnMember_keeps (h : (emitOwnMember nested record id d).Marks env scope items true) :
    items.members ≠ [] := by
  have hpure : ¬ (pure {} : Emit RecordItems).Marks env scope items true := fun h => by
    cases (marks_pure.mp h).2
  unfold emitOwnMember at h
  split at h
  · obtain ⟨_, -, h⟩ := h.of_read (by simp)
    split at h
    · exact absurd h hpure
    · exact nestedType_keeps h
  · exact nestedType_keeps h
  · split at h
    · exact absurd h hpure
    · obtain ⟨a, ha⟩ := exists_kept (fun r => isSilent_pure) h
      rw [← gives_pure.mp ha]
      exact List.cons_ne_nil _ _
  · obtain ⟨a, ha⟩ := exists_kept (fun r => isSilent_pure) h
    rw [← gives_pure.mp ha]
    exact List.cons_ne_nil _ _
  · obtain ⟨_, -, h⟩ := h.of_read (by simp)
    exact absurd h hpure
  · obtain ⟨_, -, h⟩ := h.of_read (by simp)
    exact absurd h hpure
  · obtain ⟨_, -, h⟩ := h.of_read (by simp)
    exact absurd h hpure
  · exact absurd h hpure

/-- What uses pointers is emitted. -/
theorem emitMember_keeps (h : (emitMember nested record isUnion false units id).Marks env scope items true) :
    items.members ≠ [] := by
  obtain ⟨d, hd, h⟩ := h.of_read (by simp)
  split at h
  · obtain ⟨base, -, h⟩ := Marks.of_read (m := pure none) h (by simp)
    unfold emitBitUnit at h
    split at h
    · cases (marks_pure.mp h).2
    · obtain ⟨properties, -, hpure⟩ := gives_bind.mp h.gives
      rw [← gives_pure.mp hpure]
      exact List.cons_ne_nil _ _
  · obtain ⟨m, hfields, -⟩ := emitField_single h.gives
    rw [RecordItems.members, hfields]
    exact List.cons_ne_nil _ _
  · obtain ⟨_, _, _, _, -, -, -, -, rfl⟩ := emitAnonymous_cases h.gives
    exact List.cons_ne_nil _ _
  · exact emitOwnMember_keeps h

/-! ## Structs -/

/-- A member whose emission uses pointers and is found in the struct. -/
def IsKeptWithPointers (env : Env) (scope : Scope) (nested : DeclId → Emit Member) (record : DeclId)
    (r : Native.Record) (members : List Member) (id : DeclId) : Prop :=
  ∃ units items, (bitUnitsOf (decide (r.tag = .union)) r.members).Gives env scope units ∧
    (emitMember nested record (decide (r.tag = .union)) false units id).Marks env scope items true ∧
    items.members ≠ [] ∧ items.members ⊆ members

def BaseUsesPointers (env : Env) (scope : Scope) (location : Location) (r : Native.Record) : Prop :=
  ∃ base rest mapped, r.bases = base :: rest ∧ (mapType base.type .field location).Gives env scope mapped ∧
    mapped.usesPointers = true

theorem emitBases_flag_iff (h : (emitBases nested record d r).Marks env scope items flag) :
    flag = true ↔ env.symbols.isPolymorphic record = true ∨ BaseUsesPointers env scope d.location r := by
  obtain ⟨symbols, hsymbols, h⟩ := h.of_read (by simp)
  obtain rfl := gives_symbols.mp hsymbols
  split at h
  · rename_i hpolymorphic
    obtain ⟨_, p, hp, q, -, rfl⟩ := marks_bind.mp h
    simp [marks_markPointers.mp hp, hpolymorphic]
  · rename_i hplain
    split at h
    · rename_i hbases
      simp [(marks_pure.mp h).2, hplain, BaseUsesPointers, hbases]
    · rename_i base rest hbases
      obtain ⟨mapped, p, hp, q, hq, rfl⟩ := marks_bind.mp h
      obtain ⟨hgives, rfl⟩ := marks_mapType.mp hp
      obtain ⟨-, rfl⟩ := marks_pure.mp hq
      simp only [Bool.or_false, hplain, Bool.false_eq_true, false_or, BaseUsesPointers, hbases]
      constructor
      · intro huses
        exact ⟨base, rest, mapped, rfl, hgives, huses⟩
      · rintro ⟨base', rest', mapped', heq, hgives', huses⟩
        obtain ⟨rfl, rfl⟩ := List.cons.inj heq
        exact hgives.unique hgives' ▸ huses

theorem emitMembers_flag_iff (hd : env.ast.decl? record = some d) (hkind : d.kind = .record r)
    (h : (emitMembers nested record (decide (r.tag = .union)) false).Marks env scope items flag)
    (hsub : items.members ⊆ members) :
    flag = true ↔ ∃ id ∈ r.members, IsKeptWithPointers env scope nested record r members id := by
  obtain ⟨units, hunits, -⟩ := emitMembers_cases h.gives hd hkind
  obtain ⟨ast, hast, h⟩ := h.of_read (by simp)
  obtain rfl := gives_ast.mp hast
  obtain ⟨members, hmembers, h⟩ := h.of_read (by simp)
  obtain ⟨units', hunits', h⟩ := h.of_read isSilent_bitUnitsOf
  rw [gives_lift_option] at hmembers
  obtain rfl : r.members = members := by simpa [Native.Ast.recordMembers?, hd, hkind] using hmembers
  obtain rfl := hunits'.unique hunits
  rw [marks_collect h]
  constructor
  · rintro ⟨id, hid, part, hpart⟩
    obtain ⟨part', hgives, hmembers⟩ := part_of_collect h.gives hid
    obtain rfl := hgives.unique hpart.gives
    exact ⟨id, hid, _, part', hunits, hpart, emitMember_keeps hpart, fun _ hm => hsub (hmembers hm)⟩
  · rintro ⟨id, hid, units', part, hunits', hpart, -⟩
    obtain rfl := hunits'.unique hunits
    exact ⟨id, hid, part, hpart⟩

theorem recordRule_marks {nested : DeclId → Emit Member} (hd : env.ast.decl? id = some d)
    (hkind : d.kind = .record r) (hdef : r.isDefinition = true)
    (h : (recordRule nested id).Gives env scope (.record attrs isUnsafe name members)) :
    ∃ inherited own p q, (emitBases nested id d r).Marks env (scope.inside id) inherited p ∧
      (emitMembers nested id (decide (r.tag = .union)) false).Marks env (scope.inside id) own q ∧
      isUnsafe = (p || q) ∧ members = (inherited ++ own).members := by
  simp only [recordRule, gives_bind, gives_decl, exists_found hd, hkind, hdef, Bool.not_true, Bool.false_eq_true,
    if_false, gives_symbols, exists_eq_left] at h
  split at h
  · simp at h
  simp only [gives_bind, gives_within, gives_pure] at h
  obtain ⟨⟨items, uses⟩, hitems, layout, -, bases, -, obsolete, -, name, -, heq⟩ := h
  obtain ⟨-, rfl, -, rfl⟩ := Member.record.inj heq
  obtain ⟨inherited, p, hp, _, h, rfl⟩ := marks_bind.mp (Marks.of_contained hitems)
  obtain ⟨own, q, hq, _, hpure, rfl⟩ := marks_bind.mp h
  obtain ⟨rfl, rfl⟩ := marks_pure.mp hpure
  exact ⟨inherited, own, p, q, hp, hq, by simp, rfl⟩

theorem recordTo_not_usesPointers (depth : Nat) (id : DeclId) :
    (recordTo depth id).Unflagged env fun m => m.usesPointers = false := by
  intro scope m h
  cases depth with
  | zero => cases gives_ofResult.mp h.gives
  | succ depth =>
    obtain ⟨d, r, -, -, ⟨-, _, rfl⟩ | ⟨-, -, _, _, _, _, _, -, -, rfl⟩⟩ := recordRule_cases h.gives
    · rfl
    · rfl

/-- **Records that use pointers are unsafe**: a struct with a fixed buffer, the pointer to a vtable or a type
that is written with a star is, unless the star is part of a name; and it is unsafe because of its vtable, its
base or a member that is found in it, never because of one that was skipped. -/
theorem record_unsafe_iff_pointers_kept {depth : Nat} {d : Native.Decl} {r : Native.Record}
    {attrs : List Managed.Attribute} {isUnsafe : Bool} {name : String} {members : List Member}
    (hd : env.ast.decl? id = some d) (hkind : d.kind = .record r)
    (h : (recordTo (depth + 1) id).Gives env scope (.record attrs isUnsafe name members)) :
    (∀ m ∈ members, m.isBuffer = true ∨ m = vtableField → isUnsafe = true) ∧
    (∀ m ∈ members, ∀ t ∈ m.types, '*' ∈ t.text.toList →
      isUnsafe = true ∨ ∃ n ∈ t.baseName?, '*' ∈ n.toList) ∧
    (isUnsafe = true ↔ r.isDefinition = true ∧ (env.symbols.isPolymorphic id = true ∨
      BaseUsesPointers env (scope.inside id) d.location r ∨
      ∃ x ∈ r.members, IsKeptWithPointers env (scope.inside id) (recordTo depth) id r members x)) := by
  suffices hmain : (isUnsafe = false → ∀ m ∈ members, m.usesPointers = false) ∧
      (isUnsafe = true ↔ r.isDefinition = true ∧ (env.symbols.isPolymorphic id = true ∨
        BaseUsesPointers env (scope.inside id) d.location r ∨
        ∃ x ∈ r.members, IsKeptWithPointers env (scope.inside id) (recordTo depth) id r members x)) by
    obtain ⟨hfree, hflag⟩ := hmain
    have huses : ∀ m ∈ members, m.usesPointers = true → isUnsafe = true := by
      intro m hm huses
      cases hunsafe : isUnsafe with
      | true => rfl
      | false => exact absurd (hfree hunsafe m hm) (by simp [huses])
    refine ⟨fun m hm hcases => huses m hm ?_, fun m hm t ht hstar => ?_, hflag⟩
    · rcases hcases with hbuffer | rfl
      · simp [Member.usesPointers, hbuffer]
      · rfl
    · refine (TypeName.star_mem_text_iff t).mp hstar |>.imp_left fun hpointers => huses m hm ?_
      exact Bool.or_eq_true_iff.mpr (.inr (List.any_eq_true.mpr ⟨t, ht, hpointers⟩))
  cases hdef : r.isDefinition with
  | false =>
    simp only [recordTo, recordRule, gives_bind, gives_decl, exists_found hd, hkind, hdef, Bool.not_false, if_true,
      gives_pure] at h
    obtain ⟨_, -, heq⟩ := h
    obtain ⟨-, rfl, -, rfl⟩ := Member.record.inj heq
    simp
  | true =>
    obtain ⟨inherited, own, p, q, hp, hq, rfl, rfl⟩ := recordRule_marks hd hkind hdef h
    have hsub := RecordItems.members_append_subset.mp (List.Subset.refl (inherited ++ own).members)
    refine ⟨fun hflag => ?_, ?_⟩
    · obtain ⟨rfl, rfl⟩ := Bool.or_eq_false_iff.mp hflag
      exact (unflagged_emitBases _ _ hp).append (unflagged_emitMembers (recordTo_not_usesPointers depth) _ _ hq)
    · rw [Bool.or_eq_true, emitBases_flag_iff hp, emitMembers_flag_iff hd hkind hq hsub.2, or_assoc]
      simp

/-- Two records with a variadic function that is defined and therefore skipped; one of them has a pointer. -/
def pools : Native.Ast where
  file := "pools.h"
  topLevel := [⟨0⟩, ⟨3⟩]
  decls :=
    #[{ kind := .record { tag := .struct, members := [⟨1⟩, ⟨2⟩] }, name := "Pool" },
      { kind := .field { type := ⟨1⟩ }, name := "free", parent := some ⟨0⟩ },
      { kind := .method { type := ⟨2⟩, body := some ⟨0⟩ }, name := "grow", parent := some ⟨0⟩ },
      { kind := .record { tag := .struct, members := [⟨4⟩, ⟨5⟩] }, name := "Gauge" },
      { kind := .field { type := ⟨0⟩ }, name := "level", parent := some ⟨3⟩ },
      { kind := .method { type := ⟨2⟩, body := some ⟨0⟩ }, name := "grow", parent := some ⟨3⟩ }]
  types :=
    #[.ofBuiltin .int, { kind := .pointer ⟨0⟩, spelling := "int *" },
      { kind := .function { result := ⟨1⟩, params := [], isVariadic := true }, spelling := "int *(...)" }]
  stmts := #[{ kind := .compound [] }]

theorem pools_emitted : ∃ env pool gauge, prepare {} pools = .ok env ∧ env.ast = pools ∧
    (recordTo 7 ⟨0⟩).Gives env {} (.record [] true "Pool" pool) ∧
    (∃ m ∈ pool, ∃ t ∈ m.types, '*' ∈ t.text.toList) ∧ env.symbols.isPolymorphic ⟨0⟩ = false ∧
    (recordTo 7 ⟨3⟩).Gives env {} (.record [] false "Gauge" gauge) := by
  refine ⟨_, _, _, rfl, rfl, gives_of_run (c := {}) rfl, ?_, rfl, gives_of_run (c := {}) rfl⟩
  exact ⟨_, .head _, _, .head _, by decide⟩

theorem pool_unsafe_gauge_not : ∃ env pool gauge, prepare {} pools = .ok env ∧
    (recordTo 7 ⟨0⟩).Gives env {} (.record [] true "Pool" pool) ∧
    (∃ m ∈ pool, ∃ t ∈ m.types, '*' ∈ t.text.toList) ∧
    (∃ x ∈ [⟨1⟩, ⟨2⟩], IsKeptWithPointers env (Scope.inside {} ⟨0⟩) (recordTo 6) ⟨0⟩
      { tag := .struct, members := [⟨1⟩, ⟨2⟩] } pool x) ∧
    (recordTo 7 ⟨3⟩).Gives env {} (.record [] false "Gauge" gauge) ∧
    ¬ ∃ x ∈ [⟨4⟩, ⟨5⟩], IsKeptWithPointers env (Scope.inside {} ⟨3⟩) (recordTo 6) ⟨3⟩
      { tag := .struct, members := [⟨4⟩, ⟨5⟩] } gauge x := by
  obtain ⟨env, pool, gauge, henv, hast, hpool, htypes, hplain, hgauge⟩ := pools_emitted
  have hpool' := (record_unsafe_iff_pointers_kept (by rw [hast]; rfl) rfl hpool).2.2.mp rfl
  have hgauge' := (record_unsafe_iff_pointers_kept (by rw [hast]; rfl) rfl hgauge).2.2
  refine ⟨env, pool, gauge, henv, hpool, htypes, ?_, hgauge, ?_⟩
  · obtain ⟨-, hpolymorphic | ⟨_, _, _, hbases, -⟩ | hkept⟩ := hpool'
    · rw [hplain] at hpolymorphic
      cases hpolymorphic
    · cases hbases
    · exact hkept
  · intro hkept
    cases hgauge'.mpr ⟨rfl, .inr (.inr hkept)⟩

/-- A record whose name holds a star, as that of a template specialization may, and a field of it. -/
def cells : Native.Ast where
  file := "cells.h"
  topLevel := [⟨0⟩, ⟨2⟩]
  decls :=
    #[{ kind := .record { tag := .struct, members := [⟨1⟩] }, name := "Cell<int *>" },
      { kind := .field { type := ⟨0⟩ }, name := "size", parent := some ⟨0⟩ },
      { kind := .record { tag := .struct, members := [⟨3⟩] }, name := "Box" },
      { kind := .field { type := ⟨1⟩ }, name := "cell", parent := some ⟨2⟩ }]
  types := #[.ofBuiltin .int, { kind := .record ⟨0⟩, spelling := "Cell<int *>" }]

theorem star_in_name_not_unsafe : ∃ env members, prepare {} cells = .ok env ∧
    (emitRecord ⟨2⟩).Gives env {} (.record [] false "Box" members) ∧
    ∃ m ∈ members, ∃ t ∈ m.types, '*' ∈ t.text.toList :=
  ⟨_, _, rfl, gives_of_run (c := {}) rfl, _, .head _, _, .head _, by decide⟩

end Interop.Binding
