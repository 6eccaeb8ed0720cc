import Interop.Proofs.AnonymousPaths

/-!
# Names of forwarded fields

The struct around an anonymous record has an accessor for every field of it, and the struct of the
anonymous record has a member for every field but the bit fields of no width. So an accessor for one of
those forwards to nothing, and fields without a name have accessors without one.
-/

namespace Interop.Binding

open Native (Ast DeclId)
open Emit
open Managed (Member)
open Relation (TransGen)

variable {env : Env} {settings : Settings} {ast : Ast} {record id field : DeclId} {name : String}
  {members inner : List Member}

def HasWidth (ast : Ast) (field : DeclId) : Prop :=
  ∃ d f, ast.decl? field = some d ∧ d.kind = .field f ∧ f.bitWidth ≠ some 0

/-- A field of the anonymous record has an accessor of that name. -/
def ForwardsName (env : Env) (members : List Member) (id : DeclId) (name : String) : Prop :=
  ∃ field, ListsField env.ast id field ∧ ∃ m ∈ members, IsAccessorFor env field m ∧ valueName? m = some name

/-- A field of the record is emitted under that name. -/
def DeclaresName (env : Env) (members : List Member) (id : DeclId) (name : String) : Prop :=
  ∃ field, ListsField env.ast id field ∧ ∃ m ∈ members, IsEmittedFor env id field m ∧ valueName? m = some name

theorem forwardsName_iff (hprepare : prepare settings ast = .ok env) (hinside : MembersInside env.ast)
    (hrecord : IsInside env record record []) (hstruct : IsStructOf env record members)
    (hid : TransGen (HasAnonymous env.ast) record id) :
    ForwardsName env members id name ↔ ∃ field, ListsField env.ast id field ∧ env.symbols.name field = name := by
  constructor
  · rintro ⟨field, hfield, m, -, haccessor, hname⟩
    exact ⟨field, hfield, Option.some.inj (haccessor.1.symm.trans hname)⟩
  · rintro ⟨field, hfield, rfl⟩
    obtain ⟨accessors, hsublist, haccessors⟩ := struct_accessors hprepare hinside hrecord hstruct
    obtain ⟨m, hm, haccessor⟩ := haccessors.exists_accessor ⟨id, hid, hfield⟩
    exact ⟨field, hfield, m, hsublist.subset hm, haccessor, haccessor.1⟩

theorem IsEmittedFor.hasWidth (h : IsEmittedFor env record field m) : HasWidth env.ast field := by
  cases h with
  | field _ hd hkind hwidth _ _ => exact ⟨_, _, hd, hkind, by simp [hwidth]⟩
  | property _ hplaced hslot hfield _ =>
    obtain ⟨f, hf, hslotField, -⟩ := hplaced.fields _ hslot
    obtain ⟨d, field, width, hd, hkind, hwidth, hne, -⟩ := hf.declared
    rw [hslotField, hfield] at hd
    exact ⟨d, field, hd, hkind, by simpa [hwidth] using hne⟩

theorem declaresName_iff (hd : env.ast.decl? id = some d) (hkind : d.kind = .record r)
    (hnodup : r.members.Nodup) (hinner : IsStructOf env id inner) :
    DeclaresName env inner id name ↔
      ∃ field, ListsField env.ast id field ∧ HasWidth env.ast field ∧ env.symbols.name field = name := by
  constructor
  · rintro ⟨field, hfield, m, -, hemitted, hname⟩
    exact ⟨field, hfield, hemitted.hasWidth, Option.some.inj (hemitted.valueName_eq.symm.trans hname)⟩
  · rintro ⟨field, hfield, hwidth, rfl⟩
    obtain ⟨d', r', depth, scope, inherited, own, hd', hkind', -, -, hown, rfl, -⟩ := hinner.cases
    have hlisted : field ∈ r.members := by
      obtain ⟨⟨e, s, he, hs, hmem⟩, -⟩ := hfield
      obtain rfl := Option.mem_unique he hd
      exact Native.DeclKind.record.inj (hs.symm.trans hkind) ▸ hmem
    obtain ⟨m, hm, hemitted⟩ :=
      exists_emitted_of_field hown rfl ⟨⟨d, r, hd, hkind, hnodup, hlisted⟩, hwidth⟩
    have hsub := RecordItems.members_append_subset.mp (List.Subset.refl (inherited ++ own).members)
    exact ⟨field, hfield, m, hsub.2 hm, hemitted, hemitted.valueName_eq⟩

/-- **Which forwarded names exist and are names.** The accessors have the names that the struct declares
exactly if every field is called like one with a width. -/
theorem forwarded_names_exist_iff_widths {d : Native.Decl} {r : Native.Record}
    (hprepare : prepare settings ast = .ok env) (hinside : MembersInside env.ast)
    (hrecord : IsInside env record record []) (hstruct : IsStructOf env record members)
    (hid : TransGen (HasAnonymous env.ast) record id) (hd : env.ast.decl? id = some d)
    (hkind : d.kind = .record r) (hnodup : r.members.Nodup) (hinner : IsStructOf env id inner) :
    ((∀ name, ForwardsName env members id name ↔ DeclaresName env inner id name) ↔
      ∀ field, ListsField env.ast id field → ∃ other, ListsField env.ast id other ∧
        HasWidth env.ast other ∧ env.symbols.name other = env.symbols.name field) ∧
    ((∀ name, ForwardsName env members id name → name ≠ "") ↔
      ∀ field, ListsField env.ast id field → env.symbols.name field ≠ "") := by
  have hforwards : ∀ name, ForwardsName env members id name ↔ _ :=
    fun _ => forwardsName_iff hprepare hinside hrecord hstruct hid
  have hdeclares : ∀ name, DeclaresName env inner id name ↔ _ :=
    fun _ => declaresName_iff hd hkind hnodup hinner
  simp only [hforwards, hdeclares]
  refine ⟨⟨fun h field hfield => (h _).mp ⟨field, hfield, rfl⟩, fun h name => ⟨?_, ?_⟩⟩, ?_, ?_⟩
  · rintro ⟨field, hfield, rfl⟩
    exact h field hfield
  · rintro ⟨field, hfield, -, rfl⟩
    exact ⟨field, hfield, rfl⟩
  · exact fun h field hfield => h _ ⟨field, hfield, rfl⟩
  · rintro h name ⟨field, hfield, rfl⟩
    exact h field hfield

/-- The bit field in the outer anonymous record of a meter is forwarded to the property of its struct. -/
theorem meter_low_forwarded :
    ∃ members inner, IsStructOf meters ⟨0⟩ members ∧ IsStructOf meters ⟨2⟩ inner ∧
      ForwardsName meters members ⟨2⟩ "low" ∧
      (∀ name, ForwardsName meters members ⟨2⟩ name ↔ DeclaresName meters inner ⟨2⟩ name) ∧
      ∀ name, ForwardsName meters members ⟨2⟩ name → name ≠ "" := by
  have hprepare : prepare {} meters.ast = .ok meters := rfl
  have hinside : MembersInside meters.ast := membersInside_of_all (by decide)
  have hrecord : IsInside meters ⟨0⟩ ⟨0⟩ [] := .self rfl
  have hstruct : IsStructOf meters ⟨0⟩ _ :=
    isStructOf_of_emitRecord ⟨_, _, rfl, rfl, rfl⟩ (gives_of_run (c := {}) rfl)
  have hinner : IsStructOf meters ⟨2⟩ _ :=
    isStructOf_of_emitRecord ⟨_, _, rfl, rfl, rfl⟩ (gives_of_run (c := {}) rfl)
  have hid : TransGen (HasAnonymous meters.ast) ⟨0⟩ ⟨2⟩ := .single ⟨⟨_, _, rfl, rfl, by decide⟩, _, rfl, rfl⟩
  have hlow : ListsField meters.ast ⟨2⟩ ⟨3⟩ := ⟨⟨_, _, rfl, rfl, by decide⟩, _, _, rfl, rfl⟩
  have honly : ∀ field, ListsField meters.ast ⟨2⟩ field → field = ⟨3⟩ := by
    rintro field ⟨⟨d, r, hd, hkind, hmem⟩, e, f, he, hfield⟩
    cases hd
    cases hkind
    rcases List.mem_pair.mp hmem with rfl | rfl
    · rfl
    · cases he
      cases hfield
  obtain ⟨hnames, hnonempty⟩ := forwarded_names_exist_iff_widths hprepare hinside hrecord hstruct hid
    (d := _) rfl rfl (by decide) hinner
  refine ⟨_, _, hstruct, hinner, ?_, hnames.mpr fun field hfield => ?_, hnonempty.mpr fun field hfield => ?_⟩
  · exact (forwardsName_iff hprepare hinside hrecord hstruct hid).mpr ⟨⟨3⟩, hlow, rfl⟩
  · obtain rfl := honly field hfield
    exact ⟨⟨3⟩, hlow, ⟨_, _, rfl, rfl, by decide⟩, rfl⟩
  · obtain rfl := honly field hfield
    decide

def flags : Ast where
  file := "flags.h"
  topLevel := [⟨0⟩]
  decls :=
    #[{ kind := .record { tag := .struct, members := [⟨1⟩] }, name := "Flags" },
      { kind := .record { tag := .struct, isAnonymous := true, members := [⟨2⟩, ⟨3⟩, ⟨4⟩] },
        parent := some ⟨0⟩ },
      { kind := .field { type := ⟨0⟩, bitWidth := some 3 }, name := "low", parent := some ⟨1⟩ },
      { kind := .field { type := ⟨0⟩, bitWidth := some 0 }, parent := some ⟨1⟩ },
      { kind := .field { type := ⟨0⟩, bitWidth := some 3 }, name := "high", parent := some ⟨1⟩ }]
  types := #[.ofBuiltin .uInt]
  exprs := #[]
  stmts := #[]

/-- It has an accessor without a name, which the anonymous struct has nothing for. -/
theorem no_width_forwarded_to_nothing :
    ∃ env members inner, prepare {} flags = .ok env ∧ IsStructOf env ⟨0⟩ members ∧
      IsStructOf env ⟨1⟩ inner ∧ ForwardsName env members ⟨1⟩ "" ∧ ¬ DeclaresName env inner ⟨1⟩ "" := by
  have hprepare : prepare {} flags = .ok _ := rfl
  have hinside : MembersInside flags := membersInside_of_all (by decide)
  have hid : TransGen (HasAnonymous flags) ⟨0⟩ ⟨1⟩ := .single ⟨⟨_, _, rfl, rfl, by decide⟩, _, rfl, rfl⟩
  have hempty : ListsField flags ⟨1⟩ ⟨3⟩ := ⟨⟨_, _, rfl, rfl, by decide⟩, _, _, rfl, rfl⟩
  refine ⟨_, _, _, hprepare, isStructOf_of_emitRecord ⟨_, _, rfl, rfl, rfl⟩ (gives_of_run (c := {}) rfl),
    isStructOf_of_emitRecord ⟨_, _, rfl, rfl, rfl⟩ (gives_of_run (c := {}) rfl), ?_, ?_⟩
  · refine (forwardsName_iff hprepare hinside (.self rfl) ?_ hid).mpr ⟨⟨3⟩, hempty, rfl⟩
    exact isStructOf_of_emitRecord ⟨_, _, rfl, rfl, rfl⟩ (gives_of_run (c := {}) rfl)
  · rintro ⟨field, ⟨⟨d, r, hd, hkind, hmem⟩, -⟩, m, -, hemitted, hname⟩
    cases hd
    cases hkind
    have hname := Option.some.inj (hemitted.valueName_eq.symm.trans hname)
    obtain ⟨e, f, he, hfield, hwidth⟩ := hemitted.hasWidth
    simp only [List.mem_cons, List.not_mem_nil, or_false] at hmem
    rcases hmem with rfl | rfl | rfl
    · exact absurd hname (by decide)
    · cases he
      cases hfield
      exact hwidth rfl
    · exact absurd hname (by decide)

end Interop.Binding
