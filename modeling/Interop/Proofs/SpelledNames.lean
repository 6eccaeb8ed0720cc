import Interop.Proofs.Completion.Symbols
import Interop.Proofs.Identifiers

/-!
# Names in a tree that is spelled

`Ast.IsSpelled` is what a front end promises: names are identifiers or names of operator functions,
numbers start like numbers, and nothing that goes into a name has a line break. A record or enumeration is
called after one of these names or after its place (`Eponym`).
-/

namespace Interop.Native

open Csharp (isWord)

/-- No name, an identifier, or the name of an operator function. -/
def IsNativeName (name : String) : Prop :=
  name = "" ∨ isWord name.toList = true ∨
    ((Managed.operatorSymbol? name).isSome = true ∧ '\n' ∉ name.toList)

namespace Ast

variable {ast : Ast}

theorem mem_decls {id : DeclId} (h : ast.decl? id = some d) : d ∈ ast.decls :=
  Array.mem_of_getElem? h

end Ast

end Interop.Native

namespace Interop.Managed

open Csharp (isName)

/-! ## Identifiers -/

theorem isName_escapeIdentifier_iff (h : Native.IsNativeName name) :
    isName (escapeIdentifier name) = true ↔ name ≠ "" := by
  rcases h with rfl | hword | ⟨hsymbol, -⟩
  · exact iff_of_false (by decide) (by decide)
  · refine iff_of_true (isName_escapeIdentifier hword) ?_
    rintro rfl
    cases hword
  · obtain ⟨symbol, hsymbol⟩ := Option.isSome_iff_exists.mp hsymbol
    refine iff_of_true ?_ ?_
    · rw [escapeIdentifier, hsymbol]
      exact isName_operatorMethod symbol
    · rintro rfl
      cases hsymbol

theorem eq_empty_of_escapeIdentifier (h : escapeIdentifier name = "") : name = "" := by
  unfold escapeIdentifier at h
  split at h
  · rename_i symbol _
    obtain ⟨rest, hrest, -⟩ := operatorMethod_eq symbol
    simp [hrest] at h
  · split at h
    · simp at h
    · exact h

end Interop.Managed

namespace Interop.Binding

open Native Managed

variable {ast : Ast} {settings : Settings}
variable {id : DeclId} {d : Decl} {unnamed : Unnamed}

/-! ## Names of declarations -/

theorem isNativeName_remapped (hsettings : settings.fault? = none) (h : IsNativeName name) :
    IsNativeName (settings.remapped name) := by
  rw [Settings.remapped]
  cases hlookup : settings.remap.lookup name with
  | none => exact h
  | some managed => exact .inr (.inl (isWord_of_remap hsettings hlookup))

theorem Symbols.Describes.anonymous_field {s : Symbols} (hs : s.Describes ast settings)
    (hid : s.anonymous? id = some member) :
    ∃ numbered position, member.field = anonymousField numbered position := by
  obtain ⟨_, _, -, -, position, -, hfield⟩ := hs.mem_anonymous_iff.mp (mem_of_lookup hid)
  exact ⟨_, position, hfield⟩

/-! ## What types are called after -/

/-- A record or an enumeration is called after a native name, its own or that of a typedef, after the
field that holds it, or after its place. -/
inductive Eponym where
  | native (name : String)
  | field (name : String)
  | place

def Eponym.text (settings : Settings) (d : Decl) (suffix : String) : Eponym → String
  | .native name => managedName settings name
  | .field name => "_" ++ name ++ "_e__" ++ suffix
  | .place => provenanceName d

inductive IsCalledAfter (ast : Ast) (unnamed : Unnamed) (id : DeclId) (d : Decl) : Eponym → Prop
  | own (hname : d.name ≠ "") : IsCalledAfter ast unnamed id d (.native d.name)
  | typedef {typedef : DeclId} {other : Decl} (hname : d.name = "")
      (htypedef : unnamed.typedefs.lookup id = some typedef) (hother : ast.decl? typedef = some other) :
      IsCalledAfter ast unnamed id d (.native other.name)
  | anonymous {member : AnonymousMember} (hname : d.name = "")
      (htypedef : unnamed.typedefs.lookup id = none)
      (hmember : unnamed.anonymous.lookup id = some member) :
      IsCalledAfter ast unnamed id d (.field member.field)
  | holder {parent : DeclId} {members : List DeclId} {field : String} (hname : d.name = "")
      (htypedef : unnamed.typedefs.lookup id = none) (hmember : unnamed.anonymous.lookup id = none)
      (hparent : d.parent = some parent) (hmembers : ast.recordMembers? parent = some members)
      (hfield : fieldOfRecord? ast id members = some (some field)) :
      IsCalledAfter ast unnamed id d (.field field)
  | place (hname : d.name = "") (htypedef : unnamed.typedefs.lookup id = none)
      (hmember : unnamed.anonymous.lookup id = none)
      (hfields : ∀ parent members, d.parent = some parent → ast.recordMembers? parent = some members →
        fieldOfRecord? ast id members = some none) :
      IsCalledAfter ast unnamed id d .place

theorem exists_eponym {suffix : String} (h : typeName? ast settings unnamed id d suffix = some name) :
    ∃ e, IsCalledAfter ast unnamed id d e ∧ name = e.text settings d suffix := by
  unfold typeName? at h
  split at h
  · rename_i hname
    exact ⟨_, .own hname, (Option.some.inj h).symm⟩
  rename_i hname
  replace hname : d.name = "" := not_not.mp hname
  split at h
  · rename_i typedef htypedef
    obtain ⟨other, hother, h⟩ := Option.bind_eq_some_iff.mp h
    exact ⟨_, .typedef hname htypedef hother, (Option.some.inj h).symm⟩
  rename_i htypedef
  replace htypedef := Option.eq_none_iff_forall_ne_some.mpr htypedef
  split at h
  · rename_i member hmember
    exact ⟨_, .anonymous hname htypedef hmember, (Option.some.inj h).symm⟩
  rename_i hmember
  replace hmember := Option.eq_none_iff_forall_ne_some.mpr hmember
  split at h
  · rename_i parent hparent
    obtain ⟨members, hmembers, h⟩ := Option.bind_eq_some_iff.mp h
    obtain ⟨field, hfield, h⟩ := Option.bind_eq_some_iff.mp h
    split at h
    · exact ⟨_, .holder hname htypedef hmember hparent hmembers hfield, (Option.some.inj h).symm⟩
    · rename_i hnone
      obtain rfl : field = none := Option.eq_none_iff_forall_ne_some.mpr hnone
      refine ⟨_, .place hname htypedef hmember fun other members' hother hmembers' => ?_,
        (Option.some.inj h).symm⟩
      obtain rfl := Option.mem_unique hparent hother
      obtain rfl := Option.mem_unique hmembers hmembers'
      exact hfield
  · rename_i hparent
    exact ⟨_, .place hname htypedef hmember fun parent _ h _ => absurd h (hparent parent),
      (Option.some.inj h).symm⟩

end Interop.Binding
