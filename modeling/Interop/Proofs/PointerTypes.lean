import Interop.Proofs.TypeNames

/-!
# Types that need pointers

A mapped type comes with a flag for its pointers, which is set apart from the text of the type. The flag is
true of exactly those types that have a pointer inside, and these are the types that are written with a
star, unless a record is called so.
-/

namespace Interop.Managed

/-! ## Types with pointers -/

namespace TypeName

def hasPointers : TypeName → Bool
  | .named _ => false
  | .pointer _ => true
  | .array element => element.hasPointers
  | .span element => element.hasPointers
  | .functionPointer _ _ _ => true

/-- The name that a type without pointers is made from. -/
def baseName? : TypeName → Option String
  | .named name => some name
  | .pointer _ => none
  | .array element => element.baseName?
  | .span element => element.baseName?
  | .functionPointer _ _ _ => none

theorem star_mem_text_iff : (t : TypeName) →
    ('*' ∈ t.text.toList ↔ t.hasPointers = true ∨ ∃ name ∈ t.baseName?, '*' ∈ name.toList)
  | .named name => by
    change '*' ∈ name.toList ↔ _
    simp [hasPointers, baseName?]
  | .pointer target => by
    change '*' ∈ (target.text ++ "*").toList ↔ _
    simp [hasPointers]
  | .array element => by
    change '*' ∈ (element.text ++ "[]").toList ↔ _
    simp [hasPointers, baseName?, star_mem_text_iff element]
  | .span element => by
    change '*' ∈ ("Span<" ++ element.text ++ ">").toList ↔ _
    simp [hasPointers, baseName?, star_mem_text_iff element]
  | .functionPointer convention params result => by
    change '*' ∈ ("delegate* unmanaged[" ++ convention ++ "]<" ++
      Text.joinWith ", " (texts params ++ [result.text]) ++ ">").toList ↔ _
    simp [hasPointers]

end TypeName

end Interop.Managed

namespace Interop.Binding

open Native (DeclId TypeId)
open Managed (TypeName)

/-! ## The flag of a mapped type -/

/-- The flag beside a type is right about its pointers, and the type is made from a predefined name or from
one of a record or enumeration. -/
structure TypeContext.IsFlagged (c : TypeContext) (type : TypeName) (flag : Bool) : Prop where
  flag : flag = type.hasPointers
  base : ∀ name ∈ type.baseName?, '*' ∈ name.toList → ∃ id, qualifiedName? c.ast c.symbols id c.scope = some name

variable {c : TypeContext} {decl : DeclId} {managed : TypeId → Usage → Result (TypeName × Bool)} {m : TypeName × Bool}

theorem isFlagged_of_functionPointer (h : c.functionPointer managed proto = .ok m) : c.IsFlagged m.1 m.2 := by
  obtain ⟨_, _, _, _, -, -, -, rfl⟩ := functionPointer_eq_ok h
  exact ⟨rfl, fun _ h => by cases h⟩

theorem isFlagged_of_pointerTo (h : c.pointerTo managed target = .ok m) : c.IsFlagged m.1 m.2 := by
  rcases pointerTo_eq_ok h with ⟨-, _, h⟩ | ⟨-, _, _, -, rfl⟩
  · exact isFlagged_of_functionPointer h
  · exact ⟨rfl, fun _ h => by cases h⟩

theorem isFlagged_of_arrayOf (hmanaged : ∀ type usage m, managed type usage = .ok m → c.IsFlagged m.1 m.2)
    (h : c.arrayOf managed element isComplete usage = .ok m) : c.IsFlagged m.1 m.2 := by
  simp only [TypeContext.arrayOf, bind_eq_ok] at h
  obtain ⟨inner, hinner, h⟩ := h
  have hflag := hmanaged _ _ _ hinner
  split at h
  · obtain ⟨isArray, -, h⟩ := bind_eq_ok.mp h
    split at h
    · cases h
    · obtain rfl := pure_eq_ok.mp h
      exact ⟨hflag.flag, hflag.base⟩
  · obtain rfl := pure_eq_ok.mp h
    exact ⟨rfl, fun _ h => by cases h⟩

theorem isFlagged_of_named (h : '*' ∉ name.toList) : c.IsFlagged (.named name) false :=
  ⟨rfl, fun _ hname hstar => absurd hstar (Option.some.inj hname ▸ h)⟩

theorem isFlagged_of_qualifiedName (h : qualifiedName? c.ast c.symbols decl c.scope = some name) :
    c.IsFlagged (.named name) false :=
  ⟨rfl, fun _ hname _ => ⟨decl, Option.some.inj hname ▸ h⟩⟩

theorem isFlagged_of_builtinTypeName (h : builtinTypeName? kind size = some t) :
    c.IsFlagged t (kind == .nullPtr) := by
  cases kind
  case nullPtr =>
    cases h
    exact ⟨rfl, fun _ h => by cases h⟩
  all_goals
    dsimp only [builtinTypeName?] at h
    repeat' split at h
  all_goals
    cases h
  all_goals exact isFlagged_of_named (by decide)

theorem star_notMem_wellKnownTypedef (h : wellKnownTypedef? typedef = some name) : '*' ∉ name.toList := by
  unfold wellKnownTypedef? at h
  split at h
  · cases h
    decide
  · split at h
    · cases h
      decide
    · cases h

theorem isFlagged_of_managedFrom (h : c.managedFrom fuel type usage = .ok m) : c.IsFlagged m.1 m.2 := by
  induction fuel generalizing type usage m with
  | zero => cases h
  | succ fuel ih =>
    simp only [TypeContext.managedFrom, bind_eq_ok] at h
    obtain ⟨t, -, h⟩ := h
    split at h
    · split at h
      · rename_i name hname
        obtain rfl := pure_eq_ok.mp h
        exact isFlagged_of_builtinTypeName hname
      · cases h
    · exact isFlagged_of_pointerTo h
    · exact isFlagged_of_pointerTo h
    · exact isFlagged_of_pointerTo h
    · exact isFlagged_of_arrayOf (fun _ _ _ h => ih h) h
    · exact isFlagged_of_arrayOf (fun _ _ _ h => ih h) h
    · split at h
      · exact isFlagged_of_functionPointer h
      · cases h
    · obtain ⟨_, hname, h⟩ := bind_eq_ok.mp h
      obtain rfl := pure_eq_ok.mp h
      exact isFlagged_of_qualifiedName (found_eq_ok.mp hname)
    · obtain ⟨_, hname, h⟩ := bind_eq_ok.mp h
      obtain rfl := pure_eq_ok.mp h
      exact isFlagged_of_qualifiedName (found_eq_ok.mp hname)
    · obtain ⟨_, -, h⟩ := bind_eq_ok.mp h
      split at h
      · rename_i hknown
        obtain rfl := pure_eq_ok.mp h
        exact isFlagged_of_named (star_notMem_wellKnownTypedef hknown)
      · exact ih h
    · split at h
      · exact ih h
      · cases h
    · cases h

theorem isFlagged_of_map {m : MappedType} (h : c.map type usage = .ok m) : c.IsFlagged m.type m.usesPointers := by
  obtain ⟨⟨t, flag⟩, hmanaged, h⟩ := bind_eq_ok.mp h
  obtain ⟨native, -, h⟩ := bind_eq_ok.mp h
  obtain rfl := pure_eq_ok.mp h
  exact isFlagged_of_managedFrom hmanaged

/-! ## Types written with a star -/

/-- What stands in a joined text stands in a part of it or between the parts. -/
theorem exists_mem_of_mem_joinWith {sep : String} {parts : List String} {x : Char}
    (h : x ∈ (Text.joinWith sep parts).toList) : x ∈ sep.toList ∨ ∃ part ∈ parts, x ∈ part.toList := by
  induction parts with
  | nil => simp [Text.joinWith] at h
  | cons first rest ih =>
    cases rest with
    | nil => exact .inr ⟨first, by simp, h⟩
    | cons second rest =>
      simp only [Text.joinWith, String.toList_append, List.mem_append] at h
      rcases h with (h | h) | h
      · exact .inr ⟨first, by simp, h⟩
      · exact .inl h
      · exact (ih h).imp_right fun hpart => by
          obtain ⟨part, hmem, hx⟩ := hpart
          exact ⟨part, List.mem_cons_of_mem _ hmem, hx⟩

theorem exists_name_of_mem_qualifiedName {ast : Native.Ast} {s : Symbols} {x : Char}
    (h : qualifiedName? ast s decl scope = some name) (hx : x ∈ name.toList) :
    x = '.' ∨ ∃ id d, ast.decl? id = some d ∧ ((∃ r, d.kind = .record r) ∨ ∃ e, d.kind = .enum e) ∧
      x ∈ (s.name id).toList := by
  simp only [qualifiedName?, recordChain?, bind, Option.bind_eq_some_iff, Option.map_eq_some_iff,
    pure, Option.some.injEq] at h
  obtain ⟨target, ⟨chain, hchain, rfl⟩, current, -, rfl⟩ := h
  rcases exists_mem_of_mem_joinWith hx with hdot | ⟨_, hpart, hx⟩
  · exact .inl (List.mem_singleton.mp hdot)
  · obtain ⟨part, hkept, rfl⟩ := List.mem_map.mp hpart
    have hmem := List.mem_reverse.mp (dropCommon_subset _ _ hkept)
    obtain ⟨d, hd, hkind⟩ := exists_decl_of_mem_recordChain hchain part hmem
    exact .inr ⟨part, d, hd, hkind, hx⟩

/-- Where no record and no enumeration is called with a star, a type needs pointers exactly if it is
written with one. -/
theorem usesPointers_iff_star {m : MappedType}
    (hnames : ∀ id d, c.ast.decl? id = some d → (∃ r, d.kind = .record r) ∨ (∃ e, d.kind = .enum e) →
      '*' ∉ (c.symbols.name id).toList)
    (h : c.map type usage = .ok m) : m.usesPointers = true ↔ '*' ∈ m.name.toList := by
  have hflagged := isFlagged_of_map h
  have hbase : ¬ ∃ name ∈ m.type.baseName?, '*' ∈ name.toList := by
    rintro ⟨name, hname, hstar⟩
    obtain ⟨id, hqualified⟩ := hflagged.base name hname hstar
    rcases exists_name_of_mem_qualifiedName hqualified hstar with hdot | ⟨id, d, hd, hkind, hmem⟩
    · exact absurd hdot (by decide)
    · exact hnames id d hd hkind hmem
  rw [hflagged.flag, MappedType.name, TypeName.star_mem_text_iff, or_iff_left hbase]

def rings : Native.Ast where
  file := "rings.h"
  topLevel := [⟨0⟩]
  decls :=
    #[{ kind := .record { tag := .struct, members := [⟨1⟩] }, name := "Ring" },
      { kind := .record { tag := .struct, members := [] }, name := "Slot", parent := some ⟨0⟩ }]
  types :=
    #[{ kind := .record ⟨1⟩, spelling := "struct Slot" }, { kind := .pointer ⟨0⟩, spelling := "struct Slot *" },
      { kind := .constantArray ⟨1⟩ 8, spelling := "struct Slot *[8]" }]

def ringContext : TypeContext where
  ast := rings
  symbols :=
    { names := #["Ring", "Slot"], anonymous := [], namingTypedefs := [], definitions := [], shadowed := [],
      globals := [], vtables := [] }
  scope := none
  location := {}

theorem slots_flagged_slot_not : Symbols.build rings {} = .ok ringContext.symbols ∧
    (∀ id d, rings.decl? id = some d → (∃ r, d.kind = .record r) ∨ (∃ e, d.kind = .enum e) →
      '*' ∉ (ringContext.symbols.name id).toList) ∧
    (∃ slots, ringContext.map ⟨2⟩ .localVar = .ok slots ∧ '*' ∈ slots.name.toList ∧ slots.usesPointers = true) ∧
    ∃ slot, ringContext.map ⟨0⟩ .field = .ok slot ∧ '*' ∉ slot.name.toList ∧ ¬ slot.usesPointers = true := by
  have hnames : ∀ id d, rings.decl? id = some d → (∃ r, d.kind = .record r) ∨ (∃ e, d.kind = .enum e) →
      '*' ∉ (ringContext.symbols.name id).toList := by
    rintro ⟨_ | _ | id⟩ d hd hkind
    · decide
    · decide
    · cases hd
  obtain ⟨slots, hslots, hstar⟩ : ∃ slots, ringContext.map ⟨2⟩ .localVar = .ok slots ∧ '*' ∈ slots.name.toList :=
    ⟨_, rfl, by decide⟩
  obtain ⟨slot, hslot, hplain⟩ : ∃ slot, ringContext.map ⟨0⟩ .field = .ok slot ∧ '*' ∉ slot.name.toList :=
    ⟨_, rfl, by decide⟩
  refine ⟨rfl, hnames, ⟨slots, hslots, hstar, ?_⟩, slot, hslot, hplain, ?_⟩
  · exact (usesPointers_iff_star hnames hslots).mpr hstar
  · exact (usesPointers_iff_star hnames hslot).not.mpr hplain

end Interop.Binding
