import Interop.Managed.Bindings
import Interop.Proofs.Identifiers
import Interop.Proofs.TextLines

/-!
# Names that the settings give

Settings are checked character by character, and only the new names of declarations are escaped
afterwards. `accepted_names_legal_iff` says which names of accepted settings are legal in the file that
is written.
-/

namespace Interop

open Csharp (isWord isName)
open Managed (Bindings Code keywords escapeIdentifier)

variable {settings : Settings}

theorem fault_eq_none_iff : settings.fault? = none ↔
    (∀ segment ∈ Text.split '.' settings.scope, isPlainIdentifier segment = true) ∧
      isPlainIdentifier settings.methodsClass = true ∧ settings.library ≠ "" ∧
        ∀ entry ∈ settings.remap, isPlainIdentifier entry.2 = true := by
  rw [Settings.fault?, ← List.all_eq_true]
  by_cases hscope : (Text.split '.' settings.scope).all isPlainIdentifier = true
  · by_cases hclass : isPlainIdentifier settings.methodsClass = true
    · by_cases hlibrary : settings.library = ""
      · simp [hscope, hclass, hlibrary]
      · simp [hscope, hclass, hlibrary]
    · simp [hscope, hclass]
  · simp [hscope]

theorem isName_iff_of_isWord {name : String} (h : isWord name.toList = true) :
    isName name = true ↔ name ∉ keywords := by
  refine ⟨fun hname hkeyword => ?_, fun hkeyword => Csharp.isName_of_isWord h (by simpa using hkeyword)⟩
  unfold isName at hname
  split at hname
  · rename_i word hcs
    have hat : '@' ∉ name.toList := Csharp.not_mem_of_isWord (by decide) h
    exact hat (hcs ▸ List.mem_cons_self ..)
  · simp [hkeyword] at hname

theorem break_not_mem_of_segments
    (h : ∀ segment ∈ Text.split '.' scope, isPlainIdentifier segment = true) : '\n' ∉ scope.toList := by
  intro hbreak
  rcases Managed.eq_or_mem_splitChars '.' hbreak with hdot | ⟨part, hpart, hmem⟩
  · exact absurd hdot (by decide)
  · have hword := isWord_of_isPlainIdentifier (h _ (List.mem_map_of_mem hpart))
    exact Csharp.not_mem_of_isWord (c := '\n') (by decide) hword (by simpa using hmem)

theorem mem_spaced {line : String} {c : Code} {parts : List Code} (hc : c ∈ parts) (h : line ∈ c) :
    line ∈ Code.spaced parts := by
  induction parts with
  | nil => cases hc
  | cons d parts ih =>
    cases parts with
    | nil => exact List.mem_singleton.mp hc ▸ h
    | cons e parts =>
      rw [Code.spaced, List.append_assoc, List.mem_append, List.mem_append]
      rcases List.mem_cons.mp hc with rfl | hc
      · exact .inl h
      · exact .inr (.inr (ih hc))

theorem mem_code_class {b : Bindings} (hmethods : b.placed .methods ≠ [])
    (hclass : '\n' ∉ settings.methodsClass.toList) :
    ∃ modifiers, Code.indentLine (modifiers ++ " class " ++ settings.methodsClass) ∈ b.code settings := by
  obtain ⟨modifiers, part, hpart, hline⟩ : ∃ modifiers, ∃ part ∈ b.methodsCode settings.methodsClass,
      modifiers ++ " class " ++ settings.methodsClass ∈ part := by
    unfold Bindings.methodsCode
    split
    · exact absurd ‹_› hmethods
    · refine ⟨if (b.placed .methods).any (·.usesPointers) then "public static unsafe partial"
        else "public static partial", _, List.mem_singleton_self _, List.mem_append_left _ ?_⟩
      rw [Managed.ofText_of_not_mem]
      · exact List.mem_singleton_self _
      · split <;> simpa using hclass
  refine ⟨modifiers, ?_⟩
  have hspaced := mem_spaced (List.mem_append_right ((b.placed .scope).map (·.code)) hpart) hline
  simp only [Bindings.code, Code.braced, Code.indent, List.mem_append, List.mem_cons]
  exact .inr (.inl (.inr (List.mem_map_of_mem hspaced)))

/-- **Accepted settings give names, or keywords.** The segments of the namespace and the class are
written as they are: they are ASCII identifiers, and legal unless they are reserved. New names are
escaped, and always legal. -/
theorem accepted_names_legal_iff (h : settings.fault? = none) (b : Bindings) :
    "namespace " ++ settings.scope ∈ b.code settings ∧
      (b.placed .methods ≠ [] → ∃ modifiers,
        Code.indentLine (modifiers ++ " class " ++ settings.methodsClass) ∈ b.code settings) ∧
      (∀ name, name ∈ Text.split '.' settings.scope ∨ name = settings.methodsClass →
        isPlainIdentifier name = true ∧ (isName name = true ↔ name ∉ keywords)) ∧
      ∀ entry ∈ settings.remap, isName (escapeIdentifier entry.2) = true := by
  obtain ⟨hscope, hclass, -, hremap⟩ := fault_eq_none_iff.mp h
  refine ⟨?_, fun hmethods => ?_, fun name hname => ?_, fun entry hentry => ?_⟩
  · have hline : Code.ofText ("namespace " ++ settings.scope) = ["namespace " ++ settings.scope] :=
      Managed.ofText_of_not_mem (by simpa using break_not_mem_of_segments hscope)
    simp [Bindings.code, hline]
  · exact mem_code_class hmethods
      (Csharp.not_mem_of_isWord (by decide) (isWord_of_isPlainIdentifier hclass))
  · have hplain : isPlainIdentifier name = true := by
      rcases hname with hsegment | rfl
      · exact hscope name hsegment
      · exact hclass
    exact ⟨hplain, isName_iff_of_isWord (isWord_of_isPlainIdentifier hplain)⟩
  · exact Managed.isName_escapeIdentifier (isWord_of_isPlainIdentifier (hremap entry hentry))

theorem vendor_names_legal : ∃ settings : Settings, settings.scope = "Vendor.Sound" ∧
    settings.remap = [("lock_", "lock")] ∧ settings.fault? = none ∧
    isName "Vendor" = true ∧ isName "Sound" = true ∧ isName (escapeIdentifier "lock") = true := by
  let settings : Settings := { scope := "Vendor.Sound", remap := [("lock_", "lock")] }
  have haccepted : settings.fault? = none := by decide
  obtain ⟨-, -, hnames, hremap⟩ := accepted_names_legal_iff haccepted ⟨"", [], [], [], []⟩
  refine ⟨settings, rfl, rfl, haccepted, ?_, ?_, hremap ("lock_", "lock") (by decide)⟩
  · exact (hnames "Vendor" (.inl (by decide))).2.mpr (by decide)
  · exact (hnames "Sound" (.inl (by decide))).2.mpr (by decide)

theorem accepted_namespace_is_keyword : ∃ settings : Settings, settings.fault? = none ∧
    ∃ segment ∈ Text.split '.' settings.scope, isName segment = false :=
  ⟨{ scope := "Vendor.class" }, by decide, "class", by decide, by decide⟩

end Interop
