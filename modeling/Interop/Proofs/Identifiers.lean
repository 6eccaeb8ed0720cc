import Interop.Binding.Symbols
import Interop.Proofs.Csharp.Printing

/-!
# Names stay names

A native identifier becomes a C# name: as it is, behind an at sign where it is a keyword, or under the
name that the settings give it (`isName_escapeIdentifier`, `isWord_remapped`). A parameter without a
name is numbered.
-/

namespace Interop.Csharp

theorem isWord_cons (h : isWord cs = true) :
    ∃ first tail, cs = first :: tail ∧ first.isDigit = false ∧ ∀ c ∈ cs, isWordChar c = true := by
  cases cs with
  | nil => cases h
  | cons first tail =>
    simp only [isWord, Bool.and_eq_true, Bool.not_eq_true', List.all_eq_true] at h
    exact ⟨first, tail, rfl, h.1.2, List.forall_mem_cons.mpr ⟨h.1.1, h.2⟩⟩

theorem isWord_append (h : isWord cs = true) (hds : ∀ c ∈ ds, isWordChar c = true) :
    isWord (cs ++ ds) = true := by
  cases cs with
  | nil => cases h
  | cons first tail =>
    simp only [isWord, List.cons_append, List.all_append, Bool.and_eq_true, List.all_eq_true] at h ⊢
    exact ⟨h.1, h.2, hds⟩

theorem isWordChar_of_isAlphanum {c : Char} (h : c.isAlphanum = true) : isWordChar c = true := by
  simp [isWordChar, Text.isAlphanumeric, h]

theorem not_mem_of_isWord (hc : isWordChar c = false) (h : isWord cs = true) : c ∉ cs := by
  obtain ⟨first, tail, -, -, hall⟩ := isWord_cons h
  intro hmem
  rw [hall c hmem] at hc
  cases hc

theorem isName_of_isWord {text : String} (h : isWord text.toList = true)
    (hkeyword : Managed.keywords.contains text = false) : isName text = true := by
  unfold isName
  split
  · rename_i word hcs
    have hat : '@' ∉ text.toList := not_mem_of_isWord (by decide) h
    exact absurd (hcs ▸ List.mem_cons_self ..) hat
  · simp only [h, hkeyword, Bool.not_false, Bool.and_self]

end Interop.Csharp

namespace Interop.Managed

open Csharp (isWord isName isWordChar)

theorem mem_of_stripLead (h : Text.stripLead? lead cs = some (next :: rest)) : next ∈ cs := by
  induction lead generalizing cs with
  | nil =>
    rw [Text.stripLead?, Option.some.injEq] at h
    simp [h]
  | cons p lead ih =>
    cases cs with
    | nil => cases h
    | cons c cs =>
      rw [Text.stripLead?] at h
      split at h
      · exact List.mem_cons_of_mem c (ih h)
      · cases h

theorem operatorSymbol_eq_none {name : String} (h : isWord name.toList = true) :
    operatorSymbol? name = none := by
  unfold operatorSymbol?
  split
  · rename_i next rest hstrip
    obtain ⟨first, tail, -, -, hall⟩ := Csharp.isWord_cons h
    have hnext : isWordChar next = true := hall next (mem_of_stripLead hstrip)
    rw [isWordChar, Bool.or_comm] at hnext
    rw [if_pos hnext]
  · rfl

theorem escapeIdentifier_of_isWord {name : String} (h : isWord name.toList = true) :
    escapeIdentifier name = if keywords.contains name then "@" ++ name else name := by
  rw [escapeIdentifier, operatorSymbol_eq_none h]

/-- **The C# form of an identifier is a name.** -/
theorem isName_escapeIdentifier {name : String} (h : isWord name.toList = true) :
    isName (escapeIdentifier name) = true := by
  rw [escapeIdentifier_of_isWord h]
  split
  · rw [isName, String.toList_append]
    exact h
  · rename_i hkeyword
    exact Csharp.isName_of_isWord h (by simpa using hkeyword)

/-- The name of an operator function is made of word characters behind `op_`. -/
theorem operatorMethod_eq (symbol : String) :
    ∃ rest, operatorMethod symbol = "op_" ++ rest ∧ ∀ c ∈ rest.toList, isWordChar c = true := by
  unfold operatorMethod
  split
  · rename_i name hname
    have hnames : ∀ entry ∈ operatorNames, entry.2.toList.all Char.isAlphanum = true := by decide
    have hname := List.all_eq_true.mp (hnames (symbol, name) (mem_of_lookup hname))
    exact ⟨name, rfl, fun c hc => Csharp.isWordChar_of_isAlphanum (hname c hc)⟩
  · dsimp only
    split
    · have hletters : "Operator".toList.all Char.isAlphanum = true := by decide
      exact ⟨"Operator", rfl, fun c hc =>
        Csharp.isWordChar_of_isAlphanum (List.all_eq_true.mp hletters c hc)⟩
    · refine ⟨_, rfl, fun c hc => ?_⟩
      simp only [cleanedSymbol, Text.stripWhile, Text.dropEndWhile, String.toList_ofList,
        List.mem_reverse] at hc
      -- What is stripped at the two ends was mapped like the rest.
      have hdropped := (List.dropWhile_sublist _).subset hc
      have hmapped := (List.dropWhile_sublist _).subset (List.mem_reverse.mp hdropped)
      obtain ⟨d, -, rfl⟩ := List.mem_map.mp hmapped
      split
      · rename_i halpha
        exact Csharp.isWordChar_of_isAlphanum halpha
      · rfl

theorem not_keyword_of_lead (hlead : ∀ keyword ∈ keywords, ¬ lead.toList <+: keyword.toList)
    (text : String) : keywords.contains (lead ++ text) = false := by
  rw [Bool.eq_false_iff]
  intro hmem
  exact hlead _ (List.contains_iff_mem.mp hmem) (by simp)

theorem isName_operatorMethod (symbol : String) : isName (operatorMethod symbol) = true := by
  obtain ⟨rest, hrest, hchars⟩ := operatorMethod_eq symbol
  have hword : isWord "op_".toList = true := by decide
  rw [hrest]
  refine Csharp.isName_of_isWord ?_ (not_keyword_of_lead (by decide) rest)
  rw [String.toList_append]
  exact Csharp.isWord_append hword hchars

/-! ## Numbered names -/

theorem isWordChar_of_mem_repr {n : Nat} (h : c ∈ n.repr.toList) : isWordChar c = true := by
  rw [Nat.toList_repr] at h
  have hdigit : c.isDigit = true := Nat.isDigit_of_mem_toDigits (by decide) (by decide) h
  exact Csharp.isWordChar_of_isAlphanum (by simp [Char.isAlphanum, hdigit])

theorem isWord_numbered (n : Nat) : isWord ("param" ++ n.repr).toList = true := by
  have hword : isWord "param".toList = true := by decide
  rw [String.toList_append]
  exact Csharp.isWord_append hword fun c => isWordChar_of_mem_repr

theorem numbered_not_keyword (n : Nat) : keywords.contains ("param" ++ n.repr) = false := by
  have hplain : ∀ keyword ∈ keywords, ¬ "param".toList <+: keyword.toList ∨ keyword = "params" := by
    decide
  rw [Bool.eq_false_iff]
  intro hmem
  rcases hplain _ (List.contains_iff_mem.mp hmem) with hlead | hparams
  · exact hlead (by simp)
  · -- The number would be the last letter of the keyword.
    have hdigits : Nat.toDigits 10 n = ['s'] := by
      simpa using congrArg String.toList hparams
    have hdigit : ('s' : Char).isDigit = true :=
      Nat.isDigit_of_mem_toDigits (by decide) (by decide) (hdigits ▸ List.mem_singleton_self _)
    cases hdigit

theorem isName_numbered (n : Nat) : isName ("param" ++ n.repr) = true :=
  Csharp.isName_of_isWord (isWord_numbered n) (numbered_not_keyword n)

end Interop.Managed

namespace Interop

open Csharp (isWord isWordChar)

theorem isDigit_of_isAlpha {c : Char} (h : c.isAlpha = true) : c.isDigit = false := by
  have hnine : '9'.val.toNat = 57 := rfl
  simp only [Char.isAlpha, Char.isUpper, Char.isLower, Bool.or_eq_true, Bool.and_eq_true,
    decide_eq_true_eq, UInt32.le_iff_toNat_le, ge_iff_le] at h
  have hupper : 'A'.val.toNat = 65 := rfl
  have hlower : 'a'.val.toNat = 97 := rfl
  simp only [Char.isDigit, Bool.and_eq_false_iff, decide_eq_false_iff_not, UInt32.le_iff_toNat_le,
    ge_iff_le]
  omega

theorem isWord_of_isPlainIdentifier (h : isPlainIdentifier name = true) : isWord name.toList = true := by
  unfold isPlainIdentifier at h
  split at h
  · cases h
  · rename_i c rest hcs
    simp only [Bool.and_eq_true, Bool.or_eq_true, decide_eq_true_eq, List.all_eq_true] at h
    have hchar : ∀ c : Char, c = '_' ∨ c.isAlphanum = true → isWordChar c = true := by
      rintro c (rfl | hc)
      · rfl
      · exact Csharp.isWordChar_of_isAlphanum hc
    have hfirst : isWordChar c = true ∧ c.isDigit = false := by
      rcases h.1 with rfl | halpha
      · exact ⟨rfl, rfl⟩
      · exact ⟨hchar c (.inr (by simp [Char.isAlphanum, halpha])), isDigit_of_isAlpha halpha⟩
    rw [hcs, isWord, hfirst.1, hfirst.2]
    simpa using fun c hc => hchar c (h.2 c hc)

theorem isWord_of_remap {settings : Settings} (hsettings : settings.fault? = none)
    (h : settings.remap.lookup name = some managed) : isWord managed.toList = true := by
  -- Settings are refused for the first new name that is no identifier.
  have hfind : settings.remap.find? (fun entry => !isPlainIdentifier entry.2) = none := by
    unfold Settings.fault? at hsettings
    split at hsettings
    · cases hsettings
    split at hsettings
    · cases hsettings
    split at hsettings
    · cases hsettings
    · exact Option.map_eq_none_iff.mp hsettings
  have hplain := List.find?_eq_none.mp hfind (name, managed) (mem_of_lookup h)
  exact isWord_of_isPlainIdentifier (by simpa using hplain)

theorem isWord_remapped {settings : Settings} (hsettings : settings.fault? = none) {name : String}
    (h : isWord name.toList = true) : isWord (settings.remapped name).toList = true := by
  rw [Settings.remapped]
  cases hlookup : settings.remap.lookup name with
  | none => exact h
  | some managed => exact isWord_of_remap hsettings hlookup

end Interop
