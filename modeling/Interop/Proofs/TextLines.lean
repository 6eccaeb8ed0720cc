import Interop.Managed.Expr
import Mathlib.Data.List.Basic

/-!
# Lines of texts

A text is split into lines at its breaks, and lines of code are put together to a text again. What is
split has no breaks inside its lines (`Code.IsBroken`), so that nothing is lost on the way.
-/

namespace Interop.Managed

variable {cs ds : List Char} {c : Char} {code : Code} {text : String}

/-! ## Lines of a text -/

theorem splitChars_cases (sep : Char) (cs : List Char) :
    (sep ∉ cs ∧ Text.splitChars sep cs = [cs]) ∨
      ∃ first rest, cs = first ++ sep :: rest ∧ sep ∉ first ∧
        Text.splitChars sep cs = first :: Text.splitChars sep rest := by
  induction cs with
  | nil => exact .inl ⟨by simp, rfl⟩
  | cons c cs ih =>
    by_cases hc : c = sep
    · subst hc
      exact .inr ⟨[], cs, rfl, by simp, by simp [Text.splitChars]⟩
    · rcases ih with ⟨hmem, hsplit⟩ | ⟨first, rest, rfl, hmem, hsplit⟩
      · refine .inl ⟨?_, by simp [Text.splitChars, hc, hsplit]⟩
        simp [hmem, Ne.symm hc]
      · refine .inr ⟨c :: first, rest, rfl, ?_, by simp [Text.splitChars, hc, hsplit]⟩
        simp [hmem, Ne.symm hc]

theorem splitChars_of_not_mem (h : sep ∉ cs) : Text.splitChars sep cs = [cs] := by
  rcases splitChars_cases sep cs with ⟨-, hsplit⟩ | ⟨first, rest, rfl, -⟩
  · exact hsplit
  · simp at h

theorem splitChars_append (sep : Char) (cs ds : List Char) :
    Text.splitChars sep (cs ++ sep :: ds) = Text.splitChars sep cs ++ Text.splitChars sep ds := by
  induction cs with
  | nil => simp [Text.splitChars]
  | cons c cs ih =>
    rw [List.cons_append, Text.splitChars, Text.splitChars, ih]
    split
    · simp
    · -- There is a first part, which takes the character.
      rcases splitChars_cases sep cs with ⟨-, hsplit⟩ | ⟨first, rest, -, -, hsplit⟩
      · simp [hsplit]
      · simp [hsplit]

theorem not_mem_of_mem_splitChars (h : part ∈ Text.splitChars sep cs) : sep ∉ part := by
  induction hn : cs.length using Nat.strongRecOn generalizing cs with
  | _ n ih =>
    rcases splitChars_cases sep cs with ⟨hmem, hsplit⟩ | ⟨first, rest, rfl, hmem, hsplit⟩
    · rw [hsplit, List.mem_singleton] at h
      exact h ▸ hmem
    · rw [hsplit] at h
      rcases List.mem_cons.mp h with rfl | h
      · exact hmem
      · exact ih rest.length (by simp at hn; omega) h rfl

theorem eq_or_mem_splitChars (sep : Char) {c : Char} (h : c ∈ cs) :
    c = sep ∨ ∃ part ∈ Text.splitChars sep cs, c ∈ part := by
  induction hn : cs.length using Nat.strongRecOn generalizing cs with
  | _ n ih =>
    rcases splitChars_cases sep cs with ⟨-, hsplit⟩ | ⟨first, rest, rfl, -, hsplit⟩
    · exact .inr ⟨cs, by simp [hsplit], h⟩
    · rw [hsplit]
      rcases List.mem_append.mp h with hfirst | hrest
      · exact .inr ⟨first, List.mem_cons_self .., hfirst⟩
      · rcases List.mem_cons.mp hrest with rfl | hrest
        · exact .inl rfl
        · obtain rfl | ⟨part, hpart, hc⟩ := ih rest.length (by simp [← hn]; omega) hrest rfl
          · exact .inl rfl
          · exact .inr ⟨part, List.mem_cons_of_mem _ hpart, hc⟩

/-! ## Lines of code -/

def Code.IsBroken (code : Code) : Prop :=
  ∀ line ∈ code, '\n' ∉ line.toList

theorem mem_ofText {line : String} :
    line ∈ Code.ofText text ↔ line.toList ∈ Text.splitChars '\n' text.toList := by
  simp only [Code.ofText, Text.split, List.mem_map]
  constructor
  · rintro ⟨cs, hcs, rfl⟩
    simpa using hcs
  · intro h
    exact ⟨line.toList, h, by simp⟩

theorem isBroken_ofText (text : String) : (Code.ofText text).IsBroken :=
  fun _ hline => not_mem_of_mem_splitChars (mem_ofText.mp hline)

theorem ofText_of_not_mem (h : '\n' ∉ text.toList) : Code.ofText text = [text] := by
  rw [Code.ofText, Text.split, splitChars_of_not_mem h]
  simp

theorem toList_text (code : Code) : code.text.toList = code.flatMap fun line => line.toList ++ ['\n'] := by
  simp [Code.text, String.toList_join, List.flatMap_map]

/-- The lines of a text that starts with lines of code. -/
theorem splitChars_text_append (h : code.IsBroken) (cs : List Char) :
    Text.splitChars '\n' (code.text.toList ++ cs) = code.map String.toList ++ Text.splitChars '\n' cs := by
  rw [toList_text]
  induction code with
  | nil => rfl
  | cons line code ih =>
    have hline : '\n' ∉ line.toList := h line (List.mem_cons_self ..)
    have hcode : Code.IsBroken code := fun line hline => h line (List.mem_cons_of_mem _ hline)
    rw [List.flatMap_cons, List.append_assoc, List.append_assoc, List.singleton_append, splitChars_append,
      splitChars_of_not_mem hline, ih hcode]
    rfl

theorem ofText_text_append (h : code.IsBroken) (text : String) :
    Code.ofText (code.text ++ text) = code ++ Code.ofText text := by
  simp [Code.ofText, Text.split, splitChars_text_append h]

theorem toList_trimmedText_brace (code : Code) :
    (Code.trimmedText (code ++ ["\x7d"])).toList =
      (code.flatMap fun line => line.toList ++ ['\n']) ++ ['\x7d'] := by
  rw [Code.trimmedText, Text.dropEndWhile, String.toList_ofList, toList_text, List.flatMap_append]
  simp

theorem Expr.toList_listing {heading : String} (hbreak : '\n' ∉ heading.toList) (entries : List String) :
    (listing heading entries).toList = heading.toList ++ '\n' :: ((("\x7b" ::
      Code.indent (entries.flatMap fun entry => Code.ofText (entry ++ ","))).flatMap
        fun line => line.toList ++ ['\n']) ++ ['\x7d']) := by
  rw [listing, ofText_of_not_mem hbreak, Code.braced, ← List.append_assoc, toList_trimmedText_brace]
  simp

end Interop.Managed
