import Interop.Binding.Literal
import Interop.Proofs.Csharp.Lexer
import Interop.Proofs.Partial

/-!
# Integers keep their values

A native integer is spelled in one of four bases, with apostrophes and a suffix; its C# spelling has
underscores, no octal form, and a suffix that follows from its type. Both are read by the same rule for
digits, `Csharp.digits?`, and the value stays the same (`integer_of_nativeInteger`).
-/

namespace Interop.Csharp

/-! ## Digits -/

theorem digit_cases (h : digit? base c = some d) : (c, d) ∈ digitValues ∧ d < base := by
  simp only [digit?, Option.filter_eq_some_iff, decide_eq_true_eq] at h
  exact ⟨mem_of_lookup h.1, h.2⟩

theorem digit_underscore (base : Nat) : digit? base '_' = none := rfl

theorem digitsFrom_map (hnew : digit? base new = none) (h : digitsFrom base old ended value cs = some r) :
    digitsFrom base new ended value (cs.map fun c => if c = old then new else c) = some r := by
  induction cs generalizing ended value with
  | nil => exact h
  | cons c cs ih =>
    rw [digitsFrom] at h
    by_cases hc : c = old
    · rw [if_pos hc] at h
      simp [digitsFrom, hc, ih h]
    · rw [if_neg hc] at h
      split at h
      · rename_i d hd
        have hcnew : c ≠ new := by
          rintro rfl
          simp [hnew] at hd
        simp [digitsFrom, hc, hcnew, hd, ih h]
      · cases h

theorem digitsFrom_concat (h : digitsFrom base separator ended value cs = some r) (hc : c ≠ separator)
    (hd : digit? base c = some d) :
    digitsFrom base separator ended value (cs ++ [c]) = some (r * base + d) := by
  induction cs generalizing ended value with
  | nil =>
    rw [digitsFrom] at h
    split at h
    · cases h
      simp [digitsFrom, hc, hd]
    · cases h
  | cons c' cs ih =>
    rw [digitsFrom] at h
    rw [List.cons_append, digitsFrom]
    split at h
    · rename_i heq
      rw [if_pos heq]
      exact ih h
    · rename_i hne
      rw [if_neg hne]
      split at h
      · simp [ih h]
      · cases h

/-! ## Characters of numbers -/

def IsBodyChar (c : Char) : Prop :=
  isWordChar c = true ∧ isSuffixLetter c = false

instance (c : Char) : Decidable (IsBodyChar c) :=
  inferInstanceAs (Decidable (_ ∧ _))

theorem isBodyChar_of_digit (h : digit? base c = some d) : IsBodyChar c := by
  have hall : ∀ entry ∈ digitValues, IsBodyChar entry.1 := by decide
  exact hall _ (digit_cases h).1

theorem isDigit_of_digit (h : digit? base c = some d) (hbase : base ≤ 10) : c.isDigit = true := by
  have hall : ∀ entry ∈ digitValues, entry.2 < 10 → entry.1.isDigit = true := by decide
  obtain ⟨hmem, hlt⟩ := digit_cases h
  exact hall _ hmem (Nat.lt_of_lt_of_le hlt hbase)

theorem digit_of_mem_digitsFrom (h : digitsFrom base separator ended value cs = some r) :
    ∀ c ∈ cs, c = separator ∨ ∃ d, digit? base c = some d := by
  induction cs generalizing ended value with
  | nil => simp
  | cons c cs ih =>
    rw [digitsFrom] at h
    rw [List.forall_mem_cons]
    split at h
    · rename_i heq
      exact ⟨.inl heq, ih h⟩
    · split at h
      · rename_i d hd
        exact ⟨.inr ⟨d, hd⟩, ih h⟩
      · cases h

theorem isBodyChar_of_digitsFrom (h : digitsFrom base '_' ended value cs = some r) :
    ∀ c ∈ cs, IsBodyChar c := by
  intro c hc
  rcases digit_of_mem_digitsFrom h c hc with rfl | ⟨d, hd⟩
  · exact ⟨rfl, rfl⟩
  · exact isBodyChar_of_digit hd

theorem digits_cases (h : digits? base separator cs = some r) :
    digitsFrom base separator false 0 cs = some r ∧ ∃ c rest d, cs = c :: rest ∧ digit? base c = some d := by
  rw [digits?] at h
  split at h
  · cases h
  · rename_i hhead
    refine ⟨h, ?_⟩
    cases cs with
    | nil => cases h
    | cons c rest =>
      rw [digitsFrom, if_neg (by simpa using hhead)] at h
      split at h
      · rename_i d hd
        exact ⟨c, rest, d, rfl, hd⟩
      · cases h

theorem magnitude_cases (h : magnitude? cs = some r) :
    (∃ first tail, cs = first :: tail ∧ first.isDigit = true) ∧ ∀ c ∈ cs, IsBodyChar c := by
  unfold magnitude? at h
  split at h
  case h_5 =>
    obtain ⟨hdigits, c, rest, d, rfl, hd⟩ := digits_cases h
    exact ⟨⟨c, rest, rfl, isDigit_of_digit hd (Nat.le_refl 10)⟩, isBodyChar_of_digitsFrom hdigits⟩
  all_goals
    refine ⟨⟨'0', _, rfl, rfl⟩, ?_⟩
    rw [List.forall_mem_cons, List.forall_mem_cons]
    exact ⟨⟨rfl, rfl⟩, ⟨rfl, rfl⟩, isBodyChar_of_digitsFrom (digits_cases h).1⟩

theorem integer_word {r : Nat × Suffix} (h : integer? cs = some r) :
    (∃ first tail, cs = first :: tail ∧ first.isDigit = true) ∧ ∀ c ∈ cs, isWordChar c = true := by
  simp only [integer?, Option.bind_eq_bind, Option.bind_eq_some_iff] at h
  obtain ⟨suffix, hsuffix, value, hvalue, -⟩ := h
  obtain ⟨⟨first, tail, hbody, hfirst⟩, hchars⟩ := magnitude_cases hvalue
  have hletters : ∀ c ∈ cs.dropWhile fun c => !isSuffixLetter c, isWordChar c = true := by
    have hall : ∀ entry ∈ integerSuffixes, entry.1.all isWordChar = true := by decide
    exact List.all_eq_true.mp (hall (_, suffix) (mem_of_lookup hsuffix))
  rw [← List.takeWhile_append_dropWhile (l := cs)]
  refine ⟨⟨first, tail ++ cs.dropWhile fun c => !isSuffixLetter c, by rw [hbody]; rfl, hfirst⟩, ?_⟩
  simp only [List.mem_append]
  rintro c (hc | hc)
  · exact (hchars c hc).1
  · exact hletters c hc

theorem lexes_integer (h : integer? cs = some (value, suffix)) :
    ∃ first, startsWord first = true ∧ Lexes cs [.number value suffix] first cs := by
  obtain ⟨⟨first, tail, rfl, hfirst⟩, hchars⟩ := integer_word h
  obtain ⟨hword, htail⟩ := List.forall_mem_cons.mp hchars
  have hblank : first ≠ ' ' := by
    rintro rfl
    cases hfirst
  have hstart : startsWord first = true := by simp [startsWord, hword]
  refine ⟨first, hstart, lexes_single (extends_word hstart htail) ?_⟩
  simp [token?, hblank, hfirst, h]

theorem integer_append (hvalue : magnitude? body = some value) (hlt : value < 2 ^ 64)
    (hsuffix : integerSuffixes.lookup letters = some suffix) :
    integer? (body ++ letters) = some (value, suffix) := by
  have hplain : ∀ c ∈ body, (!isSuffixLetter c) = true := by
    intro c hc
    simp [((magnitude_cases hvalue).2 c hc).2]
  have hletters : letters.all isSuffixLetter = true := by
    have hall : ∀ entry ∈ integerSuffixes, entry.1.all isSuffixLetter = true := by decide
    exact hall (letters, suffix) (mem_of_lookup hsuffix)
  have hnone : letters.takeWhile (fun c => !isSuffixLetter c) = [] ∧
      letters.dropWhile (fun c => !isSuffixLetter c) = letters := by
    cases letters with
    | nil => exact ⟨rfl, rfl⟩
    | cons c rest =>
      have hc := List.all_eq_true.mp hletters c List.mem_cons_self
      simp only [List.takeWhile_cons, List.dropWhile_cons, hc, Bool.not_true, Bool.false_eq_true,
        if_false, and_self]
  rw [integer?, List.takeWhile_append_of_pos hplain, List.dropWhile_append_of_pos hplain, hnone.1,
    hnone.2, List.append_nil, hsuffix, hvalue]
  exact if_pos hlt

end Interop.Csharp

namespace Interop.Native

open Csharp (digits?)

/-! ## Native integers -/

def isSuffixLetter (c : Char) : Bool :=
  ['u', 'U', 'l', 'L', 'z', 'Z'].contains c

/-- The value of a native integer without its suffix: hexadecimal, binary, octal or decimal. -/
def magnitude? : List Char → Option Nat
  | '0' :: 'x' :: digits => digits? 16 '\'' digits
  | '0' :: 'X' :: digits => digits? 16 '\'' digits
  | '0' :: 'b' :: digits => digits? 2 '\'' digits
  | '0' :: 'B' :: digits => digits? 2 '\'' digits
  | '0' :: c :: digits => digits? 8 '\'' ('0' :: c :: digits)
  | digits => digits? 10 '\'' digits

/-- The value of a native integer. No integer type is wider than 64 bits. -/
def integer? (spelling : List Char) : Option Nat := do
  if (spelling.dropWhile fun c => !isSuffixLetter c).all isSuffixLetter then
    let value ← magnitude? (spelling.takeWhile fun c => !isSuffixLetter c)
    if value < 2 ^ 64 then return value else none
  else none

end Interop.Native

namespace Interop.Csharp

/-- The suffix of an integer of a C# type. The types narrower than `int` have none. -/
def Suffix.ofType (type : String) : Suffix :=
  if type = "uint" then .u else if type = "long" then .l else if type = "ulong" then .ul else .none

def separated (cs : List Char) : List Char :=
  cs.map fun c => if c = '\'' then '_' else c

theorem digits_separated (h : digits? base '\'' cs = some r) : digits? base '_' (separated cs) = some r := by
  obtain ⟨hdigits, c, rest, d, rfl, hd⟩ := digits_cases h
  have hmap := digitsFrom_map (digit_underscore base) hdigits
  rw [digits?, if_neg]
  · exact hmap
  · have hcases := (digit_cases hd).1
    have hall : ∀ entry ∈ digitValues, entry.1 ≠ '\'' ∧ entry.1 ≠ '_' := by decide
    simp [separated, hall _ hcases]

end Interop.Csharp

namespace Interop.Binding

open Csharp

variable {spelling : String}

theorem dropEndWhile_suffix {s : String} (hs : s.toList = body ++ letters) (hbody : ∀ c ∈ body, p c = false)
    (hletters : ∀ c ∈ letters, p c = true) : Text.dropEndWhile p s = String.ofList body := by
  have hreverse : (letters.reverse ++ body.reverse).dropWhile p = body.reverse := by
    rw [List.dropWhile_append_of_pos (by simpa using hletters)]
    cases hrev : body.reverse with
    | nil => rfl
    | cons c rest =>
      have hc : c ∈ body := by
        rw [← List.mem_reverse, hrev]
        simp
      simp [hbody c hc]
  simp [Text.dropEndWhile, hs, hreverse]

theorem integerDigits_toList
    (h : (spelling.toList.dropWhile fun c => !Native.isSuffixLetter c).all Native.isSuffixLetter = true) :
    (integerDigits spelling).toList =
      separated (spelling.toList.takeWhile fun c => !Native.isSuffixLetter c) := by
  have hdrop : Text.dropEndWhile Native.isSuffixLetter spelling = _ :=
    dropEndWhile_suffix List.takeWhile_append_dropWhile.symm
      (fun c hc => by simpa using List.all_eq_true.mp List.all_takeWhile c hc)
      (fun c hc => List.all_eq_true.mp h c hc)
  have hdigits : integerDigits spelling =
      Text.replaceChar '\'' '_' (Text.dropEndWhile Native.isSuffixLetter spelling) := rfl
  rw [hdigits, hdrop, Text.replaceChar]
  simp [separated]

/-! ## The value of the C# spelling -/

theorem octal_of_digitsFrom (h : digitsFrom 8 '\'' ended value cs = some r) :
    (∀ c ∈ (separated cs).filter (· ≠ '_'), '0' ≤ c ∧ c ≤ '7') ∧
      ((separated cs).filter (· ≠ '_')).foldl (fun n c => n * 8 + (c.toNat - 48)) value = r := by
  induction cs generalizing ended value with
  | nil =>
    rw [digitsFrom] at h
    split at h <;> simp_all [separated]
  | cons c cs ih =>
    rw [digitsFrom] at h
    split at h
    · rename_i heq
      simpa [separated, heq] using ih h
    · rename_i hne
      split at h
      · rename_i d hd
        have hall : ∀ entry ∈ digitValues, entry.2 < 8 →
            entry.1 ≠ '_' ∧ ('0' ≤ entry.1 ∧ entry.1 ≤ '7') ∧ entry.2 = entry.1.toNat - 48 := by
          decide
        obtain ⟨hmem, hlt⟩ := digit_cases hd
        obtain ⟨hunderscore, hrange, hvalue⟩ := hall (c, d) hmem hlt
        dsimp only at hunderscore hrange hvalue
        have hcs : (separated (c :: cs)).filter (· ≠ '_') = c :: (separated cs).filter (· ≠ '_') := by
          simp [separated, hne, hunderscore]
        rw [hcs, List.foldl_cons, List.forall_mem_cons, ← hvalue]
        exact ⟨⟨hrange, (ih h).1⟩, (ih h).2⟩
      · cases h

theorem digitsFrom_toDigits (n : Nat) : digitsFrom 10 '_' false 0 (Nat.toDigits 10 n) = some n := by
  have hdigit : ∀ d < 10, digit? 10 d.digitChar = some d ∧ d.digitChar ≠ '_' := by decide
  induction n using Nat.strongRecOn with
  | ind n ih =>
    by_cases hn : n < 10
    · rw [Nat.toDigits_of_lt_base hn]
      simp [digitsFrom, hdigit n hn]
    · have hmod := hdigit (n % 10) (Nat.mod_lt _ (by decide))
      rw [Nat.toDigits_of_base_le (by decide) (Nat.le_of_not_lt hn),
        digitsFrom_concat (ih (n / 10) (by omega)) hmod.2 hmod.1, Nat.mul_comm, Nat.div_add_mod]

theorem magnitude_toDigits (n : Nat) : magnitude? (Nat.toDigits 10 n) = some n := by
  have hdigit : ∀ c ∈ Nat.toDigits 10 n, c.isDigit = true :=
    fun c hc => Nat.isDigit_of_mem_toDigits (by decide) (by decide) hc
  unfold magnitude?
  split
  case h_5 =>
    rw [digits?, if_neg, digitsFrom_toDigits]
    intro hhead
    have := hdigit '_' (List.mem_of_mem_head? hhead)
    cases this
  all_goals
    rename_i heq
    rw [heq] at hdigit
    have := hdigit _ (List.mem_cons_of_mem _ List.mem_cons_self)
    cases this

theorem octalValue_of_digits (h : digits? 8 '\'' cs = some r) (hr : r < 2 ^ 64) :
    octalValue? ((separated cs).filter (· ≠ '_')) = some r := by
  obtain ⟨hrange, hvalue⟩ := octal_of_digitsFrom (digits_cases h).1
  have hall : ((separated cs).filter (· ≠ '_')).all (fun c => '0' ≤ c && c ≤ '7') = true := by
    rw [List.all_eq_true]
    intro c hc
    simpa using hrange c hc
  rw [octalValue?, if_pos hall]
  simp only [hvalue]
  rw [if_pos (show r < UInt64.size from hr)]

theorem nativeInteger_cases {spelling : List Char} (h : Native.integer? spelling = some value) :
    (spelling.dropWhile fun c => !Native.isSuffixLetter c).all Native.isSuffixLetter = true ∧
      Native.magnitude? (spelling.takeWhile fun c => !Native.isSuffixLetter c) = some value ∧
      value < 2 ^ 64 := by
  simp only [Native.integer?, Option.ite_none_right_eq_some, Option.bind_eq_bind,
    Option.bind_eq_some_iff, Option.pure_def, Option.some.injEq] at h
  obtain ⟨hletters, v, hv, hlt, rfl⟩ := h
  exact ⟨hletters, hv, hlt⟩

theorem separated_cons_eq_zero (h : separated (c :: cs) = '0' :: rest) : c = '0' ∧ separated cs = rest := by
  simp only [separated, List.map_cons, List.cons.injEq] at h
  refine ⟨?_, h.2⟩
  by_cases hc : c = '\''
  · simp [hc] at h
  · simpa [hc] using h.1

/-- A separator is not a zero, so no mark of another base comes up by separating. -/
theorem separated_ne_zero_cons (h : ∀ c rest, body ≠ '0' :: c :: rest) (c : Char) (rest : List Char) :
    separated body ≠ '0' :: c :: rest := by
  intro heq
  cases body with
  | nil => cases heq
  | cons c₀ body =>
    obtain ⟨rfl, heq⟩ := separated_cons_eq_zero heq
    cases body with
    | nil => cases heq
    | cons c₁ body => exact h c₁ body rfl

theorem magnitude_separated (h : ∀ c rest, body ≠ '0' :: c :: rest)
    (hdigits : digits? 10 '\'' body = some r) : Csharp.magnitude? (separated body) = some r := by
  unfold magnitude?
  split
  case h_5 => exact digits_separated hdigits
  all_goals
    rename_i heq
    exact absurd heq (separated_ne_zero_cons h _ _)

theorem integerBody_octal (hdigits : (integerDigits spelling).toList = separated ('0' :: c :: cs))
    (hmark : c ∉ ['x', 'X', 'b', 'B']) :
    integerBody? spelling = (octalValue? ((separated ('0' :: c :: cs)).filter (· ≠ '_'))).map Nat.repr := by
  have hsep : separated ('0' :: c :: cs) = '0' :: (if c = '\'' then '_' else c) :: separated cs := rfl
  have hmark : hasRadixMark ('0' :: (if c = '\'' then '_' else c) :: separated cs) = false := by
    by_cases hc : c = '\''
    · rw [if_pos hc]
      rfl
    · rw [if_neg hc]
      simpa [hasRadixMark, and_assoc] using hmark
  rw [hsep] at hdigits ⊢
  simp [integerBody?, hdigits, hmark]

theorem integerBody_cases (hdigits : (integerDigits spelling).toList = separated body)
    (h : Native.magnitude? body = some value) (hlt : value < 2 ^ 64) :
    ∃ text, integerBody? spelling = some text ∧ Csharp.magnitude? text.toList = some value := by
  unfold Native.magnitude? at h
  split at h
  case h_5 c ds hx hX hb hB =>
    -- C# has no octal form: the value is written out in decimal digits.
    refine ⟨value.repr, ?_, by rw [Nat.toList_repr, magnitude_toDigits]⟩
    rw [integerBody_octal hdigits (by simpa using ⟨hx, hX, hb, hB⟩), octalValue_of_digits h hlt]
    rfl
  case h_6 hx hX hb hB hoctal =>
    have hdecimal := separated_ne_zero_cons hoctal
    refine ⟨integerDigits spelling, ?_, ?_⟩
    · simp only [integerBody?, hdigits]
    · rw [hdigits]
      exact magnitude_separated hoctal h
  -- Hexadecimal and binary digits keep their base; only the separators differ.
  all_goals
    refine ⟨integerDigits spelling, ?_, ?_⟩
    · simp [integerBody?, hdigits, separated, hasRadixMark]
    · rw [hdigits]
      exact digits_separated h

/-- **Integers keep their values.** -/
theorem integer_of_nativeInteger (h : Native.integer? spelling.toList = some value) :
    ∃ body, integerBody? spelling = some body ∧ ∀ type,
      Csharp.integer? (body ++ integerSuffix type).toList = some (value, Suffix.ofType type) := by
  obtain ⟨hletters, hmagnitude, hlt⟩ := nativeInteger_cases h
  have hdigits := integerDigits_toList hletters
  obtain ⟨body, hbody, hreads⟩ := integerBody_cases hdigits hmagnitude hlt
  refine ⟨body, hbody, fun type => ?_⟩
  have hsuffix : integerSuffixes.lookup (integerSuffix type).toList = some (Suffix.ofType type) := by
    unfold integerSuffix Suffix.ofType
    split
    · rfl
    split
    · rfl
    split
    · rfl
    · rfl
  rw [String.toList_append]
  exact integer_append hreads hlt hsuffix

/-! ## Written numbers -/

theorem integer_repr (h : n < 2 ^ 64) : Csharp.integer? n.repr.toList = some (n, .none) := by
  rw [Nat.toList_repr, ← List.append_nil (Nat.toDigits 10 n)]
  exact integer_append (magnitude_toDigits n) h rfl

theorem digit_hexDigit (h : d < 16) :
    digit? 16 (Text.hexDigit true d) = some d ∧ Text.hexDigit true d ≠ '_' := by
  have hall : ∀ d < 16,
      digit? 16 (Text.hexDigit true d) = some d ∧ Text.hexDigit true d ≠ '_' := by
    decide
  exact hall d h

theorem ne_separator_of_mem_hexDigitsOf : ∀ c ∈ Text.hexDigitsOf true fuel n, c ≠ '_' := by
  induction fuel generalizing n with
  | zero => simp [Text.hexDigitsOf]
  | succ fuel ih =>
    rw [Text.hexDigitsOf]
    split
    · simp
    · intro c hc
      rcases List.mem_append.mp hc with hc | hc
      · exact ih c hc
      · obtain rfl := List.mem_singleton.mp hc
        exact (digit_hexDigit (Nat.mod_lt _ (by decide))).2

theorem digitsFrom_hexDigitsOf (hpos : 0 < n) (hfuel : n ≤ fuel) :
    digitsFrom 16 '_' false 0 (Text.hexDigitsOf true fuel n) = some n := by
  induction fuel generalizing n with
  | zero => omega
  | succ fuel ih =>
    have hlast : digit? 16 (Text.hexDigit true (n % 16)) = some (n % 16) ∧ _ :=
      digit_hexDigit (Nat.mod_lt _ (by decide))
    rw [Text.hexDigitsOf, if_neg (by omega)]
    by_cases hn : n < 16
    · have hfront : Text.hexDigitsOf true fuel (n / 16) = [] := by
        rw [Nat.div_eq_of_lt hn]
        cases fuel <;> rfl
      rw [Nat.mod_eq_of_lt hn] at hlast
      simp [hfront, Nat.mod_eq_of_lt hn, digitsFrom, hlast]
    · rw [digitsFrom_concat (ih (by omega) (by omega)) hlast.2 hlast.1]
      congr 1
      omega

theorem integer_hex {letters : String} (hpos : 0 < n) (hlt : n < 2 ^ 64)
    (hsuffix : integerSuffixes.lookup letters.toList = some suffix) :
    Csharp.integer? ("0x" ++ Text.hex true 1 n ++ letters).toList = some (n, suffix) := by
  have hdigits := digitsFrom_hexDigitsOf hpos (Nat.le_refl n)
  have hsome : 0 < (Text.hexDigitsOf true n n).length := by
    rw [List.length_pos_iff]
    intro hnil
    rw [hnil] at hdigits
    cases hdigits
  have hpad : Text.hex true 1 n = String.ofList (Text.hexDigitsOf true n n) := by
    unfold Text.hex
    simp [show 1 - (Text.hexDigitsOf true n n).length = 0 by omega]
  have hlist : ("0x" ++ Text.hex true 1 n).toList = '0' :: 'x' :: Text.hexDigitsOf true n n := by
    simp [hpad]
  rw [String.toList_append, hlist]
  refine integer_append ?_ hlt hsuffix
  rw [magnitude?, digits?, if_neg]
  · exact hdigits
  · -- No digit is a separator.
    intro hhead
    exact ne_separator_of_mem_hexDigitsOf '_' (List.mem_of_mem_head? hhead) rfl

end Interop.Binding
