import Interop.Proofs.Emission
import Interop.Proofs.Identifiers
import Interop.Proofs.TextLines

/-!
# Quoted texts and characters

`Csharp.string?` and `Csharp.character?` read what stands between quotes: characters as they are, simple
escapes and hexadecimal ones. A character outside the first plane is two units there. Texts read back
unless a character of theirs ends a line and is not escaped (`string_literal_reads_back_iff`), and
characters unless they are outside the first plane (`character_literal_keeps_code_iff`).
-/

namespace Interop.Csharp

/-! ## Reading -/

/-- The characters that end a line. -/
def lineTerminators : List Char :=
  ['\n', '\r', '\u0085', '\u2028', '\u2029']

def simpleEscapes : List (Char × Nat) :=
  [('\'', 0x27), ('"', 0x22), ('\\', 0x5C), ('0', 0), ('a', 7), ('b', 8), ('f', 0x0C), ('n', 0x0A),
   ('r', 0x0D), ('t', 9), ('v', 0x0B)]

/-- The units of a character: outside the first plane there are two. -/
def units (c : Char) : List Nat :=
  if c.toNat < 0x10000 then [c.toNat]
  else [0xD800 + (c.toNat - 0x10000) / 0x400, 0xDC00 + (c.toNat - 0x10000) % 0x400]

def unit? (a b c d : Char) : Option Nat := do
  return (((← digit? 16 a) * 16 + (← digit? 16 b)) * 16 + (← digit? 16 c)) * 16 + (← digit? 16 d)

/-- The units of what stands between two quotes. -/
def contents? (quote : Char) : List Char → Option (List Nat)
  | [] => some []
  | '\\' :: 'u' :: a :: b :: c :: d :: rest => do return (← unit? a b c d) :: (← contents? quote rest)
  | '\\' :: c :: rest => do return (← simpleEscapes.lookup c) :: (← contents? quote rest)
  | c :: rest =>
    if c = quote || c = '\\' || lineTerminators.contains c then none
    else do return units c ++ (← contents? quote rest)

def quoted? (quote : Char) : List Char → Option (List Nat)
  | [] => none
  | first :: rest =>
    if first = quote && rest.getLast? = some quote then contents? quote rest.dropLast else none

def string? (lexeme : List Char) : Option (List Nat) :=
  quoted? '"' lexeme

/-- A character is a single unit. -/
def character? (lexeme : List Char) : Option Nat := do
  match ← quoted? '\'' lexeme with
  | [unit] => some unit
  | _ => none

end Interop.Csharp

namespace Interop.Managed

open Csharp (contents? digit? units unit?)
open Binding (digit_hexDigit)

variable {c : Char}

theorem quoted_of_contents (body : List Char) :
    Csharp.quoted? quote (quote :: (body ++ [quote])) = contents? quote body := by
  simp [Csharp.quoted?]

/-! ## Hexadecimal escapes -/

def hexPadded (width fuel n : Nat) : List Char :=
  List.replicate (width - (Text.hexDigitsOf true fuel n).length) '0' ++ Text.hexDigitsOf true fuel n

theorem hexPadded_succ (h : n ≤ fuel) :
    hexPadded (width + 1) fuel n = hexPadded width (fuel - 1) (n / 16) ++ [Text.hexDigit true (n % 16)] := by
  cases fuel with
  | zero =>
    obtain rfl : n = 0 := by omega
    simp [hexPadded, Text.hexDigitsOf, List.replicate_succ', Text.hexDigit]
  | succ fuel =>
    by_cases hn : n = 0
    · subst hn
      cases fuel <;> simp [hexPadded, Text.hexDigitsOf, List.replicate_succ', Text.hexDigit]
    · simp [hexPadded, Text.hexDigitsOf, hn]

theorem unit_hex (h : n < 0x10000) :
    ∃ a b c d, (Text.hex true 4 n).toList = [a, b, c, d] ∧ unit? a b c d = some n ∧ '\n' ∉ [a, b, c, d] := by
  have hpadded : (Text.hex true 4 n).toList = hexPadded 4 n n := by
    simp [Text.hex, hexPadded]
  have hdigits : hexPadded 0 (n - 1 - 1 - 1 - 1) (n / 16 / 16 / 16 / 16) = [] := by
    rw [show n / 16 / 16 / 16 / 16 = 0 by omega]
    cases n - 1 - 1 - 1 - 1 <;> rfl
  rw [hpadded, hexPadded_succ (Nat.le_refl n), hexPadded_succ (by omega), hexPadded_succ (by omega),
    hexPadded_succ (by omega), hdigits]
  have hdigit : ∀ m, digit? 16 (Text.hexDigit true (m % 16)) = some (m % 16) :=
    fun m => (digit_hexDigit (Nat.mod_lt m (by decide))).1
  refine ⟨_, _, _, _, rfl, ?_, fun hmem => ?_⟩
  · simp only [unit?, hdigit, Option.pure_def, Option.bind_eq_bind, Option.bind_some, Option.some.injEq]
    omega
  · simp only [List.mem_cons, List.not_mem_nil, or_false] at hmem
    rcases hmem with h | h | h | h <;> cases h ▸ hdigit _

theorem contents_hex (h : n < 0x10000) :
    contents? quote ('\\' :: 'u' :: (Text.hex true 4 n).toList ++ rest) =
      (contents? quote rest).map (n :: ·) := by
  obtain ⟨a, b, c, d, hhex, hunit, -⟩ := unit_hex h
  simp only [hhex, List.cons_append, List.nil_append, contents?, hunit]
  cases contents? quote rest <;> rfl

theorem contents_escape (hc : c ≠ 'u') (h : Csharp.simpleEscapes.lookup c = some n) :
    contents? quote ('\\' :: c :: rest) = (contents? quote rest).map (n :: ·) := by
  rw [contents?]
  · rw [h]
    cases contents? quote rest <;> rfl
  · simp [hc]

theorem contents_plain (hc : c ≠ '\\') :
    contents? quote (c :: rest) =
      if c = quote || Csharp.lineTerminators.contains c then none
      else (contents? quote rest).map (units c ++ ·) := by
  rw [contents?]
  · simp only [hc, decide_false, Bool.or_false]
    split
    · rfl
    · cases contents? quote rest <;> rfl
  · simp [hc]
  · simp [hc]

/-! ## Texts -/

/-- A character that ends a line and is written as it is. -/
def isBareBreak (c : Char) : Bool :=
  ['\u0085', '\u2028', '\u2029'].contains c

theorem contents_stringLiteralChar (c : Char) (rest : List Char) :
    contents? '"' (stringLiteralChar c ++ rest) =
      if isBareBreak c then none else (contents? '"' rest).map (units c ++ ·) := by
  by_cases hnamed : c ∈ ['"', '\\', '\n', '\r', '\t', '\x00']
  · simp only [List.mem_cons, List.not_mem_nil, or_false] at hnamed
    rcases hnamed with rfl | rfl | rfl | rfl | rfl | rfl <;> exact contents_escape (by decide) rfl
  · simp only [List.mem_cons, List.not_mem_nil, or_false, not_or] at hnamed
    obtain ⟨hquote, hbackslash, hline, hreturn, htab, hnull⟩ := hnamed
    simp only [stringLiteralChar, hquote, hbackslash, hline, hreturn, htab, hnull, if_false]
    by_cases hsmall : c.toNat < 0x20
    · have hbare : isBareBreak c = false := by
        simp only [isBareBreak, List.contains_eq_mem, List.mem_cons, List.not_mem_nil, or_false,
          decide_eq_false_iff_not]
        rintro (rfl | rfl | rfl) <;> revert hsmall <;> decide
      rw [if_pos hsmall, contents_hex (by omega), if_neg (by simp [hbare]), units, if_pos (by omega)]
      rfl
    · rw [if_neg hsmall, List.singleton_append, contents_plain hbackslash]
      simp [hquote, hline, hreturn, isBareBreak, Csharp.lineTerminators]

theorem contents_flatMap (cs : List Char) :
    contents? '"' (cs.flatMap stringLiteralChar) =
      if cs.any isBareBreak then none else some (cs.flatMap units) := by
  induction cs with
  | nil => rfl
  | cons c cs ih =>
    rw [List.flatMap_cons, contents_stringLiteralChar, ih, List.any_cons]
    cases isBareBreak c <;> cases cs.any isBareBreak <;> rfl

theorem stringLiteral_toList (s : String) :
    (stringLiteral s).toList = '"' :: (s.toList.flatMap stringLiteralChar ++ ['"']) := by
  simp [stringLiteral]

theorem not_mem_stringLiteralChar (c : Char) : '\n' ∉ stringLiteralChar c := by
  have hhex (hsmall : c.toNat < 0x20) : '\n' ∉ (Text.hex true 4 c.toNat).toList := by
    obtain ⟨_, _, _, _, hhex, -, hbreak⟩ := unit_hex (Nat.lt_trans hsmall (by decide))
    rwa [hhex]
  unfold stringLiteralChar
  repeat' split
  all_goals simp_all [eq_comm]

/-- **A text reads back unless it has a break that is not escaped**: then what is written is no literal. It
never starts another line of the file. -/
theorem string_literal_reads_back_iff (s : String) :
    (Csharp.string? (stringLiteral s).toList = some (s.toList.flatMap units) ↔
      ∀ c ∈ s.toList, isBareBreak c = false) ∧ Code.ofText (stringLiteral s) = [stringLiteral s] := by
  constructor
  · rw [Csharp.string?, stringLiteral_toList, quoted_of_contents, contents_flatMap]
    simp
  · apply ofText_of_not_mem
    simp [stringLiteral_toList, not_mem_stringLiteralChar]

theorem lineSeparator_not_read :
    Csharp.string? (stringLiteral "a\u2028b").toList = none ∧
      Csharp.string? (stringLiteral "a\u2028b").toList ≠ some ("a\u2028b".toList.flatMap units) := by
  decide

/-! ## Characters -/

theorem contents_charLiteralBody (value : Nat) :
    contents? '\'' (charLiteralBody value).toList = some [value % 0x10000] := by
  by_cases hnamed : value ∈ [0x27, 0x5C, 0x0A, 0x0D, 0x09, 0]
  · simp only [List.mem_cons, List.not_mem_nil, or_false] at hnamed
    rcases hnamed with rfl | rfl | rfl | rfl | rfl | rfl <;> rfl
  · simp only [List.mem_cons, List.not_mem_nil, or_false, not_or] at hnamed
    obtain ⟨hquote, hbackslash, hline, hreturn, htab, hnull⟩ := hnamed
    simp only [charLiteralBody, hquote, hbackslash, hline, hreturn, htab, hnull, if_false]
    split
    · rename_i hplain
      simp only [Bool.and_eq_true, decide_eq_true_eq] at hplain
      have hall : ∀ v < 0x7F, 0x20 ≤ v ∧ v ≠ 0x27 ∧ v ≠ 0x5C →
          contents? '\'' [Char.ofNat v] = some [v] := by
        decide
      rw [String.toList_singleton, hall value hplain.2 ⟨hplain.1, hquote, hbackslash⟩,
        Nat.mod_eq_of_lt (by omega)]
    · have hhex : contents? '\'' ('\\' :: 'u' :: (Text.hex true 4 (value % 0x10000)).toList ++ []) = _ :=
        contents_hex (Nat.mod_lt value (by decide))
      simpa [contents?] using hhex

theorem character_charLiteral (value : UInt32) :
    Csharp.character? (charLiteral value).toList = some (value.toNat % 0x10000) := by
  have hlist : (charLiteral value).toList = '\'' :: ((charLiteralBody value.toNat).toList ++ ['\'']) := by
    simp [charLiteral]
  rw [Csharp.character?, hlist, quoted_of_contents, contents_charLiteralBody]
  rfl

end Interop.Managed

namespace Interop.Binding

open Native (ExprId)
open Emit

/-- **A character keeps its code exactly inside the first plane.** What is emitted, with or without a cast
around it, has the low half of the code. -/
theorem character_literal_keeps_code_iff {env : Env} {scope : Scope} {id : ExprId} {e : Native.Expr}
    {value : UInt32} {out : Managed.Expr} (he : env.ast.expr? id = some e)
    (hkind : e.kind = .character value) (h : (emitValue id).Gives env scope out) :
    ∃ text, (out = .literal text ∨ ∃ type, out = .castTo type (.literal text)) ∧
      Csharp.character? text.toList = some (value.toNat % 0x10000) ∧
      (Csharp.character? text.toList = some value.toNat ↔ value.toNat < 0x10000) := by
  have hread := Managed.character_charLiteral value
  refine ⟨Managed.charLiteral value, ?_, hread, ?_⟩
  · obtain ⟨e', he', h⟩ := gives_bind.mp (gives_emitValue.mp h)
    obtain rfl := Option.mem_unique (gives_exprOf.mp he') he
    rw [hkind] at h
    obtain ⟨mapped, -, h⟩ := gives_bind.mp h
    split at h
    · exact .inl (gives_pure.mp h).symm
    · exact .inr ⟨mapped.type, (gives_pure.mp h).symm⟩
  · rw [hread, Option.some.injEq]
    omega

/-- The characters `(unsigned char)'\xE9'` and `U'\U0001F600'`. -/
def wideCharacters : Env where
  ast :=
    { file := "wide.h"
      exprs := #[{ kind := .character 0xE9, type := ⟨0⟩ }, { kind := .character 0x1F600, type := ⟨1⟩ }]
      types := #[.ofBuiltin .uChar, .ofBuiltin .char32] }
  settings := {}
  symbols := ⟨#[], [], [], [], [], [], []⟩

theorem accented_keeps_code :
    (emitValue ⟨0⟩).Gives wideCharacters {} (.castTo (.named "byte") (.literal "'\\u00E9'")) ∧
      ∃ text, (Managed.Expr.castTo (.named "byte") (.literal "'\\u00E9'") = .literal text ∨
          ∃ type, Managed.Expr.castTo (.named "byte") (.literal "'\\u00E9'") = .castTo type (.literal text)) ∧
        Csharp.character? text.toList = some 0xE9 ∧
        (Csharp.character? text.toList = some 0xE9 ↔ 0xE9 < 0x10000) :=
  have h : (emitValue ⟨0⟩).Gives wideCharacters {} (.castTo (.named "byte") (.literal "'\\u00E9'")) :=
    gives_of_run (c := {}) rfl
  ⟨h, @character_literal_keeps_code_iff _ _ _ _ 0xE9 _ rfl rfl h⟩

/-- The code is cut to its low half. -/
theorem emoji_loses_code :
    (emitValue ⟨1⟩).Gives wideCharacters {} (.literal "'\\uF600'") ∧
      Csharp.character? "'\\uF600'".toList = some 0xF600 :=
  ⟨gives_of_run (c := {}) rfl, by decide⟩

end Interop.Binding
