import Interop.Proofs.ExpressionForms

/-!
# Emitted numbers

Number literals of the tree are emitted as C# literals of the same value. For integers this is the reading
of digits (`integer_of_nativeInteger`); what is added here is which octal spellings are refused. A real
number is written with digits on both sides of its point: `filled` says what is done to its text, and
`isDecimal_filled` that this keeps the value.
-/

namespace Interop.Csharp

/-! ## Real numbers -/

/-- The exponent behind its mark and its sign. -/
inductive IsExponent (separator : Char) : List Char → Int → Prop
  | none : IsExponent separator [] 0
  | marked {mark : Char} {sign digits : List Char} {factor : Int} {n : Nat} (hmark : mark = 'e' ∨ mark = 'E')
      (hsign : (sign, factor) ∈ [([], 1), (['+'], 1), (['-'], -1)])
      (hdigits : digits? 10 separator digits = some n) :
      IsExponent separator (mark :: (sign ++ digits)) (factor * n)

/-- The digits on a side of the point. -/
def side? (separator : Char) (mayOmit : Bool) (cs : List Char) : Option Nat :=
  if mayOmit && cs.isEmpty then some 0 else digits? 10 separator cs

/-- A decimal number with a point or an exponent, and its value. -/
inductive IsDecimal (separator : Char) (mayOmit : Bool) : List Char → ℚ → Prop
  | scientific {whole tail : List Char} {w : Nat} {x : Int} (hwhole : digits? 10 separator whole = some w)
      (htail : IsExponent separator tail x) (hsome : tail ≠ []) :
      IsDecimal separator mayOmit (whole ++ tail) (w * 10 ^ x)
  | pointed {whole fraction tail : List Char} {w f : Nat} {x : Int}
      (hwhole : side? separator mayOmit whole = some w) (hfraction : side? separator mayOmit fraction = some f)
      (htail : IsExponent separator tail x) (hsome : whole ≠ [] ∨ fraction ≠ []) :
      IsDecimal separator mayOmit (whole ++ '.' :: (fraction ++ tail))
        ((w + f / 10 ^ fraction.countP (· ≠ separator)) * 10 ^ x)

/-- There are digits on both sides of a point, and a `float` has its suffix. -/
def IsReal (lexeme : List Char) (value : ℚ) (isFloat : Bool) : Prop :=
  ∃ body, lexeme = body ++ (if isFloat then ['f'] else []) ∧ IsDecimal '_' false body value

end Interop.Csharp

namespace Interop.Native

open Csharp (digits?)

/-- There may be digits on one side of the point only. -/
def IsReal (spelling : List Char) (value : ℚ) : Prop :=
  ∃ body suffix, spelling = body ++ suffix ∧ suffix ∈ [[], ['f'], ['F'], ['l'], ['L']] ∧
    Csharp.IsDecimal '\'' true body value

/-- A zero and digits that are no octal number: one is an 8 or a 9, or no integer type holds the value. -/
def IsFaultyOctal (spelling : List Char) : Prop :=
  (spelling.dropWhile fun c => !isSuffixLetter c).all isSuffixLetter = true ∧
    ∃ c digits, (spelling.takeWhile fun c => !isSuffixLetter c) = '0' :: c :: digits ∧
      (digits? 10 '\'' ('0' :: c :: digits)).isSome ∧
      ('8' ∈ c :: digits ∨ '9' ∈ c :: digits ∨
        ∃ value, digits? 8 '\'' ('0' :: c :: digits) = some value ∧ 2 ^ 64 ≤ value)

end Interop.Native

namespace Interop.Binding

open Native (ExprId)
open Csharp (digits? separated)
open Emit

variable {env : Env} {scope : Scope} {id : ExprId} {e : Native.Expr} {spelling : String}

/-! ## Integers -/

theorem octalValue_eq_none_of_mem (hc : c ∈ cs) (h : c = '8' ∨ c = '9') :
    octalValue? ((separated cs).filter (· ≠ '_')) = none := by
  have hmem : c ∈ (separated cs).filter (· ≠ '_') := by
    refine List.mem_filter.mpr ⟨List.mem_map.mpr ⟨c, hc, ?_⟩, ?_⟩ <;> rcases h with rfl | rfl <;> rfl
  rw [octalValue?, if_neg]
  intro hall
  have hrange := List.all_eq_true.mp hall c hmem
  rcases h with rfl | rfl <;> cases hrange

theorem octalValue_eq_none_of_le (h : digits? 8 '\'' cs = some value) (hle : UInt64.size ≤ value) :
    octalValue? ((separated cs).filter (· ≠ '_')) = none := by
  have hvalue := (octal_of_digitsFrom (Csharp.digits_cases h).1).2
  simp only [octalValue?, hvalue]
  split
  · exact if_neg (Nat.not_lt.mpr hle)
  · rfl

theorem integerBody_of_isFaultyOctal (h : Native.IsFaultyOctal spelling.toList) :
    integerBody? spelling = none := by
  obtain ⟨hletters, c, digits, hbody, hdecimal, hfaulty⟩ := h
  have hdigits := integerDigits_toList hletters
  rw [hbody] at hdigits
  have hmark : c ∉ ['x', 'X', 'b', 'B'] := by
    simp only [List.mem_cons, List.not_mem_nil, or_false]
    rintro (rfl | rfl | rfl | rfl) <;> cases hdecimal
  rw [integerBody_octal hdigits hmark, Option.map_eq_none_iff]
  rcases hfaulty with hmem | hmem | ⟨value, hvalue, hle⟩
  · exact octalValue_eq_none_of_mem (.tail _ hmem) (.inl rfl)
  · exact octalValue_eq_none_of_mem (.tail _ hmem) (.inr rfl)
  · exact octalValue_eq_none_of_le hvalue hle

/-- **Integer literals keep their values**, and an octal one without a value is refused. -/
theorem integer_literal_keeps_value (he : env.ast.expr? id = some e) (hkind : e.kind = .integer spelling) :
    (∀ value mapped, Native.integer? spelling.toList = some value →
      (mapType e.type .cast e.location).Gives env scope mapped →
      ∃ text, (emitValue id).Gives env scope (.literal text) ∧
        Csharp.integer? text.toList = some (value, Csharp.Suffix.ofType mapped.name)) ∧
    (Native.IsFaultyOctal spelling.toList → ∀ c, (emitValue id).run env c =
      (.error (.malformed "integer literal" e.location ("`" ++ spelling ++ "` is not a valid octal literal")),
        c)) := by
  constructor
  · intro value mapped hvalue hmapped
    obtain ⟨body, hbody, hreads⟩ := integer_of_nativeInteger hvalue
    refine ⟨_, ?_, hreads mapped.name⟩
    refine gives_emitValue.mpr (.bind (gives_exprOf.mpr he) ?_)
    simp only [hkind, integerRule, hbody]
    exact .bind hmapped .pure
  · intro hfaulty c
    have hbody := integerBody_of_isFaultyOctal hfaulty
    have hread : (exprOf id).run env c = (.ok e, c) := by
      show (found (env.ast.expr? id), c) = _
      rw [he]
      rfl
    show (valueRule _ id).run env c = _
    rw [valueRule, run_bind_ok hread]
    simp only [hkind, integerRule, hbody]
    rfl

/-- The literals `0'17uL`, `089` and `.5e-3f`. -/
def literals : Env where
  ast :=
    { file := "literals.h"
      exprs :=
        #[{ kind := .integer "0'17uL", type := ⟨0⟩ },
          { kind := .integer "089", type := ⟨0⟩ },
          { kind := .floating ".5e-3f", type := ⟨1⟩ }]
      types := #[.ofBuiltin .uLong, .ofBuiltin .float] }
  settings := {}
  symbols := ⟨#[], [], [], [], [], [], []⟩

theorem fifteen_keeps_value :
    Native.integer? "0'17uL".toList = some 15 ∧
      (∃ text, (emitValue ⟨0⟩).Gives literals {} (.literal text) ∧
        Csharp.integer? text.toList = some (15, Csharp.Suffix.ofType "ulong")) ∧
      Native.IsFaultyOctal "089".toList ∧
      ∀ c, (emitValue ⟨1⟩).run literals c =
        (.error (.malformed "integer literal" {} ("`" ++ "089" ++ "` is not a valid octal literal")), c) := by
  have hvalue : Native.integer? "0'17uL".toList = some 15 := by decide
  have hmapped : (mapType ⟨0⟩ .cast {}).Gives literals {} ⟨.named "ulong", "unsigned long", false⟩ :=
    gives_of_run (c := {}) rfl
  have hfaulty : Native.IsFaultyOctal "089".toList :=
    ⟨by decide, '8', ['9'], by decide, by decide, .inl (by decide)⟩
  have hkept := (@integer_literal_keeps_value literals {} ⟨0⟩ _ _ rfl rfl).1 15 _ hvalue hmapped
  have hrefused := (@integer_literal_keeps_value literals {} ⟨1⟩ _ _ rfl rfl).2 hfaulty
  exact ⟨hvalue, hkept, hfaulty, hrefused⟩

/-! ## Real numbers -/

theorem fillFraction_append (h : '.' ∉ cs) : fillFraction (cs ++ ds) = cs ++ fillFraction ds := by
  induction cs with
  | nil => rfl
  | cons c cs ih =>
    rw [List.mem_cons, not_or] at h
    rw [List.cons_append, fillFraction, ih h.2, List.cons_append]
    · rintro _ rfl
      exact absurd rfl h.1
    · rintro _ rfl
      exact absurd rfl h.1

/-- What is made of a number without its suffix. -/
def filled (cs : List Char) : List Char :=
  let cs := if cs.head? = some '.' then '0' :: cs else cs
  fillFraction (if cs.getLast? = some '.' then cs ++ ['0'] else cs)

theorem fillFraction_of_not_mem (h : '.' ∉ cs) : fillFraction cs = cs := by
  simpa [fillFraction] using @fillFraction_append cs [] h

theorem filled_of_not_mem (h : '.' ∉ cs) : filled cs = cs := by
  have hhead : cs.head? ≠ some '.' := fun hc => h (List.mem_of_mem_head? hc)
  have hlast : cs.getLast? ≠ some '.' := fun hc => h (List.mem_of_getLast? hc)
  simp [filled, hhead, hlast, fillFraction_of_not_mem h]

def padded (cs : List Char) : List Char :=
  if cs = [] then ['0'] else cs

theorem filled_front (hwhole : '.' ∉ whole) (hrest : '.' ∉ rest) :
    filled (whole ++ '.' :: rest) = padded whole ++ fillFraction ('.' :: padded rest) := by
  have hpadded : '.' ∉ padded whole := by
    unfold padded
    split
    · decide
    · exact hwhole
  have hfront : (if (whole ++ '.' :: rest).head? = some '.' then '0' :: (whole ++ '.' :: rest)
      else whole ++ '.' :: rest) = padded whole ++ '.' :: rest := by
    cases whole with
    | nil => simp [padded]
    | cons c whole =>
      rw [List.mem_cons, not_or] at hwhole
      simp [padded, Ne.symm hwhole.1]
  have hend : (if (padded whole ++ '.' :: rest).getLast? = some '.' then padded whole ++ '.' :: rest ++ ['0']
      else padded whole ++ '.' :: rest) = padded whole ++ '.' :: padded rest := by
    cases rest with
    | nil => simp [padded]
    | cons c rest =>
      have hlast : (padded whole ++ '.' :: c :: rest).getLast? = (c :: rest).getLast? := by
        simp [List.getLast?_append, List.getLast?_cons]
      rw [hlast, if_neg fun h => hrest (List.mem_of_getLast? h)]
      rfl
  rw [filled]
  simp only [hfront, hend]
  exact fillFraction_append hpadded

theorem filled_point (hwhole : '.' ∉ whole) (hfraction : '.' ∉ fraction) (htail : '.' ∉ tail)
    (hmark : ∀ c ∈ fraction, c ≠ 'e' ∧ c ≠ 'E') (hstart : ∀ c ∈ tail.head?, c = 'e' ∨ c = 'E') :
    filled (whole ++ '.' :: (fraction ++ tail)) = padded whole ++ '.' :: (padded fraction ++ tail) := by
  rw [filled_front hwhole (by simp [hfraction, htail])]
  congr 1
  cases fraction with
  | nil =>
    cases tail with
    | nil => rfl
    | cons c tail =>
      rw [List.mem_cons, not_or] at htail
      rcases hstart c rfl with rfl | rfl <;> simp [padded, fillFraction, fillFraction_of_not_mem htail.2]
  | cons c fraction =>
    obtain ⟨he, hE⟩ := hmark c (.head _)
    have hrest : '.' ∉ c :: fraction ++ tail := by
      rw [List.mem_append, not_or]
      exact ⟨hfraction, htail⟩
    show fillFraction ('.' :: c :: (fraction ++ tail)) = '.' :: c :: (fraction ++ tail)
    rw [fillFraction]
    · exact congrArg _ (fillFraction_of_not_mem hrest)
    · rintro _ - hc
      exact he (List.cons.inj hc).1
    · rintro _ - hc
      exact hE (List.cons.inj hc).1

theorem startsWith_point : Text.startsWith (· = '.') s = true ↔ s.toList.head? = some '.' := by
  cases h : s.toList <;> simp [Text.startsWith, h]

theorem endsWith_point : Text.endsWith (· = '.') s = true ↔ s.toList.getLast? = some '.' := by
  cases h : s.toList.getLast? <;> simp [Text.endsWith, h]

theorem floatingBody_toList (hspelling : spelling.toList = body ++ suffix)
    (hsuffix : suffix ∈ [[], ['f'], ['F'], ['l'], ['L']])
    (hbody : ∀ c ∈ separated body, c ∉ ['f', 'F', 'l', 'L']) :
    (floatingBody spelling).toList = filled (separated body) := by
  have hkept : ∀ c ∈ body, c ∉ ['f', 'F', 'l', 'L'] := by
    refine fun c hc hmem => hbody c (List.mem_map.mpr ⟨c, hc, if_neg ?_⟩) hmem
    rintro rfl
    exact absurd hmem (by decide)
  have hdrop : Text.dropEndWhile (fun c => ['f', 'F', 'l', 'L'].contains c) spelling = String.ofList body :=
    dropEndWhile_suffix hspelling (by simpa using hkept) (by
      simp only [List.mem_cons, List.not_mem_nil, or_false] at hsuffix
      rcases hsuffix with rfl | rfl | rfl | rfl | rfl <;> simp)
  have hseparated : (Text.replaceChar '\'' '_' (String.ofList body)).toList = separated body := by
    simp [Text.replaceChar, separated]
  simp only [floatingBody, hdrop, filled, startsWith_point, endsWith_point, String.toList_ofList,
    apply_ite String.toList, String.toList_append, hseparated]
  rfl

theorem marks_of_digits (h : digits? 10 '_' cs = some n) :
    '.' ∉ cs ∧ (∀ c ∈ cs, c ≠ 'e' ∧ c ≠ 'E') ∧ ∀ c ∈ cs, c ∉ ['f', 'F', 'l', 'L'] := by
  have hall : ∀ c ∈ cs, c ≠ '.' ∧ (c ≠ 'e' ∧ c ≠ 'E') ∧ c ∉ ['f', 'F', 'l', 'L'] := by
    intro c hc
    rcases Csharp.digit_of_mem_digitsFrom (Csharp.digits_cases h).1 c hc with rfl | ⟨d, hd⟩
    · decide
    · have hvalues : ∀ entry ∈ Csharp.digitValues, entry.2 < 10 →
          entry.1 ≠ '.' ∧ (entry.1 ≠ 'e' ∧ entry.1 ≠ 'E') ∧ entry.1 ∉ ['f', 'F', 'l', 'L'] := by
        decide
      obtain ⟨hmem, hlt⟩ := Csharp.digit_cases hd
      exact hvalues _ hmem hlt
  exact ⟨fun hc => (hall _ hc).1 rfl, fun c hc => (hall c hc).2.1, fun c hc => (hall c hc).2.2⟩

theorem isExponent_separated (h : Csharp.IsExponent '\'' cs x) :
    Csharp.IsExponent '_' (separated cs) x ∧ (∀ c ∈ (separated cs).head?, c = 'e' ∨ c = 'E') ∧
      '.' ∉ separated cs ∧ ∀ c ∈ separated cs, c ∉ ['f', 'F', 'l', 'L'] := by
  cases h with
  | none => exact ⟨.none, by simp [separated], by simp [separated], by simp [separated]⟩
  | @marked mark sign digits factor n hmark hsign hdigits =>
    have hread := Csharp.digits_separated hdigits
    obtain ⟨hpoint, -, hletters⟩ := marks_of_digits hread
    have hkept : separated (mark :: (sign ++ digits)) = (mark :: sign) ++ separated digits ∧
        '.' ∉ mark :: sign ∧ ∀ c ∈ mark :: sign, c ∉ ['f', 'F', 'l', 'L'] := by
      simp only [List.mem_cons, Prod.mk.injEq, List.not_mem_nil, or_false] at hsign
      rcases hmark with rfl | rfl <;> rcases hsign with ⟨rfl, -⟩ | ⟨rfl, -⟩ | ⟨rfl, -⟩ <;>
        exact ⟨rfl, by decide, by simp⟩
    rw [hkept.1, List.mem_append, not_or, List.forall_mem_append]
    exact ⟨.marked hmark hsign hread, by simpa using hmark, ⟨hkept.2.1, hpoint⟩, hkept.2.2, hletters⟩

theorem countP_separated (h : digits? 10 '\'' cs = some n) :
    (separated cs).countP (· ≠ '_') = cs.countP (· ≠ '\'') := by
  rw [separated, List.countP_map]
  refine List.countP_congr fun c hc => ?_
  rcases Csharp.digit_of_mem_digitsFrom (Csharp.digits_cases h).1 c hc with rfl | ⟨d, hd⟩
  · simp
  · have hplain : c ≠ '_' := by
      rintro rfl
      cases hd
    by_cases hc : c = '\'' <;> simp [hc, hplain]

/-- A side without digits gets a zero, which keeps its value. -/
theorem side_padded (h : Csharp.side? '\'' true cs = some w) :
    Csharp.side? '_' false (padded (separated cs)) = some w ∧
      (w / 10 ^ (padded (separated cs)).countP (· ≠ '_') : ℚ) = w / 10 ^ cs.countP (· ≠ '\'') ∧
      '.' ∉ separated cs ∧ (∀ c ∈ separated cs, c ≠ 'e' ∧ c ≠ 'E') ∧
      ∀ c ∈ separated cs, c ∉ ['f', 'F', 'l', 'L'] := by
  cases cs with
  | nil =>
    cases h
    exact ⟨rfl, by simp, by simp [separated]⟩
  | cons c cs =>
    have hdigits : digits? 10 '\'' (c :: cs) = some w := h
    have hread := Csharp.digits_separated hdigits
    refine ⟨hread, ?_, marks_of_digits hread⟩
    rw [← countP_separated hdigits]
    rfl

theorem isDecimal_filled (h : Csharp.IsDecimal '\'' true cs v) :
    Csharp.IsDecimal '_' false (filled (separated cs)) v ∧ ∀ c ∈ separated cs, c ∉ ['f', 'F', 'l', 'L'] := by
  cases h with
  | @scientific whole tail w x hwhole htail hsome =>
    have hread := Csharp.digits_separated hwhole
    obtain ⟨hpoint, -, hletters⟩ := marks_of_digits hread
    obtain ⟨hexponent, -, hpointTail, hlettersTail⟩ := isExponent_separated htail
    have hsplit : separated (whole ++ tail) = separated whole ++ separated tail := List.map_append
    rw [hsplit, List.forall_mem_append, filled_of_not_mem (by simp [hpoint, hpointTail])]
    exact ⟨.scientific hread hexponent (by simpa [separated] using hsome), hletters, hlettersTail⟩
  | @pointed whole fraction tail w f x hwhole hfraction htail hsome =>
    obtain ⟨hread, -, hpoint, -, hletters⟩ := side_padded hwhole
    obtain ⟨hreadFraction, hcount, hpointFraction, hmarks, hlettersFraction⟩ := side_padded hfraction
    obtain ⟨hexponent, hstart, hpointTail, hlettersTail⟩ := isExponent_separated htail
    have hsplit : separated (whole ++ '.' :: (fraction ++ tail)) =
        separated whole ++ '.' :: (separated fraction ++ separated tail) := by
      simp [separated]
    have hsome : padded (separated whole) ≠ [] := by
      unfold padded
      split
      · decide
      · assumption
    rw [hsplit, filled_point hpoint hpointFraction hpointTail hmarks hstart, ← hcount,
      List.forall_mem_append, List.forall_mem_cons, List.forall_mem_append]
    exact ⟨.pointed hread hreadFraction hexponent (.inl hsome), hletters, by decide, hlettersFraction,
      hlettersTail⟩

theorem isReal_floatingBody (h : Native.IsReal spelling.toList v) (isFloat : Bool) :
    Csharp.IsReal (floatingBody spelling ++ if isFloat then "f" else "").toList v isFloat := by
  obtain ⟨body, suffix, hspelling, hsuffix, hvalue⟩ := h
  obtain ⟨hread, hletters⟩ := isDecimal_filled hvalue
  refine ⟨_, ?_, hread⟩
  rw [String.toList_append, floatingBody_toList hspelling hsuffix hletters, apply_ite String.toList]
  rfl

/-- The types of real numbers that C# has. -/
def realTypeName? (type : Native.Ty) : Option String :=
  match type.kind with
  | .builtin .float => some "float"
  | .builtin .double => some "double"
  | .builtin .longDouble => if type.size = some 8 then some "double" else none
  | _ => none

theorem mapType_real (ht : env.ast.type? type = some t) (hname : realTypeName? t = some name) :
    ∃ mapped, (mapType type usage location).Gives env scope mapped ∧ mapped.name = name := by
  have hbuiltin : ∃ kind, t.kind = .builtin kind ∧
      builtinTypeName? kind (t.size.getD kind.defaultSize) = some (.named name) := by
    unfold realTypeName? at hname
    split at hname
    case h_3 hkind =>
      obtain ⟨hsize, hname⟩ := Option.ite_none_right_eq_some.mp hname
      exact ⟨_, hkind, by rw [hsize, ← Option.some.inj hname]; rfl⟩
    all_goals
      rename_i hkind
      cases hname
      try exact ⟨_, hkind, rfl⟩
  obtain ⟨kind, hkind, hmanaged⟩ := hbuiltin
  refine ⟨⟨.named name, t.spelling, kind == .nullPtr⟩, ?_, rfl⟩
  rw [gives_mapType]
  refine bind_eq_ok.mpr ⟨(.named name, kind == .nullPtr), bind_eq_ok.mpr ⟨t, found_eq_ok.mpr ht, ?_⟩, ?_⟩
  · simp only [hkind, hmanaged]
    rfl
  · refine bind_eq_ok.mpr ⟨t.spelling, found_eq_ok.mpr ?_, rfl⟩
    simp [nativeSpelling?, ht, hkind, directlyNamed]

/-- **Real numbers keep their values.** -/
theorem real_literal_keeps_value {v : ℚ} {t : Native.Ty} {name : String} (he : env.ast.expr? id = some e)
    (hkind : e.kind = .floating spelling) (hvalue : Native.IsReal spelling.toList v)
    (ht : env.ast.type? e.type = some t) (hname : realTypeName? t = some name) :
    ∃ text, (emitValue id).Gives env scope (.literal text) ∧
      Csharp.IsReal text.toList v (decide (name = "float")) := by
  obtain ⟨mapped, hmapped : (mapType e.type .cast e.location).Gives env scope mapped, rfl⟩ :=
    mapType_real ht hname
  refine ⟨_, gives_emitValue.mpr (.bind (gives_exprOf.mpr he) ?_), isReal_floatingBody hvalue _⟩
  simp only [hkind, floatingRule, gives_bind, gives_pure, decide_eq_true_eq]
  exact ⟨mapped, hmapped, rfl⟩

theorem fraction_keeps_value :
    Native.IsReal ".5e-3f".toList (1 / 2000) ∧
      ∃ text, (emitValue ⟨2⟩).Gives literals {} (.literal text) ∧
        Csharp.IsReal text.toList (1 / 2000) (decide ("float" = "float")) := by
  have hdecimal : Csharp.IsDecimal '\'' true ([] ++ '.' :: (['5'] ++ ['e', '-', '3'])) _ :=
    .pointed rfl rfl (.marked (.inl rfl) (show (['-'], -1) ∈ _ by decide) rfl) (.inr (by decide))
  have hvalue : Native.IsReal ".5e-3f".toList (1 / 2000) := by
    refine ⟨".5e-3".toList, ['f'], rfl, by decide, ?_⟩
    rw [show (1 / 2000 : ℚ) = ((0 : Nat) + (5 : Nat) / 10 ^ 1) * 10 ^ (-1 * (3 : Nat) : Int) by norm_num]
    exact hdecimal
  exact ⟨hvalue, real_literal_keeps_value rfl rfl hvalue rfl rfl⟩

end Interop.Binding
