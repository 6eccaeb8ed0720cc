import Interop.Json.Printer
import Interop.Json.Reader
import Mathlib.Data.List.Forall2

/-!
# Printed documents

A document that is printed over several lines is read back as it was. `Spells` says which tokens a piece
of text stands for, whatever comes after it; only a number does not end on its own, which is why `Ends`
restricts what may come next. Numbers that are no integers of 64 bits and halves of surrogate pairs are
left out (`IsPlain`).
-/

namespace Interop.Json

variable {c : Char} {v : Json} {n : Nat}

/-- All integers have 64 bits, there are no other numbers, and all texts have characters. -/
inductive IsPlain : Json → Prop
  | null : IsPlain .null
  | bool (b : Bool) : IsPlain (.bool b)
  | int {n : Int} (low : Int64.minValue.toInt ≤ n) (high : n < UInt64.size) : IsPlain (.int n)
  | text (s : String) : IsPlain (.text (some s))
  | arr {items : List Json} (each : ∀ v ∈ items, IsPlain v) : IsPlain (.arr items)
  | obj {fields : List (Option String × Json)} (names : ∀ f ∈ fields, ∃ s, f.1 = some s)
      (each : ∀ f ∈ fields, IsPlain f.2) : IsPlain (.obj fields)

/-! ## The tokens of a document -/

mutual

def tokensOf : Json → List Token
  | .null => [.null]
  | .bool b => [.bool b]
  | .int n => [.int n]
  | .real lexeme => [.real lexeme]
  | .text content => [.text content]
  | .arr items => .beginArray :: [Token.comma].intercalate (itemTokens items) ++ [.endArray]
  | .obj fields => .beginObject :: [Token.comma].intercalate (fieldTokens fields) ++ [.endObject]

def itemTokens : List Json → List (List Token)
  | [] => []
  | v :: rest => tokensOf v :: itemTokens rest

def fieldTokens : List (Option String × Json) → List (List Token)
  | [] => []
  | (key, v) :: rest => (.text key :: .colon :: tokensOf v) :: fieldTokens rest

end

/-! ## From tokens to the document -/

def RunsTo (v : Json) : Prop :=
  ∀ stack opened more,
    State.run ⟨stack, .value opened⟩ (tokensOf v ++ more) = State.run ⟨stack, .next v⟩ more

theorem run_items (stack : List Frame) (done : List Json) (opened : Bool)
    (each : ∀ w ∈ v :: rest, RunsTo w) :
    State.run ⟨.items done :: stack, .value opened⟩
        ([Token.comma].intercalate (itemTokens (v :: rest)) ++ .endArray :: more) =
      State.run ⟨stack, .next (.arr (done.reverse ++ v :: rest))⟩ more := by
  induction rest generalizing v done opened with
  | nil =>
    rw [itemTokens, itemTokens, List.intercalate_singleton, each v (.head _)]
    simp [State.run, State.step, State.stepNext]
  | cons w rest ih =>
    -- The comma adds the item to those that are done.
    have hstep : ∀ tokens, State.run ⟨.items done :: stack, .next v⟩ (.comma :: tokens) =
        State.run ⟨.items (v :: done) :: stack, .value false⟩ tokens := fun _ => rfl
    rw [itemTokens, itemTokens, List.intercalate_cons_cons, List.append_assoc, List.append_assoc,
      each v (.head _), List.singleton_append, hstep]
    have hrest := ih (v :: done) false fun u hu => each u (.tail _ hu)
    rw [itemTokens] at hrest
    rw [hrest, List.reverse_cons, List.append_assoc, List.singleton_append]

theorem run_fields (stack : List Frame) (done : List (Option String × Json)) (opened : Bool)
    (each : ∀ f ∈ (key, v) :: rest, RunsTo f.2) :
    State.run ⟨.fields done :: stack, .key opened⟩
        ([Token.comma].intercalate (fieldTokens ((key, v) :: rest)) ++ .endObject :: more) =
      State.run ⟨stack, .next (.obj (done.reverse ++ (key, v) :: rest))⟩ more := by
  have hname : ∀ tokens, State.run ⟨.fields done :: stack, .key opened⟩ (.text key :: .colon :: tokens) =
      State.run ⟨.entry done key :: stack, .value false⟩ tokens := fun _ => rfl
  induction rest generalizing key v done opened with
  | nil =>
    rw [fieldTokens, fieldTokens, List.intercalate_singleton, List.cons_append, List.cons_append, hname,
      each (key, v) (.head _)]
    simp [State.run, State.step, State.stepNext]
  | cons field rest ih =>
    obtain ⟨key', w⟩ := field
    have hstep : ∀ tokens, State.run ⟨.entry done key :: stack, .next v⟩ (.comma :: tokens) =
        State.run ⟨.fields ((key, v) :: done) :: stack, .key false⟩ tokens := fun _ => rfl
    rw [fieldTokens, fieldTokens, List.intercalate_cons_cons, List.append_assoc, List.append_assoc,
      List.cons_append, List.cons_append, hname, each (key, v) (.head _), List.singleton_append, hstep]
    have hrest := ih ((key, v) :: done) false (fun f hf => each f (.tail _ hf)) (fun _ => rfl)
    rw [fieldTokens] at hrest
    rw [hrest, List.reverse_cons, List.append_assoc, List.singleton_append]

theorem IsPlain.runsTo (h : IsPlain v) : RunsTo v := by
  induction h with
  | null | bool _ | int _ _ | text _ => exact fun _ _ _ => rfl
  | @arr items _ ih =>
    intro stack opened more
    cases items with
    | nil => rfl
    | cons v rest =>
      rw [tokensOf, List.append_assoc, List.cons_append, List.singleton_append]
      exact run_items stack [] true ih
  | @obj fields _ _ ih =>
    intro stack opened more
    cases fields with
    | nil => rfl
    | cons field rest =>
      rw [tokensOf, List.append_assoc, List.cons_append, List.singleton_append]
      exact run_fields stack [] true ih

theorem ofTokens_tokensOf (h : IsPlain v) : ofTokens (tokensOf v) = some v := by
  have hrun := h.runsTo [] false []
  rw [List.append_nil] at hrun
  rw [ofTokens, hrun]
  rfl

/-! ## From text to tokens -/

theorem lexAll_space (h : isSpace c = true) (fuel : Nat) (rest : List Char) :
    lexAll fuel (c :: rest) = lexAll fuel rest := by
  rw [lexAll.eq_def, lexAll.eq_def fuel rest]
  simp only [List.dropWhile_cons_of_pos h]

theorem lexAll_token (h : isSpace c = false) (fuel : Nat) (rest : List Char) :
    lexAll (fuel + 1) (c :: rest) =
      (lexToken (c :: rest)).bind fun (token, rest) => (lexAll fuel rest).map (token :: ·) := by
  rw [lexAll.eq_def]
  simp only [List.dropWhile_cons_of_neg (by simp [h] : ¬ isSpace c = true)]
  cases lexToken (c :: rest) with
  | none => rfl
  | some pair => cases h : lexAll fuel pair.2 <;> simp [h]

theorem lexAll_mono {tokens : List Token} (hle : fuel ≤ fuel') (h : lexAll fuel cs = some tokens) :
    lexAll fuel' cs = some tokens := by
  induction fuel generalizing fuel' cs tokens with
  | zero =>
    -- Without fuel there can be only blanks.
    rw [lexAll.eq_def] at h ⊢
    cases hcs : cs.dropWhile isSpace with
    | nil => simpa [hcs] using h
    | cons c rest => simp [hcs] at h
  | succ fuel ih =>
    obtain ⟨fuel', rfl⟩ : ∃ n, fuel' = n + 1 := ⟨fuel' - 1, by omega⟩
    rw [lexAll.eq_def] at h ⊢
    cases hcs : cs.dropWhile isSpace with
    | nil => simpa [hcs] using h
    | cons c rest =>
      simp only [hcs, bind, Option.bind_eq_some_iff] at h ⊢
      obtain ⟨⟨token, rest'⟩, htoken, more, hmore, h⟩ := h
      exact ⟨_, htoken, more, ih (by omega) hmore, h⟩

/-- A number does not go on into the characters. -/
def Ends (cs : List Char) : Prop :=
  ∀ c ∈ cs.head?, c.isDigit = false ∧ c ≠ '.' ∧ c ≠ 'e' ∧ c ≠ 'E'

def IsSymbol (c : Char) (t : Token) : Prop :=
  isSpace c = false ∧ ∀ rest, lexToken (c :: rest) = some (t, rest)

/-- **The characters stand for the tokens**, whatever comes after them. -/
def Spells (cs : List Char) (tokens : List Token) : Prop :=
  ∀ fuel rest more, Ends rest → lexAll fuel rest = some more →
    lexAll (cs.length + fuel) (cs ++ rest) = some (tokens ++ more)

namespace Spells

variable {tokens : List Token}

theorem nil : Spells [] [] := by
  intro fuel rest more _ h
  simpa using h

theorem append (h : Spells cs tokens) (h' : Spells cs' tokens') (hends : Ends cs') :
    Spells (cs ++ cs') (tokens ++ tokens') := by
  intro fuel rest more hrest hmore
  -- An empty second piece leaves the end of the first to what comes after both.
  have hends' : Ends (cs' ++ rest) := by
    cases cs' with
    | nil => exact hrest
    | cons c cs' => exact hends
  rw [List.length_append, List.append_assoc, List.append_assoc, Nat.add_assoc]
  exact h _ _ _ hends' (h' fuel rest more hrest hmore)

theorem space (hspace : isSpace c = true) (h : Spells cs tokens) : Spells (c :: cs) tokens := by
  intro fuel rest more hrest hmore
  rw [List.cons_append, lexAll_space hspace]
  exact lexAll_mono (by simp) (h fuel rest more hrest hmore)

theorem symbol (hsymbol : IsSymbol c t) (h : Spells cs tokens) : Spells (c :: cs) (t :: tokens) := by
  intro fuel rest more hrest hmore
  have hfuel : (c :: cs).length + fuel = cs.length + fuel + 1 := by
    rw [List.length_cons]
    omega
  rw [hfuel, List.cons_append, lexAll_token hsymbol.1, hsymbol.2]
  simp [h fuel rest more hrest hmore]

theorem token (hspace : isSpace c = false)
    (h : ∀ rest, Ends rest → lexToken (c :: cs ++ rest) = some (t, rest)) : Spells (c :: cs) [t] := by
  intro fuel rest more hrest hmore
  have hfuel : (c :: cs).length + fuel = cs.length + fuel + 1 := by simp; omega
  have hlex := h rest hrest
  rw [List.cons_append] at hlex
  rw [hfuel, List.cons_append, lexAll_token hspace, hlex]
  simp [lexAll_mono (Nat.le_add_left fuel cs.length) hmore]

end Spells

/-! ## Numbers -/

theorem digitsValue_toDigits (n : Nat) : digitsValue (Nat.toDigits 10 n) = n := by
  have h : Nat.ofDigitChars 10 (Nat.toDigits 10 n) 0 = n :=
    Nat.ofDigitChars_toDigits (by decide) (by decide)
  simp only [Nat.ofDigitChars, Nat.mul_comm 10] at h
  exact h

theorem head_toDigits (h : 0 < n) : (Nat.toDigits 10 n).head? ≠ some '0' := by
  induction n using Nat.strongRecOn with
  | ind n ih =>
    by_cases hn : n < 10
    · have hdigit : ∀ d < 10, 0 < d → d.digitChar ≠ '0' := by decide
      rw [Nat.toDigits_of_lt_base hn]
      simpa using hdigit n hn h
    · have hhead := ih (n / 10) (by omega) (by omega)
      rw [Nat.toDigits_of_base_le (by decide) (Nat.le_of_not_lt hn)]
      cases hcs : Nat.toDigits 10 (n / 10) with
      | nil => exact absurd hcs Nat.toDigits_ne_nil
      | cons c cs => simpa [hcs] using hhead

theorem isDigit_of_mem_toDigits : ∀ c ∈ Nat.toDigits 10 n, c.isDigit = true :=
  fun _ hc => Nat.isDigit_of_mem_toDigits (by decide) (by decide) hc

theorem lexMagnitude_toDigits (hrest : Ends rest) (negative : Bool) (n : Nat) :
    lexMagnitude negative (Nat.toDigits 10 n ++ rest) =
      some (numberToken negative (Nat.toDigits 10 n) [], rest) := by
  have hstop : rest.takeWhile Char.isDigit = [] ∧ rest.dropWhile Char.isDigit = rest := by
    cases rest with
    | nil => exact ⟨rfl, rfl⟩
    | cons c rest =>
      have hc : ¬ c.isDigit = true := by simp [(hrest c rfl).1]
      exact ⟨List.takeWhile_cons_of_neg hc, List.dropWhile_cons_of_neg hc⟩
  have hdigits : lexDigits (Nat.toDigits 10 n ++ rest) = some (Nat.toDigits 10 n, rest) := by
    simp [lexDigits, List.takeWhile_append_of_pos isDigit_of_mem_toDigits,
      List.dropWhile_append_of_pos isDigit_of_mem_toDigits, hstop, Nat.toDigits_ne_nil]
  -- The reader refuses digits behind a leading zero.
  have hlead : ¬ (1 < (Nat.toDigits 10 n).length ∧ (Nat.toDigits 10 n).head? = some '0') := by
    rintro ⟨hlong, hzero⟩
    rcases Nat.eq_zero_or_pos n with rfl | hpos
    · simp [Nat.toDigits_of_lt_base] at hlong
    · exact head_toDigits hpos hzero
  have hfraction : lexFraction rest = some ([], rest) := by
    unfold lexFraction
    split
    · exact absurd rfl (hrest '.' rfl).2.1
    · rfl
  have hexponent : lexExponent rest = some ([], rest) := by
    cases rest with
    | nil => rfl
    | cons c rest =>
      have hc := (hrest c rfl).2.2
      simp [lexExponent, hc.1, hc.2]
  simp only [lexMagnitude, hdigits, hfraction, hexponent, bind, Option.bind_some, pure]
  rw [if_neg (by simpa using hlead)]
  rfl

theorem lexToken_of_isDigit (h : c.isDigit = true) (cs : List Char) :
    lexToken (c :: cs) = lexMagnitude false (c :: cs) := by
  unfold lexToken
  split
  case h_12 => rfl
  all_goals
    rename_i heq
    injection heq with hc
    subst hc
    cases h

theorem isSpace_of_isDigit (h : c.isDigit = true) : isSpace c = false := by
  cases hspace : isSpace c with
  | false => rfl
  | true =>
    simp only [isSpace, Bool.or_eq_true, decide_eq_true_eq] at hspace
    rcases hspace with ((rfl | rfl) | rfl) | rfl <;> cases h

theorem spells_int {n : Int} (low : Int64.minValue.toInt ≤ n) (high : n < UInt64.size) :
    Spells n.repr.toList [.int n] := by
  cases n with
  | ofNat m =>
    have hdigits : (Int.ofNat m).repr.toList = Nat.toDigits 10 m := Nat.toList_repr
    rw [hdigits]
    cases hcs : Nat.toDigits 10 m with
    | nil => exact absurd hcs Nat.toDigits_ne_nil
    | cons c cs =>
      have hc : c.isDigit = true := isDigit_of_mem_toDigits c (by rw [hcs]; exact .head _)
      refine .token (isSpace_of_isDigit hc) fun rest hrest => ?_
      have hsize : ¬ UInt64.size ≤ m := Nat.not_le.mpr (Int.ofNat_lt.mp high)
      rw [List.cons_append, lexToken_of_isDigit hc, ← List.cons_append, ← hcs,
        lexMagnitude_toDigits hrest]
      simp [numberToken, digitsValue_toDigits, hsize]
  | negSucc m =>
    have hdigits : (Int.negSucc m).repr.toList = '-' :: Nat.toDigits 10 (m + 1) := by
      show ("-" ++ (m + 1).repr).toList = _
      rw [String.toList_append, Nat.toList_repr]
      rfl
    rw [hdigits]
    refine .token rfl fun rest hrest => ?_
    have hleast : Int64.minValue.toInt = -0x8000000000000000 := by decide
    have hsize : ¬ 0x8000000000000000 < m + 1 := by omega
    show lexMagnitude true (Nat.toDigits 10 (m + 1) ++ rest) = _
    rw [lexMagnitude_toDigits hrest]
    simp [numberToken, digitsValue_toDigits, hsize, Int.negSucc_eq]

/-! ## Texts -/

theorem hexUnit_hex (h : n < 0x20) :
    ∃ a b c d, (Text.hex false 4 n).toList = [a, b, c, d] ∧ hexUnit? a b c d = some n := by
  have hall : ∀ n < 0x20, (Text.hex false 4 n).toList =
        ['0', '0', Text.hexDigit false (n / 16), Text.hexDigit false (n % 16)] ∧
      hexUnit? '0' '0' (Text.hexDigit false (n / 16)) (Text.hexDigit false (n % 16)) = some n := by
    decide
  exact ⟨_, _, _, _, hall n h⟩

theorem lexPieces_short (h : shortEscape? e = some c) (cs : List Char) :
    lexPieces ('\\' :: e :: cs) = (lexPieces cs).map fun (pieces, rest) => (.char c :: pieces, rest) := by
  have he : e ≠ 'u' := by
    rintro rfl
    cases h
  rw [lexPieces.eq_4 _ _ (fun _ _ _ _ _ heq _ => he heq), h]
  cases lexPieces cs <;> rfl

theorem lexPieces_unit (h : hexUnit? a b c d = some unit) (cs : List Char) :
    lexPieces ('\\' :: 'u' :: a :: b :: c :: d :: cs) =
      (lexPieces cs).map fun (pieces, rest) => (pieceOfUnit unit :: pieces, rest) := by
  rw [lexPieces.eq_3, h]
  cases lexPieces cs <;> rfl

theorem lexPieces_plain (hquote : c ≠ '"') (hbackslash : c ≠ '\\') (h : ¬ c.toNat < 0x20) (cs : List Char) :
    lexPieces (c :: cs) = (lexPieces cs).map fun (pieces, rest) => (.char c :: pieces, rest) := by
  rw [lexPieces.eq_5 _ _ hquote (fun _ _ _ _ _ heq _ => hbackslash heq) (fun _ _ heq _ => hbackslash heq),
    if_neg (by simp [h, hbackslash])]
  cases lexPieces cs <;> rfl

theorem lexPieces_escapeChar (c : Char) (cs : List Char) :
    lexPieces (escapeChar c ++ cs) = (lexPieces cs).map fun (pieces, rest) => (.char c :: pieces, rest) := by
  unfold escapeChar
  -- The characters with an escape of one letter.
  repeat (split; · subst c; exact lexPieces_short rfl cs)
  split
  · rename_i hcontrol
    obtain ⟨a, b, d, e, hhex, hunit⟩ := hexUnit_hex hcontrol
    have hpiece : pieceOfUnit c.toNat = .char c := by
      have hbelow : ¬ 0xD800 ≤ c.toNat := by omega
      simp [pieceOfUnit, hbelow]
    rw [hhex]
    exact hpiece ▸ lexPieces_unit hunit cs
  · exact lexPieces_plain (by assumption) (by assumption) (by assumption) cs

theorem lexPieces_text (cs rest : List Char) :
    lexPieces (cs.flatMap escapeChar ++ '"' :: rest) = some (cs.map .char, rest) := by
  induction cs with
  | nil => rfl
  | cons c cs ih =>
    rw [List.flatMap_cons, List.append_assoc, lexPieces_escapeChar, ih]
    rfl

theorem joinPieces_chars (cs : List Char) : joinPieces (cs.map .char) = some cs := by
  induction cs with
  | nil => rfl
  | cons c cs ih => simp [joinPieces, ih]

theorem spells_text (s : String) : Spells (quoted (some s)).toList [.text (some s)] := by
  have hquoted : (quoted (some s)).toList = '"' :: (s.toList.flatMap escapeChar ++ ['"']) := by
    simp [quoted]
  rw [hquoted]
  refine .token rfl fun rest _ => ?_
  simp [lexToken, lexPieces_text, joinPieces_chars]

/-! ## Printed documents -/

theorem Spells.newline {tokens : List Token} (h : Spells cs tokens) (level : Nat) :
    Spells ((newline level).toList ++ cs) tokens := by
  have hblanks : ∀ n, Spells (List.replicate n ' ' ++ cs) tokens := by
    intro n
    induction n with
    | zero => exact h
    | succ n ih => exact .space rfl ih
  rw [Json.newline, String.toList_ofList]
  exact .space rfl (hblanks _)

theorem ends_newline (level : Nat) (cs : List Char) : Ends ((newline level).toList ++ cs) := by
  rw [newline, String.toList_ofList]
  rintro c ⟨⟩
  decide

theorem spells_joinWith (level : Nat) {tokens : List (List Token)}
    (h : List.Forall₂ (fun part ts => Spells part.toList ts) parts tokens) :
    Spells (Text.joinWith ("," ++ newline level) parts).toList ([Token.comma].intercalate tokens) := by
  induction h with
  | nil => exact .nil
  | @cons part ts parts tokens hpart hrest ih =>
    cases hrest with
    | nil => simpa [Text.joinWith] using hpart
    | @cons part' ts' parts tokens hpart' hrest =>
      -- A comma ends a number, so that any part can stand before it.
      have hcomma := (ih.newline level).symbol (c := ',') ⟨rfl, fun _ => rfl⟩
      have hall := hpart.append hcomma (by rintro c ⟨⟩; decide)
      simpa [Text.joinWith, List.intercalate_cons_cons] using hall

theorem spells_bracketed (level : Nat) {opening closing : String} (hopening : opening.toList = [o])
    (hfirst : IsSymbol o first) (hclosing : closing.toList = [c]) (hlast : IsSymbol c last)
    {tokens : List (List Token)} (h : List.Forall₂ (fun part ts => Spells part.toList ts) parts tokens) :
    Spells (bracketed level opening closing parts).toList
      (first :: [Token.comma].intercalate tokens ++ [last]) := by
  have hend : Spells [c] [last] := .symbol hlast .nil
  cases h with
  | nil => simpa [bracketed, hopening, hclosing] using hend.symbol hfirst
  | cons hpart hrest =>
    have hparts := spells_joinWith (level + 1) (.cons hpart hrest)
    have hbody := hparts.append (hend.newline level) (ends_newline _ _)
    have hall := (hbody.newline (level + 1)).symbol hfirst
    simpa [bracketed, hopening, hclosing] using hall

theorem spells_null : Spells "null".toList [.null] :=
  show Spells ['n', 'u', 'l', 'l'] _ from .token rfl fun _ _ => rfl

theorem spells_bool (b : Bool) : Spells (if b then "true" else "false").toList [.bool b] := by
  cases b with
  | true => exact show Spells ['t', 'r', 'u', 'e'] _ from .token rfl fun _ _ => rfl
  | false => exact show Spells ['f', 'a', 'l', 's', 'e'] _ from .token rfl fun _ _ => rfl

theorem spells_prettyItems (each : ∀ v ∈ items, Spells (prettyAt level v).toList (tokensOf v)) :
    List.Forall₂ (fun part ts => Spells part.toList ts) (prettyItems level items) (itemTokens items) := by
  induction items with
  | nil => exact .nil
  | cons v items ih =>
    rw [List.forall_mem_cons] at each
    exact .cons each.1 (ih each.2)

theorem spells_prettyFields (names : ∀ f ∈ fields, ∃ s, f.1 = some s)
    (each : ∀ f ∈ fields, Spells (prettyAt level f.2).toList (tokensOf f.2)) :
    List.Forall₂ (fun part ts => Spells part.toList ts) (prettyFields level fields) (fieldTokens fields) := by
  induction fields with
  | nil => exact .nil
  | cons field fields ih =>
    rw [List.forall_mem_cons] at names each
    obtain ⟨key, v⟩ := field
    obtain ⟨s, rfl⟩ : ∃ s, key = some s := names.1
    refine .cons ?_ (ih names.2 each.2)
    have hvalue := (each.1.space (c := ' ') rfl).symbol (c := ':') ⟨rfl, fun _ => rfl⟩
    have hfield := (spells_text s).append hvalue (by rintro c ⟨⟩; decide)
    simpa using hfield

theorem spells_prettyAt (h : IsPlain v) (level : Nat) : Spells (prettyAt level v).toList (tokensOf v) := by
  induction h generalizing level with
  | null => exact spells_null
  | bool b => exact spells_bool b
  | int low high => exact spells_int low high
  | text s => exact spells_text s
  | arr _ ih =>
    rw [prettyAt, tokensOf]
    exact spells_bracketed level rfl ⟨rfl, fun _ => rfl⟩ rfl ⟨rfl, fun _ => rfl⟩
      (spells_prettyItems fun v hv => ih v hv _)
  | obj names _ ih =>
    rw [prettyAt, tokensOf]
    exact spells_bracketed level rfl ⟨rfl, fun _ => rfl⟩ rfl ⟨rfl, fun _ => rfl⟩
      (spells_prettyFields names fun f hf => ih f hf _)

theorem tokens_pretty (h : IsPlain v) : tokens v.pretty = some (tokensOf v) := by
  have hspells := spells_prettyAt h 0 0 [] [] nofun rfl
  simpa [tokens, pretty] using hspells

/-- **A printed document is read back.** -/
theorem parse_pretty (h : IsPlain v) : parse v.pretty = some v := by
  rw [parse, tokens_pretty h]
  exact ofTokens_tokensOf h

end Interop.Json
