import Mathlib
import Interop.Managed.Identifier

/-!
# Reading C#: tokens

C# text is cut into lexemes by maximal munch. The lexer is a fold that keeps the lexeme it is in, so the
tokens of two texts next to each other are those of the one and of the other exactly when the last lexeme
of the first does not go on into the second (`Lexes.append`). The symbols are all those of C#, since a
longer symbol that exists would be taken instead of two shorter ones.
-/

namespace Interop.Csharp

open Managed

/-! ## Integers -/

inductive Suffix where
  | none
  | u
  | l
  | ul
  deriving DecidableEq

def digitValues : List (Char × Nat) :=
  [('0', 0), ('1', 1), ('2', 2), ('3', 3), ('4', 4), ('5', 5), ('6', 6), ('7', 7), ('8', 8), ('9', 9),
   ('a', 10), ('b', 11), ('c', 12), ('d', 13), ('e', 14), ('f', 15), ('A', 10), ('B', 11), ('C', 12),
   ('D', 13), ('E', 14), ('F', 15)]

def digit? (base : Nat) (c : Char) : Option Nat :=
  (digitValues.lookup c).filter (· < base)

/-- The value of digits behind those of `value`; `ended` tells whether the number may end here. -/
def digitsFrom (base : Nat) (separator : Char) : (ended : Bool) → (value : Nat) → List Char → Option Nat
  | ended, value, [] => if ended then some value else none
  | _, value, c :: rest =>
    if c = separator then digitsFrom base separator false value rest
    else
      match digit? base c with
      | some d => digitsFrom base separator true (value * base + d) rest
      | none => none

def digits? (base : Nat) (separator : Char) (cs : List Char) : Option Nat :=
  if cs.head? = some separator then none else digitsFrom base separator false 0 cs

def isSuffixLetter (c : Char) : Bool :=
  c = 'u' || c = 'U' || c = 'l' || c = 'L'

def integerSuffixes : List (List Char × Suffix) :=
  [([], .none), (['u'], .u), (['U'], .u), (['l'], .l), (['L'], .l), (['u', 'l'], .ul),
   (['u', 'L'], .ul), (['U', 'l'], .ul), (['U', 'L'], .ul), (['l', 'u'], .ul), (['l', 'U'], .ul),
   (['L', 'u'], .ul), (['L', 'U'], .ul)]

def magnitude? : List Char → Option Nat
  | '0' :: 'x' :: digits => digits? 16 '_' digits
  | '0' :: 'X' :: digits => digits? 16 '_' digits
  | '0' :: 'b' :: digits => digits? 2 '_' digits
  | '0' :: 'B' :: digits => digits? 2 '_' digits
  | digits => digits? 10 '_' digits

/-- The value and the suffix of an integer. No integer type is wider than 64 bits. -/
def integer? (lexeme : List Char) : Option (Nat × Suffix) := do
  let suffix ← integerSuffixes.lookup (lexeme.dropWhile fun c => !isSuffixLetter c)
  let value ← magnitude? (lexeme.takeWhile fun c => !isSuffixLetter c)
  if value < 2 ^ 64 then return (value, suffix) else none

/-! ## Tokens -/

/-- A lexeme of C#. -/
inductive Token where
  | name (text : String)
  | keyword (text : String)
  | number (value : Nat) (suffix : Suffix)
  | symbol (text : String)
  deriving DecidableEq

/-- The symbols of C#, and the starts of comments, so that no operator is cut out of one. -/
def symbols : List String :=
  ["\x7b", "\x7d", "[", "]", "(", ")", ".", ",", ":", ";", "+", "-", "*", "/", "%", "&", "|", "^", "!", "~",
   "=", "<", ">", "?", "??", "::", "++", "--", "&&", "||", "->", "==", "!=", "<=", ">=", "+=", "-=",
   "*=", "/=", "%=", "&=", "|=", "^=", "<<", "<<=", ">>", ">>=", ">>>", ">>>=", "=>", "??=", "..",
   "?.", "?[", "//", "/*"]

def isWordChar (c : Char) : Bool :=
  c = '_' || Text.isAlphanumeric c

def startsWord (c : Char) : Bool :=
  c = '@' || isWordChar c

def followers (lexeme : List Char) : List Char :=
  symbols.filterMap fun symbol => (Text.stripLead? lexeme symbol.toList).bind List.head?

/-- The lexeme goes on with the character. -/
def continues (lexeme : List Char) (c : Char) : Bool :=
  match lexeme with
  | [] => true
  | first :: _ => if startsWord first then isWordChar c else (followers lexeme).contains c

def wordToken (text : String) : Token :=
  if keywords.contains text then .keyword text else .name text

def token? : List Char → Option (List Token)
  | [] => some []
  | first :: rest =>
    if first = ' ' then some []
    else if first.isDigit then
      (integer? (first :: rest)).map fun (value, suffix) => [.number value suffix]
    else if first = '@' then
      if rest = [] then none else some [.name (String.ofList (first :: rest))]
    else if isWordChar first then some [wordToken (String.ofList (first :: rest))]
    else
      let text := String.ofList (first :: rest)
      if symbols.contains text then some [.symbol text] else none

/-- The tokens read so far, and the lexeme that the last character belongs to. -/
structure State where
  tokens : List Token
  lexeme : List Char

def step (s : State) (c : Char) : Option State :=
  if continues s.lexeme c then some { s with lexeme := s.lexeme ++ [c] }
  else (token? s.lexeme).map fun ts => ⟨s.tokens ++ ts, [c]⟩

def lex (cs : List Char) : Option (List Token) := do
  let s ← cs.foldlM step ⟨[], [' ']⟩
  return s.tokens ++ (← token? s.lexeme)

-- A symbol of several characters is reached through shorter ones, so looking one character ahead is
-- enough to find the longest symbol.
example : symbols.all (fun s => s.length ≤ 1 || symbols.contains (String.ofList s.toList.dropLast)) := by
  decide

/-! ## Texts next to each other -/

/-- How a text is read: it starts with `first`, its last lexeme is `last`, and its tokens are `ts`. -/
def Lexes (cs : List Char) (ts : List Token) (first : Char) (last : List Char) : Prop :=
  ∃ tail before final, cs = first :: tail ∧ token? last = some final ∧ ts = before ++ final ∧
    ∀ tokens, tail.foldlM step ⟨tokens, [first]⟩ = some ⟨tokens ++ before, last⟩

theorem Lexes.append (h : Lexes cs ts first last) (h' : Lexes ds us first' last')
    (hsep : continues last first' = false) : Lexes (cs ++ ds) (ts ++ us) first last' := by
  obtain ⟨tail, before, final, rfl, hfinal, rfl, hrun⟩ := h
  obtain ⟨tail', before', final', rfl, hfinal', rfl, hrun'⟩ := h'
  refine ⟨tail ++ first' :: tail', before ++ final ++ before', final', by simp, hfinal', by simp, ?_⟩
  intro tokens
  have hstep : step ⟨tokens ++ before, last⟩ first' = some ⟨tokens ++ before ++ final, [first']⟩ := by
    simp [step, hsep, hfinal]
  rw [List.foldlM_append, hrun]
  simp [hstep, hrun']

theorem continues_blank (c : Char) : continues [' '] c = false := by
  simp [continues, show startsWord ' ' = false from rfl, show followers [' '] = [] from rfl]

theorem Lexes.lex_eq (h : Lexes cs ts first last) : lex cs = some ts := by
  obtain ⟨tail, before, final, rfl, hfinal, rfl, hrun⟩ := h
  have hstep : step ⟨[], [' ']⟩ first = some ⟨[], [first]⟩ := by
    simp [step, continues_blank, token?]
  simp [lex, hstep, hrun, hfinal]

/-! ## Single lexemes -/

def extends? (lexeme : List Char) : List Char → Bool
  | [] => true
  | c :: cs => continues lexeme c && extends? (lexeme ++ [c]) cs

theorem foldlM_step_of_extends (h : extends? lexeme cs = true) (tokens : List Token) :
    cs.foldlM step ⟨tokens, lexeme⟩ = some ⟨tokens, lexeme ++ cs⟩ := by
  induction cs generalizing lexeme with
  | nil => simp
  | cons c cs ih =>
    simp only [extends?, Bool.and_eq_true] at h
    have hstep : step ⟨tokens, lexeme⟩ c = some ⟨tokens, lexeme ++ [c]⟩ := by simp [step, h.1]
    rw [List.foldlM_cons, hstep]
    simp [ih h.2]

theorem lexes_single (h : extends? [first] tail = true) (htoken : token? (first :: tail) = some ts) :
    Lexes (first :: tail) ts first (first :: tail) := by
  refine ⟨tail, [], ts, rfl, htoken, rfl, fun tokens => ?_⟩
  rw [foldlM_step_of_extends h, List.append_nil, List.singleton_append]

theorem extends_word (hfirst : startsWord first = true) (htail : ∀ c ∈ tail, isWordChar c = true) :
    extends? (first :: lexeme) tail = true := by
  induction tail generalizing lexeme with
  | nil => rfl
  | cons c tail ih =>
    obtain ⟨hc, htail⟩ := List.forall_mem_cons.mp htail
    simp [extends?, continues, hfirst, hc, ih htail]

end Interop.Csharp
