/-!
# Tokens of JSON text

The text of a document as a list of brackets, separators and scalars.
-/

namespace Interop.Json

inductive Token where
  | beginObject
  | endObject
  | beginArray
  | endArray
  | comma
  | colon
  | null
  | bool (b : Bool)
  | int (n : Int)
  | real (lexeme : String)
  | text (content : Option String)

def isSpace (c : Char) : Bool :=
  c = ' ' || c = '\n' || c = '\t' || c = '\r'

/-! ## Texts -/

/-- A piece of a text: a character, or half of a surrogate pair that an escape spelled. -/
inductive Piece where
  | char (c : Char)
  | half (unit : Nat)

def hexValue? (c : Char) : Option Nat :=
  if '0' ≤ c && c ≤ '9' then some (c.toNat - 48)
  else if 'a' ≤ c && c ≤ 'f' then some (c.toNat - 87)
  else if 'A' ≤ c && c ≤ 'F' then some (c.toNat - 55)
  else none

def hexUnit? (a b c d : Char) : Option Nat := do
  return ((← hexValue? a) * 16 + (← hexValue? b)) * 256 + (← hexValue? c) * 16 + (← hexValue? d)

def pieceOfUnit (unit : Nat) : Piece :=
  if 0xD800 ≤ unit && unit < 0xE000 then .half unit else .char (Char.ofNat unit)

def shortEscape? (c : Char) : Option Char :=
  if c = '"' || c = '\\' || c = '/' then some c
  else if c = 'b' then some '\x08'
  else if c = 'f' then some '\x0c'
  else if c = 'n' then some '\n'
  else if c = 'r' then some '\r'
  else if c = 't' then some '\t'
  else none

def lexPieces : List Char → Option (List Piece × List Char)
  | [] => none
  | '"' :: rest => some ([], rest)
  | '\\' :: 'u' :: a :: b :: c :: d :: rest => do
    let unit ← hexUnit? a b c d
    let (pieces, rest) ← lexPieces rest
    return (pieceOfUnit unit :: pieces, rest)
  | '\\' :: e :: rest => do
    let c ← shortEscape? e
    let (pieces, rest) ← lexPieces rest
    return (.char c :: pieces, rest)
  | c :: rest =>
    if c.toNat < 0x20 || c = '\\' then none
    else do
      let (pieces, rest) ← lexPieces rest
      return (.char c :: pieces, rest)

/-- The characters of a text: each first half must be followed by a second half. -/
def joinPieces : List Piece → Option (List Char)
  | [] => some []
  | .char c :: rest => (joinPieces rest).map (c :: ·)
  | .half hi :: .half lo :: rest =>
    if hi < 0xDC00 && 0xDC00 ≤ lo then
      (joinPieces rest).map (Char.ofNat (0x10000 + (hi - 0xD800) * 1024 + (lo - 0xDC00)) :: ·)
    else none
  | .half _ :: _ => none

/-! ## Numbers -/

/-- The digits at the front, at least one, and what follows. -/
def lexDigits (cs : List Char) : Option (List Char × List Char) :=
  let digits := cs.takeWhile Char.isDigit
  if digits.isEmpty then none else some (digits, cs.dropWhile Char.isDigit)

def digitsValue (digits : List Char) : Nat :=
  digits.foldl (fun n c => n * 10 + (c.toNat - 48)) 0

def lexFraction : List Char → Option (List Char × List Char)
  | '.' :: rest => (lexDigits rest).map fun (digits, rest) => ('.' :: digits, rest)
  | cs => some ([], cs)

def lexSign : List Char → List Char × List Char
  | c :: rest => if c = '+' || c = '-' then ([c], rest) else ([], c :: rest)
  | [] => ([], [])

def lexExponent : List Char → Option (List Char × List Char)
  | c :: rest =>
    if c = 'e' || c = 'E' then
      let (sign, rest) := lexSign rest
      (lexDigits rest).map fun (digits, rest) => (c :: sign ++ digits, rest)
    else some ([], c :: rest)
  | [] => some ([], [])

/-- The token of a number: an integer if it is written as one, fits 64 bits and is no negative
zero. -/
def numberToken (negative : Bool) (digits tail : List Char) : Token :=
  let value := digitsValue digits
  let spelled := Token.real (String.ofList ((if negative then ['-'] else []) ++ digits ++ tail))
  if !tail.isEmpty then spelled
  else if negative then
    if value = 0 || 0x8000000000000000 < value then spelled else .int (-(value : Int))
  else if UInt64.size ≤ value then spelled else .int value

def lexMagnitude (negative : Bool) (cs : List Char) : Option (Token × List Char) := do
  let (digits, rest) ← lexDigits cs
  if 1 < digits.length && digits.head? = some '0' then none
  else
    let (fraction, rest) ← lexFraction rest
    let (exponent, rest) ← lexExponent rest
    return (numberToken negative digits (fraction ++ exponent), rest)

/-! ## The whole text -/

/-- The first token of a text that starts with none of the spaces. -/
def lexToken : List Char → Option (Token × List Char)
  | '{' :: rest => some (.beginObject, rest)
  | '}' :: rest => some (.endObject, rest)
  | '[' :: rest => some (.beginArray, rest)
  | ']' :: rest => some (.endArray, rest)
  | ',' :: rest => some (.comma, rest)
  | ':' :: rest => some (.colon, rest)
  | '"' :: rest => do
    let (pieces, rest) ← lexPieces rest
    return (.text ((joinPieces pieces).map String.ofList), rest)
  | 'n' :: 'u' :: 'l' :: 'l' :: rest => some (.null, rest)
  | 't' :: 'r' :: 'u' :: 'e' :: rest => some (.bool true, rest)
  | 'f' :: 'a' :: 'l' :: 's' :: 'e' :: rest => some (.bool false, rest)
  | '-' :: rest => lexMagnitude true rest
  | cs => lexMagnitude false cs

/-- All tokens of a text, one per unit of fuel at most; each token takes a character or more. -/
def lexAll : (fuel : Nat) → List Char → Option (List Token)
  | fuel, cs =>
    match fuel, cs.dropWhile isSpace with
    | _, [] => some []
    | 0, _ :: _ => none
    | fuel + 1, c :: rest => do
      let (token, rest) ← lexToken (c :: rest)
      return token :: (← lexAll fuel rest)

def tokens (s : String) : Option (List Token) :=
  let cs := s.toList
  lexAll cs.length cs

end Interop.Json
