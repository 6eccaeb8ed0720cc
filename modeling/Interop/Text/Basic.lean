/-!
# Small operations on text

Joining, splitting at a character, and replacing characters. All of them work on the list of
characters, so that their laws follow by induction on it.
-/

namespace Interop.Text

def joinWith (sep : String) : List String → String
  | [] => ""
  | [s] => s
  | s :: t :: rest => s ++ sep ++ joinWith sep (t :: rest)

/-- Splits a list of characters at every `sep`; the parts hold no `sep`, and there is always at
least one part. -/
def splitChars (sep : Char) : List Char → List (List Char)
  | [] => [[]]
  | c :: cs =>
    if c = sep then [] :: splitChars sep cs
    else
      match splitChars sep cs with
      | [] => [[c]]
      | part :: parts => (c :: part) :: parts

def split (sep : Char) (s : String) : List String :=
  (splitChars sep s.toList).map String.ofList

def replaceChar (old new : Char) (s : String) : String :=
  String.ofList (s.toList.map fun c => if c = old then new else c)

def startsWith (p : Char → Bool) (s : String) : Bool :=
  match s.toList with
  | c :: _ => p c
  | [] => false

def endsWith (p : Char → Bool) (s : String) : Bool :=
  match s.toList.getLast? with
  | some c => p c
  | none => false

/-- What follows the characters `lead` at the front of a list, if it starts with them. -/
def stripLead? : List Char → List Char → Option (List Char)
  | [], cs => some cs
  | _ :: _, [] => none
  | p :: lead, c :: cs => if p = c then stripLead? lead cs else none

def dropLead? (lead s : String) : Option String :=
  (stripLead? lead.toList s.toList).map String.ofList

def dropTail? (tail s : String) : Option String :=
  (stripLead? tail.toList.reverse s.toList.reverse).map fun cs => String.ofList cs.reverse

def replaceFirstChars (old new : List Char) : List Char → List Char
  | [] => []
  | c :: cs =>
    match stripLead? old (c :: cs) with
    | some rest => new ++ rest
    | none => c :: replaceFirstChars old new cs

def replaceFirst (old new s : String) : String :=
  String.ofList (replaceFirstChars old.toList new.toList s.toList)

/-- The digit of value `n` in a base of at most sixteen. -/
def hexDigit (upper : Bool) (n : Nat) : Char :=
  if n < 10 then Char.ofNat (48 + n) else Char.ofNat ((if upper then 55 else 87) + n)

/-- Hexadecimal digits of a number, most significant first, with no digits for zero. -/
def hexDigitsOf (upper : Bool) : (fuel n : Nat) → List Char
  | 0, _ => []
  | fuel + 1, n =>
    if n = 0 then [] else hexDigitsOf upper fuel (n / 16) ++ [hexDigit upper (n % 16)]

/-- A number in hexadecimal, at least `width` digits wide. -/
def hex (upper : Bool) (width n : Nat) : String :=
  let digits := hexDigitsOf upper n n
  String.ofList (List.replicate (width - digits.length) '0' ++ digits)

end Interop.Text
