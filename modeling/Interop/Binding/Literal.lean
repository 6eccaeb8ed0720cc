import Interop.Text.Basic
import Interop.Text.Blank

/-!
# Number literals

The C# spelling of native number literals. Native suffixes are dropped, and a digit separator
becomes an underscore.
-/

namespace Interop.Binding

def hasRadixMark : List Char → Bool
  | '0' :: c :: _ => c = 'x' || c = 'X' || c = 'b' || c = 'B'
  | _ => false

def octalValue? (digits : List Char) : Option Nat :=
  if digits.all fun c => '0' ≤ c && c ≤ '7' then
    let value := digits.foldl (fun n c => n * 8 + (c.toNat - 48)) 0
    if value < UInt64.size then some value else none
  else none

def integerDigits (spelling : String) : String :=
  Text.replaceChar '\'' '_'
    (Text.dropEndWhile (fun c => ['u', 'U', 'l', 'L', 'z', 'Z'].contains c) spelling)

/-- The C# digits of an integer literal: an octal one becomes decimal, all others stay. There are
none for a literal that starts like an octal one and is none. -/
def integerBody? (spelling : String) : Option String :=
  let digits := integerDigits spelling
  match digits.toList with
  | '0' :: c :: rest =>
    if hasRadixMark ('0' :: c :: rest) then some digits
    else (octalValue? (('0' :: c :: rest).filter (· ≠ '_'))).map Nat.repr
  | _ => some digits

def integerSuffix (type : String) : String :=
  if type = "uint" then "U" else if type = "long" then "L" else if type = "ulong" then "UL" else ""

def fillFraction : List Char → List Char
  | '.' :: 'e' :: rest => '.' :: '0' :: 'e' :: fillFraction rest
  | '.' :: 'E' :: rest => '.' :: '0' :: 'E' :: fillFraction rest
  | c :: rest => c :: fillFraction rest
  | [] => []

/-- The C# digits of a floating point literal: there is a digit on either side of the point. -/
def floatingBody (spelling : String) : String :=
  let body := Text.replaceChar '\'' '_'
    (Text.dropEndWhile (fun c => ['f', 'F', 'l', 'L'].contains c) spelling)
  let body := if Text.startsWith (· = '.') body then "0" ++ body else body
  let body := if Text.endsWith (· = '.') body then body ++ "0" else body
  String.ofList (fillFraction body.toList)

end Interop.Binding
