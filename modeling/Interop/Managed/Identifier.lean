import Interop.Text.Alphanumeric
import Interop.Text.Basic
import Interop.Text.Blank

/-!
# C# identifiers

A native name becomes a C# identifier: a keyword gets an at sign in front, and an operator function
becomes a named method.
-/

namespace Interop.Managed

def keywords : List String :=
  ["abstract", "as", "base", "bool", "break", "byte", "case", "catch", "char", "checked", "class",
   "const", "continue", "decimal", "default", "delegate", "do", "double", "else", "enum", "event",
   "explicit", "extern", "false", "finally", "fixed", "float", "for", "foreach", "goto", "if",
   "implicit", "in", "int", "interface", "internal", "is", "lock", "long", "namespace", "new",
   "null", "object", "operator", "out", "override", "params", "private", "protected", "public",
   "readonly", "ref", "return", "sbyte", "sealed", "short", "sizeof", "stackalloc", "static",
   "string", "struct", "switch", "this", "throw", "true", "try", "typeof", "uint", "ulong",
   "unchecked", "unsafe", "ushort", "using", "virtual", "void", "volatile", "while"]

/-- What follows the word `operator` in the name of an operator function. A letter, a digit or an
underscore there makes it an ordinary name. -/
def operatorSymbol? (name : String) : Option String :=
  match Text.stripLead? "operator".toList name.toList with
  | some (next :: rest) =>
    if Text.isAlphanumeric next || next = '_' then none
    else some (Text.trim (String.ofList (next :: rest)))
  | _ => none

def operatorNames : List (String × String) :=
  [("=", "Assign"), ("==", "Equals"), ("!=", "NotEquals"), ("<", "LessThan"),
   ("<=", "LessThanOrEqual"), (">", "GreaterThan"), (">=", "GreaterThanOrEqual"), ("+", "Add"),
   ("-", "Subtract"), ("*", "Multiply"), ("/", "Divide"), ("%", "Modulus"), ("[]", "Subscript"),
   ("()", "Call"), ("+=", "AddAssign"), ("-=", "SubtractAssign"), ("!", "Not"),
   ("~", "OnesComplement"), ("++", "Increment"), ("--", "Decrement"), ("<<", "LeftShift"),
   (">>", "RightShift")]

/-- The symbol with an underscore for everything that is no ASCII letter or digit, and none at
either end. -/
def cleanedSymbol (symbol : String) : String :=
  Text.stripWhile (· = '_')
    (String.ofList (symbol.toList.map fun c => if Text.isAsciiAlphanumeric c then c else '_'))

def operatorMethod (symbol : String) : String :=
  match operatorNames.lookup symbol with
  | some name => "op_" ++ name
  | none =>
    let cleaned := cleanedSymbol symbol
    if cleaned = "" then "op_Operator" else "op_" ++ cleaned

def escapeIdentifier (name : String) : String :=
  match operatorSymbol? name with
  | some symbol => operatorMethod symbol
  | none => if keywords.contains name then "@" ++ name else name

end Interop.Managed
