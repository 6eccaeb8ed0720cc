import Interop.Text.Basic

/-!
# C# text literals

Texts and characters in quotes.
-/

namespace Interop.Managed

def stringLiteralChar (c : Char) : List Char :=
  if c = '"' then ['\\', '"']
  else if c = '\\' then ['\\', '\\']
  else if c = '\n' then ['\\', 'n']
  else if c = '\r' then ['\\', 'r']
  else if c = '\t' then ['\\', 't']
  else if c = '\x00' then ['\\', '0']
  else if c.toNat < 0x20 then '\\' :: 'u' :: (Text.hex true 4 c.toNat).toList
  else [c]

def stringLiteral (value : String) : String :=
  "\"" ++ String.ofList (value.toList.flatMap stringLiteralChar) ++ "\""

/-- What stands between the quotes of a character literal. A code point outside printable ASCII is
written by the low half of its number. -/
def charLiteralBody (value : Nat) : String :=
  if value = 0x27 then "\\'"
  else if value = 0x5C then "\\\\"
  else if value = 0x0A then "\\n"
  else if value = 0x0D then "\\r"
  else if value = 0x09 then "\\t"
  else if value = 0 then "\\0"
  else if 0x20 ≤ value && value < 0x7F then String.singleton (Char.ofNat value)
  else "\\u" ++ Text.hex true 4 (value % 0x10000)

def charLiteral (value : UInt32) : String :=
  "'" ++ charLiteralBody value.toNat ++ "'"

end Interop.Managed
