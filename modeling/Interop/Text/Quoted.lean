import Interop.Text.Basic
import Interop.Text.Printable

/-!
# Quoted text

The quoted form of a text in a dump: quotes and backslashes are escaped, the common controls have
short escapes, and whatever has no visible form is shown by its code point.
-/

namespace Interop.Text

def quoteChar (c : Char) : List Char :=
  if c = '\x00' then ['\\', '0']
  else if c = '\t' then ['\\', 't']
  else if c = '\r' then ['\\', 'r']
  else if c = '\n' then ['\\', 'n']
  else if c = '"' then ['\\', '"']
  else if c = '\\' then ['\\', '\\']
  else if isPrintable c then [c]
  else ['\\', 'u', '\x7b'] ++ (hex false 1 c.toNat).toList ++ ['\x7d']

def quote (s : String) : String :=
  "\"" ++ String.ofList (s.toList.flatMap quoteChar) ++ "\""

end Interop.Text
