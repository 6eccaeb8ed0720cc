import Interop.Text.Basic
import Interop.Text.Blank

/-!
# Lines of code

Code is a list of lines without their line breaks. A nested part stands four blanks deeper than what
is around it; an empty line stays empty at any depth.
-/

namespace Interop.Managed

/-- Lines of code, outermost ones at the margin. -/
abbrev Code := List String

namespace Code

def ofText (s : String) : Code :=
  Text.split '\n' s

def blank : Code :=
  [""]

def indentLine (line : String) : String :=
  if line = "" then "" else "    " ++ line

def indent (code : Code) : Code :=
  code.map indentLine

def braced (code : Code) : Code :=
  "\x7b" :: indent code ++ ["\x7d"]

def spaced : List Code → Code
  | [] => []
  | [c] => c
  | c :: d :: rest => c ++ blank ++ spaced (d :: rest)

def text (code : Code) : String :=
  String.join (code.map (· ++ "\n"))

def trimmedText (code : Code) : String :=
  Text.dropEndWhile (· = '\n') code.text

end Code

end Interop.Managed
