import Interop.Json.Basic
import Interop.Text.Basic

/-!
# Writing JSON text

Two layouts: on one line without spaces, and over several lines with two blanks per level.
-/

namespace Interop.Json

def escapeChar (c : Char) : List Char :=
  if c = '"' then ['\\', '"']
  else if c = '\\' then ['\\', '\\']
  else if c = '\n' then ['\\', 'n']
  else if c = '\r' then ['\\', 'r']
  else if c = '\t' then ['\\', 't']
  else if c = '\x08' then ['\\', 'b']
  else if c = '\x0c' then ['\\', 'f']
  else if c.toNat < 0x20 then '\\' :: 'u' :: (Text.hex false 4 c.toNat).toList
  else [c]

/-- A text in quotes. Half of a surrogate pair stands for a text without characters. -/
def quoted : Option String → String
  | some s => "\"" ++ String.ofList (s.toList.flatMap escapeChar) ++ "\""
  | none => "\"\\ud800\""

def scalar : Json → String
  | .null => "null"
  | .bool b => if b then "true" else "false"
  | .int n => n.repr
  | .real lexeme => lexeme
  | .text content => quoted content
  | .arr _ => "[]"
  | .obj _ => "\x7b\x7d"

mutual

def compact : Json → String
  | .arr items => "[" ++ Text.joinWith "," (compactItems items) ++ "]"
  | .obj fields => "\x7b" ++ Text.joinWith "," (compactFields fields) ++ "\x7d"
  | v => scalar v

def compactItems : List Json → List String
  | [] => []
  | v :: rest => compact v :: compactItems rest

def compactFields : List (Option String × Json) → List String
  | [] => []
  | (key, v) :: rest => (quoted key ++ ":" ++ compact v) :: compactFields rest

end

def newline (level : Nat) : String :=
  String.ofList ('\n' :: List.replicate (2 * level) ' ')

def bracketed (level : Nat) (opening closing : String) : List String → String
  | [] => opening ++ closing
  | parts =>
    opening ++ newline (level + 1) ++ Text.joinWith ("," ++ newline (level + 1)) parts ++
      newline level ++ closing

mutual

/-- The document over several lines, where its first line stands at `level`. -/
def prettyAt (level : Nat) : Json → String
  | .arr items => bracketed level "[" "]" (prettyItems (level + 1) items)
  | .obj fields => bracketed level "\x7b" "\x7d" (prettyFields (level + 1) fields)
  | v => scalar v

def prettyItems (level : Nat) : List Json → List String
  | [] => []
  | v :: rest => prettyAt level v :: prettyItems level rest

def prettyFields (level : Nat) : List (Option String × Json) → List String
  | [] => []
  | (key, v) :: rest => (quoted key ++ ": " ++ prettyAt level v) :: prettyFields level rest

end

def pretty (v : Json) : String :=
  prettyAt 0 v

end Interop.Json
