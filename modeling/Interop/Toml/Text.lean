import Interop.Json.Token
import Interop.Toml.Scan

/-!
# TOML texts

Texts between quotes or apostrophes. Between quotes a backslash starts an escape; between
apostrophes every character stands for itself. Three of either enclose a text of several lines.
-/

namespace Interop.Toml

open Scan

/-! ## Escapes -/

def hexValue : (n : Nat) → (value : Nat) → Scan Nat
  | 0, value => return value
  | n + 1, value => do
    match Json.hexValue? (← next) with
    | some digit => hexValue n (value * 16 + digit)
    | none => failure

/-- The character of a code point; halves of surrogate pairs have none. -/
def scalar (n : Nat) : Scan Char :=
  if n < 0xD800 || (0xE000 ≤ n && n < 0x110000) then return Char.ofNat n else failure

def escape : Scan Char := do
  match ← next with
  | 'b' => return '\x08'
  | 'f' => return '\x0c'
  | 'n' => return '\n'
  | 'r' => return '\r'
  | 't' => return '\t'
  | '"' => return '"'
  | '\\' => return '\\'
  | 'u' => scalar (← hexValue 4 0)
  | 'U' => scalar (← hexValue 8 0)
  | _ => failure

/-! ## One line -/

/-- The characters up to the closing quote, one per unit of fuel. -/
def basicFrom : (fuel : Nat) → Scan (List Char)
  | 0 => failure
  | fuel + 1 => do
    match ← next with
    | '"' => return []
    | '\\' =>
      let c ← escape
      return c :: (← basicFrom fuel)
    | c => if isPlain c then return c :: (← basicFrom fuel) else failure

def basicText : Scan String := do
  return String.ofList (← basicFrom ((← remaining) + 1))

def literalText : Scan String := do
  let cs ← Scan.takeWhile fun c => isPlain c && c ≠ '\''
  expect "'"
  return String.ofList cs

/-! ## Several lines -/

/-- The quotes that end a text of several lines: up to two of them belong to the text. -/
def closing (quote : Char) : Scan (List Char) := fun cs =>
  let run := (cs.takeWhile (· = quote)).take 5
  if run.length < 3 then none else some (run.drop 3, cs.drop run.length)

/-- What follows blanks and line breaks. -/
def dropFold : List Char → List Char
  | ' ' :: rest => dropFold rest
  | '\t' :: rest => dropFold rest
  | '\n' :: rest => dropFold rest
  | '\r' :: '\n' :: rest => dropFold rest
  | cs => cs

/-- Reads a line break behind a backslash, with the blanks before it and all blanks and line breaks
after it, and says whether there was one. -/
def acceptFold : Scan Bool := fun cs =>
  match newline (cs.dropWhile isBlank) with
  | some (_, rest) => some (true, dropFold rest)
  | none => some (false, cs)

/-- The characters up to the three closing quotes, one per unit of fuel. If `escapes`, a backslash
starts an escape. -/
def multiFrom (quote : Char) (escapes : Bool) : (fuel : Nat) → Scan (List Char)
  | 0 => failure
  | fuel + 1 => do
    match ← attempt (closing quote) with
    | some last => return last
    | none =>
      if ← acceptNewline then return '\n' :: (← multiFrom quote escapes fuel)
      else
        let c ← next
        if escapes && c = '\\' then
          if ← acceptFold then multiFrom quote escapes fuel
          else
            let c ← escape
            return c :: (← multiFrom quote escapes fuel)
        else if isPlain c then return c :: (← multiFrom quote escapes fuel)
        else failure

/-- A text of several lines, behind the opening quotes. A line break right behind them does not
count. -/
def multiText (quote : Char) (escapes : Bool) : Scan String := do
  let _ ← acceptNewline
  return String.ofList (← multiFrom quote escapes ((← remaining) + 1))

def text : Scan String := do
  if ← accept "\"\"\"" then multiText '"' true
  else if ← accept "\"" then basicText
  else if ← accept "'''" then multiText '\'' false
  else
    expect "'"
    literalText

end Interop.Toml
