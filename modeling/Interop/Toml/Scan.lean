/-!
# Reading TOML text

A scan reads the front of a text and leaves the rest, or fails. Failures carry no detail: a text
either is a document or it is none.
-/

namespace Interop.Toml

abbrev Scan := StateT (List Char) Option

namespace Scan

def peek : Scan (Option Char) := do
  return (← get).head?

def next : Scan Char := fun cs =>
  match cs with
  | c :: rest => some (c, rest)
  | [] => none

def oneOf (p : Char → Bool) : Scan Char := do
  let c ← next
  if p c then return c else failure

/-- The longest front of characters that satisfy `p`. -/
def takeWhile (p : Char → Bool) : Scan (List Char) := fun cs =>
  some (cs.takeWhile p, cs.dropWhile p)

/-- Reads the given front if it is there, and says whether it is. -/
def accept (lead : String) : Scan Bool := fun cs =>
  if lead.toList.isPrefixOf cs then some (true, cs.drop lead.length) else some (false, cs)

def expect (lead : String) : Scan Unit := do
  if ← accept lead then return () else failure

/-- A scan that may fail, and then reads nothing. -/
def attempt (m : Scan α) : Scan (Option α) := fun cs =>
  match m cs with
  | some (a, rest) => some (some a, rest)
  | none => some (none, cs)

def remaining : Scan Nat := do
  return (← get).length

end Scan

open Scan

/-! ## Between values -/

def isBlank (c : Char) : Bool :=
  c = ' ' || c = '\t'

/-- A character of a text or comment: no control character but the tabulator. -/
def isPlain (c : Char) : Bool :=
  c = '\t' || (0x20 ≤ c.toNat && c.toNat ≠ 0x7F)

def blanks : Scan Unit := do
  let _ ← Scan.takeWhile isBlank

/-- Reads a line break if there is one, and says whether there is. -/
def acceptNewline : Scan Bool := do
  if ← accept "\n" then return true else accept "\r\n"

def newline : Scan Unit := do
  if ← acceptNewline then return () else failure

def comment : Scan Unit := do
  if ← accept "#" then
    let _ ← Scan.takeWhile isPlain

/-- The end of a line: blanks, perhaps a comment, and a line break or the end of the text. -/
def endOfLine : Scan Unit := do
  blanks
  comment
  if (← peek).isSome then newline

def linesFrom : (fuel : Nat) → Scan Unit
  | 0 => failure
  | fuel + 1 => do
    blanks
    match ← peek with
    | some '#' =>
      comment
      newline
      linesFrom fuel
    | some '\n' | some '\r' =>
      newline
      linesFrom fuel
    | _ => return ()

/-- Blanks, line breaks and comments, as they may stand in an array. -/
def lines : Scan Unit := do
  linesFrom ((← remaining) + 1)

end Interop.Toml
