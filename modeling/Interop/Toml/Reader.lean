import Interop.Toml.Moment
import Interop.Toml.Number
import Interop.Toml.Table
import Interop.Toml.Text

/-!
# Reading TOML documents

A document is a list of lines: headers, and keys with their values. Keys have fewer than eighty
parts, and arrays and tables inside a value are nested fewer than eighty deep.
-/

namespace Interop.Toml

open Scan

/-! ## Keys -/

/-- How many parts a key may have, and how deep values may be nested. -/
def nesting : Nat := 79

def isBareKey (c : Char) : Bool :=
  c.isAlphanum || c = '-' || c = '_'

def keyPart : Scan String := do
  if ← accept "\"" then basicText
  else if ← accept "'" then literalText
  else
    let cs ← Scan.takeWhile isBareKey
    if cs.isEmpty then failure else return String.ofList cs

def keyFrom : (fuel : Nat) → Scan KeyPath
  | 0 => failure
  | fuel + 1 => do
    blanks
    let part ← keyPart
    blanks
    if ← accept "." then
      let inner ← keyFrom fuel
      return { inner with parents := part :: inner.parents }
    else return { parents := [], name := part }

def key : Scan KeyPath :=
  keyFrom nesting

/-! ## Values -/

/-- The items of an array behind its bracket, one per unit of fuel. -/
def itemsFrom (value : Scan Value) : (fuel : Nat) → Scan (List Value)
  | 0 => failure
  | fuel + 1 => do
    lines
    if ← accept "]" then return []
    else
      let v ← value
      lines
      if ← accept "," then return v :: (← itemsFrom value fuel)
      else
        expect "]"
        return [v]

def pairOf (value : Scan Value) : Scan (KeyPath × Value) := do
  let key ← key
  expect "="
  blanks
  return (key, ← value)

/-- The entries of an inline table, one per unit of fuel; there is at least one. -/
def pairsFrom (value : Scan Value) : (fuel : Nat) → Scan (List (KeyPath × Value))
  | 0 => failure
  | fuel + 1 => do
    let pair ← pairOf value
    blanks
    if ← accept "," then return pair :: (← pairsFrom value fuel)
    else
      expect "\x7d"
      return [pair]

def inlineTable (value : Scan Value) : Scan Value := do
  blanks
  if ← accept "\x7d" then return .table []
  else
    let pairs ← pairsFrom value ((← remaining) + 1)
    match Table.empty.insertAll pairs with
    | some t => return t.toValue
    | none => failure

def scalarValue : Scan Value := do
  match ← peek with
  | some '"' | some '\'' => return .text (← text)
  | some 't' => do expect "true"; return .bool true
  | some 'f' => do expect "false"; return .bool false
  | _ =>
    match ← attempt moment with
    | some m => return .moment m
    | none => number

def valueTo : (depth : Nat) → Scan Value
  | 0 => do
    match ← peek with
    | some '[' | some '\x7b' => failure
    | _ => scalarValue
  | depth + 1 => do
    if ← accept "[" then return .array (← itemsFrom (valueTo depth) ((← remaining) + 1))
    else if ← accept "\x7b" then inlineTable (valueTo depth)
    else scalarValue

/-! ## Lines -/

inductive Line where
  | header (h : Header)
  | pair (key : KeyPath) (v : Value)

def header : Scan Header := do
  if ← accept "[[" then
    let path ← key
    expect "]]"
    return .element path
  else
    expect "["
    let path ← key
    expect "]"
    return .table path

def documentFrom : (fuel : Nat) → Scan (List Line)
  | 0 => failure
  | fuel + 1 => do
    blanks
    match ← peek with
    | none => return []
    | some '#' | some '\n' | some '\r' =>
      endOfLine
      documentFrom fuel
    | some '[' =>
      let h ← header
      endOfLine
      return .header h :: (← documentFrom fuel)
    | some _ =>
      let (key, v) ← pairOf (valueTo nesting)
      endOfLine
      return .pair key v :: (← documentFrom fuel)

def sectionsOf : List Line → List (KeyPath × Value) × List Section
  | [] => ([], [])
  | .pair key v :: rest =>
    let (pairs, sections) := sectionsOf rest
    ((key, v) :: pairs, sections)
  | .header h :: rest =>
    let (pairs, sections) := sectionsOf rest
    ([], ⟨h, pairs⟩ :: sections)

/-- Reads a document. A mark of the byte order at its start does not count. -/
def parse (s : String) : Option Value := do
  let cs :=
    match s.toList with
    | '\uFEFF' :: rest => rest
    | cs => cs
  let (lines, _) ← documentFrom (cs.length + 2) cs
  let (pairs, sections) := sectionsOf lines
  assemble pairs sections

end Interop.Toml
