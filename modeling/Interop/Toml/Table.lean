import Interop.Toml.Basic

/-!
# Building tables

A document names its tables by headers and by dotted keys, in parts that may stand apart. A table
under construction remembers how it came about: one that so far is only part of a path may still be
given a header, and dotted keys may only add to tables that dotted keys have made. No name is given
twice.
-/

namespace Interop.Toml

structure KeyPath where
  parents : List String
  name : String
  deriving DecidableEq

mutual

inductive Node where
  | value (v : Value)
  | table (t : Table)
  | tables (ts : List Table)

inductive Table where
  /-- `isImplicit` says that the table was only part of a path so far, and `isDotted` that dotted
  keys made it. -/
  | mk (isImplicit isDotted : Bool) (entries : List (String × Node))

end

abbrev Entry := String × Node

def lookupNode (name : String) : List Entry → Option Node
  | [] => none
  | (other, node) :: rest => if other = name then some node else lookupNode name rest

/-- Gives a name another node; a new name comes last. -/
def setNode (name : String) (node : Node) : List Entry → List Entry
  | [] => [(name, node)]
  | (other, old) :: rest =>
    if other = name then (name, node) :: rest else (other, old) :: setNode name node rest

def eraseNode (name : String) (entries : List Entry) : List Entry :=
  entries.filter (·.1 ≠ name)

def modifyLast (f : α → Option α) : List α → Option (List α)
  | [] => none
  | [a] => (f a).map fun b => [b]
  | a :: rest => (modifyLast f rest).map (a :: ·)

namespace Table

def entries : Table → List Entry
  | .mk _ _ entries => entries

def empty : Table :=
  .mk false false []

/-- Adds a value under a dotted key. `isWithin` says that the table was reached through a dotted
key. -/
def insertAt (name : String) (v : Value) (isWithin : Bool) : List String → Table → Option Table
  | [], .mk isImplicit isDotted entries =>
    if isDotted = isWithin && (lookupNode name entries).isNone then
      some (.mk isImplicit isDotted (entries ++ [(name, .value v)]))
    else none
  | parent :: rest, .mk isImplicit isDotted entries => do
    let node ←
      match lookupNode parent entries with
      | none => (insertAt name v true rest (.mk true true [])).map Node.table
      | some (.table (.mk true dotted inner)) =>
        (insertAt name v true rest (.mk true dotted inner)).map Node.table
      | some (.table _) => none
      | some (.tables ts) => (modifyLast (insertAt name v true rest) ts).map Node.tables
      | some (.value _) => none
    return .mk isImplicit isDotted (setNode parent node entries)

def insert (t : Table) (key : KeyPath) (v : Value) : Option Table :=
  insertAt key.name v false key.parents t

/-- Changes the table that the names of a header lead to; tables that are missing are made. In an
array of tables the last one counts. -/
def modifyAt (f : Table → Option Table) : List String → Table → Option Table
  | [], t => f t
  | parent :: rest, .mk isImplicit isDotted entries => do
    let node ←
      match lookupNode parent entries with
      | none => (modifyAt f rest (.mk true false [])).map Node.table
      | some (.table t) => (modifyAt f rest t).map Node.table
      | some (.tables ts) => (modifyLast (modifyAt f rest) ts).map Node.tables
      | some (.value _) => none
    return .mk isImplicit isDotted (setNode parent node entries)

def insertAll (t : Table) (pairs : List (KeyPath × Value)) : Option Table :=
  pairs.foldlM (fun t (key, v) => t.insert key v) t

def openTable (name : String) (pairs : List (KeyPath × Value)) : Table → Option Table
  | .mk isImplicit isDotted entries => do
    let before ←
      match lookupNode name entries with
      | none => some []
      | some (.table (.mk true false inner)) => some inner
      | some _ => none
    let t ← insertAll (.mk false false before) pairs
    return .mk isImplicit isDotted (eraseNode name entries ++ [(name, .table t)])

def openElement (name : String) (pairs : List (KeyPath × Value)) : Table → Option Table
  | .mk isImplicit isDotted entries => do
    let before ←
      match lookupNode name entries with
      | none => some []
      | some (.tables ts) => some ts
      | some _ => none
    let t ← insertAll empty pairs
    return .mk isImplicit isDotted (setNode name (.tables (before ++ [t])) entries)

end Table

/-! ## Finished tables -/

mutual

def Node.toValue : Node → Value
  | .value v => v
  | .table t => t.toValue
  | .tables ts => .array (tableValues ts)

def Table.toValue : Table → Value
  | .mk _ _ entries => .table (entryValues entries)

def tableValues : List Table → List Value
  | [] => []
  | t :: rest => t.toValue :: tableValues rest

def entryValues : List (String × Node) → List (String × Value)
  | [] => []
  | (name, node) :: rest => (name, node.toValue) :: entryValues rest

end

/-! ## Sections -/

/-- A header: it opens a table, or adds an element to an array of tables. -/
inductive Header where
  | table (path : KeyPath)
  | element (path : KeyPath)

structure Section where
  header : Header
  pairs : List (KeyPath × Value)

def addSection (root : Table) (s : Section) : Option Table :=
  match s.header with
  | .table path => root.modifyAt (Table.openTable path.name s.pairs) path.parents
  | .element path => root.modifyAt (Table.openElement path.name s.pairs) path.parents

def assemble (pairs : List (KeyPath × Value)) (sections : List Section) : Option Value := do
  let root ← Table.empty.insertAll pairs
  return (← sections.foldlM addSection root).toValue

end Interop.Toml
