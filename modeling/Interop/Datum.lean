import Interop.Json.Printer
import Interop.Text.Quoted

/-!
# Described values

A value of any type described by names and parts. The description has two readings: the JSON
document that stores the value, and an indented dump for people.
-/

namespace Interop

inductive Datum where
  | number (n : Int)
  | text (s : String)
  | flag (b : Bool)
  | absent
  | present (d : Datum)
  | list (items : List Datum)
  /-- A value that a type of its own wraps; stored as the value alone. -/
  | wrapper (name : String) (d : Datum)
  | record (name : String) (fields : List (String × Datum))
  | bare (form : String)
  | tagged (form : String) (d : Datum)
  | fielded (form : String) (fields : List (String × Datum))

namespace Datum

def option (f : α → Datum) : Option α → Datum
  | some a => .present (f a)
  | none => .absent

def listOf (f : α → Datum) (as : List α) : Datum :=
  .list (as.map f)

mutual

def json : Datum → Json
  | .number n => .int n
  | .text s => .str s
  | .flag b => .bool b
  | .absent => .null
  | .present d => d.json
  | .list items => .arr (jsonItems items)
  | .wrapper _ d => d.json
  | .record _ fields => .obj (jsonFields fields)
  | .bare form => .str form
  | .tagged form d => .obj [(some form, d.json)]
  | .fielded form fields => .obj [(some form, .obj (jsonFields fields))]

def jsonItems : List Datum → List Json
  | [] => []
  | d :: rest => d.json :: jsonItems rest

def jsonFields : List (String × Datum) → List (Option String × Json)
  | [] => []
  | (name, d) :: rest => (some name, d.json) :: jsonFields rest

end

def margin (level : Nat) : String :=
  String.ofList (List.replicate (4 * level) ' ')

def enclosed (level : Nat) (opening closing : String) (parts : List String) : String :=
  let line (part : String) := margin (level + 1) ++ part ++ ",\n"
  opening ++ "\n" ++ String.join (parts.map line) ++ margin level ++ closing

mutual

/-- The dump of a value whose first line stands at `level`. -/
def dumpAt (level : Nat) : Datum → String
  | .number n => n.repr
  | .text s => Text.quote s
  | .flag b => if b then "true" else "false"
  | .absent => "None"
  | .present d => enclosed level "Some(" ")" [dumpAt (level + 1) d]
  | .list [] => "[]"
  | .list (d :: rest) => enclosed level "[" "]" (dumpItems (level + 1) (d :: rest))
  | .wrapper name d => enclosed level (name ++ "(") ")" [dumpAt (level + 1) d]
  | .record name fields => enclosed level (name ++ " \x7b") "\x7d" (dumpFields (level + 1) fields)
  | .bare form => form
  | .tagged form d => enclosed level (form ++ "(") ")" [dumpAt (level + 1) d]
  | .fielded form fields => enclosed level (form ++ " \x7b") "\x7d" (dumpFields (level + 1) fields)

def dumpItems (level : Nat) : List Datum → List String
  | [] => []
  | d :: rest => dumpAt level d :: dumpItems level rest

def dumpFields (level : Nat) : List (String × Datum) → List String
  | [] => []
  | (name, d) :: rest => (name ++ ": " ++ dumpAt level d) :: dumpFields level rest

end

def dump (d : Datum) : String :=
  dumpAt 0 d

end Datum

end Interop
