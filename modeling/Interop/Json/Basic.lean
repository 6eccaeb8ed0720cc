/-!
# JSON documents

A document as it was written: the fields of an object stand in order and may repeat, and a number
that is no integer keeps its spelling. A text with half of a surrogate pair in it has no characters
and is kept apart as `none`.
-/

namespace Interop

inductive Json where
  | null
  | bool (b : Bool)
  /-- A number written as an integer of at most 64 bits. -/
  | int (n : Int)
  /-- Any other number, as it was spelled. -/
  | real (lexeme : String)
  /-- A text, or `none` when an escape in it names half of a surrogate pair. -/
  | text (content : Option String)
  | arr (items : List Json)
  | obj (fields : List (Option String × Json))

namespace Json

def str (s : String) : Json :=
  .text (some s)

def nat (n : Nat) : Json :=
  .int n

def option (f : α → Json) : Option α → Json
  | some a => f a
  | none => .null

def list (f : α → Json) (as : List α) : Json :=
  .arr (as.map f)

def object (fields : List (String × Json)) : Json :=
  .obj (fields.map fun (name, value) => (some name, value))

end Json

end Interop
