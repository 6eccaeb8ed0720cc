import Interop.Json.Basic

/-!
# Typed reading of JSON documents

Readers from a document to a value of a type. A record is an object, whose unknown fields are
ignored and whose known fields must not repeat, or an array of its fields in order. A value of a
type with several forms is the name of the form, or an object whose one field is named after it.
-/

namespace Interop.Json

def asBool : Json → Option Bool
  | .bool b => some b
  | _ => none

def asText : Json → Option String
  | .text content => content
  | _ => none

def asIntWithin (low high : Int) : Json → Option Int
  | .int n => if low ≤ n && n < high then some n else none
  | _ => none

def asNatBelow (bound : Nat) (v : Json) : Option Nat :=
  (asIntWithin 0 bound v).map Int.toNat

def asUInt8 (v : Json) : Option UInt8 :=
  (asNatBelow UInt8.size v).map UInt8.ofNat

def asUInt32 (v : Json) : Option UInt32 :=
  (asNatBelow UInt32.size v).map UInt32.ofNat

def asUInt64 (v : Json) : Option UInt64 :=
  (asNatBelow UInt64.size v).map UInt64.ofNat

def asInt64 (v : Json) : Option Int64 :=
  (asIntWithin Int64.minValue.toInt (Int64.maxValue.toInt + 1) v).map Int64.ofInt

def asList (read : Json → Option α) : Json → Option (List α)
  | .arr items => items.mapM read
  | _ => none

def asOption (read : Json → Option α) : Json → Option (Option α)
  | .null => some none
  | v => (read v).map some

/-! ## Records -/

structure Slots where
  fields : List (String × Json)

def knownFields (names : List String) :
    List (Option String × Json) → List (String × Json)
  | [] => []
  | (some name, v) :: rest =>
    if name ∈ names then (name, v) :: knownFields names rest else knownFields names rest
  | (none, _) :: rest => knownFields names rest

def slots (names : List String) : Json → Option Slots
  | .obj fields =>
    let known := knownFields names fields
    if fields.any (·.1.isNone) || !decide (known.map (·.1)).Nodup then none else some ⟨known⟩
  | .arr items => if names.length < items.length then none else some ⟨names.zip items⟩
  | _ => none

def Slots.need (s : Slots) (name : String) (read : Json → Option α) : Option α :=
  (s.fields.lookup name).bind read

def Slots.orElse (s : Slots) (name : String) (default : α) (read : Json → Option α) : Option α :=
  match s.fields.lookup name with
  | some v => read v
  | none => some default

/-! ## Forms -/

/-- The name of a value's form and what comes with it: nothing if only the name is given. -/
def form : Json → Option (String × Option Json)
  | .text (some name) => some (name, none)
  | .obj [(some name, payload)] => some (name, some payload)
  | _ => none

/-- A form without contents: nothing or null may come with its name. -/
def bare (value : α) : Option Json → Option α
  | none => some value
  | some .null => some value
  | some _ => none

def filled (read : Json → Option α) (payload : Option Json) : Option α :=
  payload.bind read

/-- A type whose forms all have no contents, given by the list of their names. -/
def asName (names : List (String × α)) (v : Json) : Option α := do
  let (name, payload) ← form v
  let value ← names.lookup name
  bare value payload

end Interop.Json
