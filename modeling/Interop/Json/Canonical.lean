import Interop.Json.Basic

/-!
# Canonical documents

A document whose objects list each field once, ordered by name. Of equal names the last one counts.
-/

namespace Interop.Json

/-- The order of names. Texts without characters come first. -/
def keyBefore : Option String → Option String → Bool
  | _, none => false
  | none, some _ => true
  | some a, some b => a < b

/-- Puts a field in its place in a list ordered by name; an equal name is replaced. -/
def insertField (key : Option String) (value : Json) :
    List (Option String × Json) → List (Option String × Json)
  | [] => [(key, value)]
  | (k, v) :: rest =>
    if keyBefore key k then (key, value) :: (k, v) :: rest
    else if key = k then (key, value) :: rest
    else (k, v) :: insertField key value rest

mutual

def canonical : Json → Json
  | .arr items => .arr (canonicalItems items)
  | .obj fields =>
    .obj ((canonicalFields fields).foldl (fun done (key, value) => insertField key value done) [])
  | v => v

def canonicalItems : List Json → List Json
  | [] => []
  | v :: rest => canonical v :: canonicalItems rest

def canonicalFields : List (Option String × Json) → List (Option String × Json)
  | [] => []
  | (key, v) :: rest => (key, canonical v) :: canonicalFields rest

end

end Interop.Json
