import Interop.Binding.Expr.Basic

/-!
# Initializer lists

Rules for lists of initial values. An array is filled up with default elements; a record is given
the fields in order, and a union its first one only.
-/

namespace Interop.Binding

open Native (ExprId TypeId DeclId ExprKind DeclKind)
open Emit

def initializerName (member : DeclId) : Emit (Option String) := do
  match (← decl member).kind with
  | .field _ => return some (← nameOf member)
  | .record r =>
    if r.isAnonymous then return ((← symbols).anonymous? member).map (·.field) else return none
  | _ => return none

def takesPlace (member : DeclId) : Emit Bool := do
  match (← decl member).kind with
  | .field _ => return true
  | .record r => return r.isAnonymous
  | _ => return false

def initializerNames (isUnion : Bool) : List DeclId → Emit (List String)
  | [] => return []
  | member :: rest => do
    let name ← initializerName member
    if isUnion && (← takesPlace member) then return name.toList
    else return name.toList ++ (← initializerNames isUnion rest)

def initializerNamesOf (record : DeclId) : Emit (List String) := do
  match (← decl record).kind with
  | .record r => initializerNames (r.tag == .union) r.members
  | _ => return []

def initializedFields (parts : Parts) : List (String × ExprId) → Emit (List (String × Managed.Expr))
  | [] => return []
  | (name, element) :: rest => do
    match (← exprOf element).kind with
    | .valueInit => initializedFields parts rest
    | _ =>
      let e ← parts.value element
      return (name, e) :: (← initializedFields parts rest)

def arrayInit (parts : Parts) (element : TypeId) (size : Nat) (elements : List ExprId)
    (location : Location) : Emit Managed.Expr := do
  let type := (← mapType element .pointee location).type
  if size < elements.length then
    malformed "initializer list" location
      (elements.length.repr ++ " elements for an array of " ++ size.repr)
  else if elements.isEmpty then return .newArray type size
  else
    let items ← forEach parts.value elements
    let filling := List.replicate (size - elements.length) (Managed.Expr.literal "default")
    return .arrayOf type size (items ++ filling)

def recordInit (parts : Parts) (type : TypeId) (record : DeclId) (elements : List ExprId)
    (location : Location) : Emit Managed.Expr := do
  let mapped ← mapType type .localVar location
  if elements.isEmpty then return .newObject mapped.type
  else
    let names ← initializerNamesOf ((← symbols).definition record)
    if names.length < elements.length then
      malformed "initializer list" location
        (elements.length.repr ++ " elements for " ++ names.length.repr ++ " fields")
    else return .objectOf mapped.type (← initializedFields parts (names.zip elements))

def initListRule (parts : Parts) (e : Native.Expr) (elements : List ExprId) :
    Emit Managed.Expr := do
  match ← canonicalKind e.type with
  | .constantArray element size => arrayInit parts element size.toNat elements e.location
  | .record record => recordInit parts e.type record elements e.location
  | _ =>
    match elements with
    | [] => return .literal "default"
    | [single] => parts.value single
    | _ => malformed "initializer list" e.location "scalar initialized with several values"

end Interop.Binding
