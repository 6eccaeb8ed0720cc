import Interop.Binding.Failure
import Interop.Binding.Vtable
import Interop.Managed.Identifier
import Interop.Settings

/-!
# Symbols

What is known about the declarations of a tree before any of them is emitted: the C# name of each
one, so that a use may stand before its declaration, and the facts about records that later steps
need.
-/

namespace Interop.Binding

open Native Managed

/-- An anonymous record, stored in a field of its own in the enclosing record. -/
structure AnonymousMember where
  enclosing : DeclId
  field : String
  deriving DecidableEq

structure Symbols where
  names : Array String
  anonymous : List (DeclId × AnonymousMember)
  namingTypedefs : List (DeclId × DeclId)
  definitions : List (DeclId × DeclId)
  shadowed : List DeclId
  globals : List DeclId
  vtables : Layouts

/-! ## Provenance names -/

def provenanceName (d : Decl) : String :=
  let lead :=
    match d.kind with
    | .enum _ => "__AnonymousEnum"
    | _ => "__AnonymousRecord"
  lead ++ "_" ++ d.location.fileStem ++ "_L" ++ d.location.line.toNat.repr ++ "_C" ++
    d.location.column.toNat.repr

/-! ## Naming typedefs -/

def directlyNamed : TypeKind → Option DeclId
  | .record decl => some decl
  | .enum decl => some decl
  | _ => none

def namedByTypedef? (ast : Ast) (d : Decl) : Option (Option DeclId) := do
  match d.kind with
  | .typedef underlying =>
    match directlyNamed (← ast.type? underlying).kind with
    | some target => return if (← ast.decl? target).name = "" then some target else none
    | none => return none
  | _ => return none

def namingTypedefs? (ast : Ast) : Option (List (DeclId × DeclId)) := do
  let found ← ast.declsWithIds.mapM fun (id, d) => do
    return (← namedByTypedef? ast d).map fun target => (target, id)
  return found.filterMap id

/-! ## Anonymous members -/

def isAnonymousRecord (d : Decl) : Bool :=
  match d.kind with
  | .record r => r.isAnonymous
  | _ => false

def anonymousField (numbered : Bool) (position : Nat) : String :=
  if numbered then "Anonymous" ++ (position + 1).repr else "Anonymous"

def anonymousMembersOf (ast : Ast) (record : DeclId) (members : List DeclId) :
    Result (List (DeclId × AnonymousMember)) := do
  let anonymous ← members.filterMapM fun id => do
    let d ← found (ast.decl? id)
    return if isAnonymousRecord d then some (id, d) else none
  let numbered := 1 < anonymous.length
  anonymous.zipIdx.mapM fun ((id, d), position) =>
    if d.parent = some record then
      return (id, ⟨record, anonymousField numbered position⟩)
    else
      reject "record" d.location
        "anonymous record is listed as a member of a record that is not its parent"

/-- The anonymous members of all records. Of several entries for one record the last one counts, so
later entries stand first. -/
def anonymousMembers (ast : Ast) : Result (List (DeclId × AnonymousMember)) := do
  let perRecord ← ast.declsWithIds.mapM fun (id, d) =>
    match d.kind with
    | .record r => anonymousMembersOf ast id r.members
    | _ => pure []
  return perRecord.flatten.reverse

/-! ## Names -/

/-- Whether a type is the given record or enumeration, or an array of it; one array or chain of
typedefs per unit of fuel. -/
def namesRecord? (ast : Ast) (record : DeclId) : (fuel : Nat) → TypeId → Option Bool
  | 0, _ => none
  | fuel + 1, type => do
    match ← ast.canonicalKind? type with
    | .record decl => return decl == record
    | .enum decl => return decl == record
    | .constantArray element _ => namesRecord? ast record fuel element
    | _ => return false

def fieldOfRecord? (ast : Ast) (record : DeclId) : List DeclId → Option (Option String)
  | [] => some none
  | member :: rest => do
    let d ← ast.decl? member
    match d.kind with
    | .field f =>
      if ← namesRecord? ast record (ast.types.size + 1) f.type then return some d.name
      else fieldOfRecord? ast record rest
    | _ => fieldOfRecord? ast record rest

structure Unnamed where
  typedefs : List (DeclId × DeclId)
  anonymous : List (DeclId × AnonymousMember)

def managedName (settings : Settings) (name : String) : String :=
  escapeIdentifier (settings.remapped name)

/-- The C# name of a record or enumeration. An unnamed one is called after its typedef, after the
field that holds it, or after its place. -/
def typeName? (ast : Ast) (settings : Settings) (unnamed : Unnamed) (id : DeclId) (d : Decl)
    (suffix : String) : Option String := do
  if d.name ≠ "" then return managedName settings d.name
  if let some typedef := unnamed.typedefs.lookup id then
    return managedName settings (← ast.decl? typedef).name
  if let some member := unnamed.anonymous.lookup id then
    return "_" ++ member.field ++ "_e__" ++ suffix
  if let some parent := d.parent then
    if let some field ← fieldOfRecord? ast id (← ast.recordMembers? parent) then
      return "_" ++ field ++ "_e__" ++ suffix
  return provenanceName d

def parametersOf : DeclKind → List DeclId
  | .function f => f.params
  | .method m => m.params
  | .constructor params _ => params
  | _ => []

def parameterPosition? (ast : Ast) (id : DeclId) (d : Decl) : Option Nat := do
  match d.parent with
  | none => return 0
  | some parent => return ((parametersOf (← ast.decl? parent).kind).idxOf? id).getD 0

def declName? (ast : Ast) (settings : Settings) (unnamed : Unnamed) (id : DeclId) (d : Decl) :
    Option String := do
  match d.kind with
  | .record r =>
    typeName? ast settings unnamed id d (if r.tag = .union then "Union" else "Struct")
  | .enum _ => typeName? ast settings unnamed id d "Enum"
  | .param _ =>
    if d.name = "" then return "param" ++ (← parameterPosition? ast id d).repr
    else return escapeIdentifier d.name
  | .function _ | .var _ | .typedef _ => return managedName settings d.name
  | _ => return escapeIdentifier d.name

/-! ## Definitions -/

def namedRecord? (d : Decl) : Option Record :=
  match d.kind with
  | .record r => if d.name = "" then none else some r
  | _ => none

def sameEntity (a b : Decl) : Bool :=
  a.parent == b.parent && a.name == b.name

def firstRecord? (ast : Ast) (d : Decl) (p : Record → Bool) : Option DeclId :=
  (ast.declsWithIds.find? fun (_, other) =>
    match namedRecord? other with
    | some r => p r && sameEntity d other
    | none => false).map (·.1)

def forwardRecords (ast : Ast) : List (DeclId × Decl) :=
  ast.declsWithIds.filter fun (_, d) =>
    match namedRecord? d with
    | some r => !r.isDefinition
    | none => false

def definitionsOf (ast : Ast) : List (DeclId × DeclId) :=
  (forwardRecords ast).filterMap fun (id, d) =>
    (firstRecord? ast d (·.isDefinition)).map fun definition => (id, definition)

def shadowedIn (ast : Ast) : List DeclId :=
  (forwardRecords ast).filterMap fun (id, d) =>
    if (firstRecord? ast d (·.isDefinition)).isSome then some id
    else if firstRecord? ast d (fun _ => true) ≠ some id then some id
    else none

/-! ## Scopes -/

/-- The declarations in namespaces and linkage blocks, in order, one level per unit of fuel. -/
def flattenScope? (ast : Ast) : (fuel : Nat) → List DeclId → Option (List DeclId)
  | 0, _ => none
  | fuel + 1, ids => do
    let parts ← ids.mapM fun id => do
      match (← ast.decl? id).kind with
      | .scope decls => flattenScope? ast fuel decls
      | .linkageSpec _ decls => flattenScope? ast fuel decls
      | _ => return [id]
    return parts.flatten

def topLevel? (ast : Ast) : Option (List DeclId) :=
  flattenScope? ast (ast.decls.size + 1) ast.topLevel

def isFunctionOrVar (ast : Ast) (id : DeclId) : Bool :=
  match ast.decl? id with
  | some { kind := .function _, .. } => true
  | some { kind := .var _, .. } => true
  | _ => false

/-! ## The table -/

namespace Symbols

def build (ast : Ast) (settings : Settings) : Result Symbols := do
  let namingTypedefs ← found (namingTypedefs? ast)
  let anonymous ← anonymousMembers ast
  let names ← found (ast.declsWithIds.mapM fun (id, d) =>
    declName? ast settings ⟨namingTypedefs, anonymous⟩ id d)
  let definitions := definitionsOf ast
  let globals := (← found (topLevel? ast)).filter (isFunctionOrVar ast)
  let vtables ← found (vtables? ast fun id => (definitions.lookup id).getD id)
  return {
    names := names.toArray
    anonymous
    namingTypedefs
    definitions
    shadowed := shadowedIn ast
    globals
    vtables }

def name (s : Symbols) (id : DeclId) : String :=
  s.names[id.index]?.getD ""

def anonymous? (s : Symbols) (record : DeclId) : Option AnonymousMember :=
  s.anonymous.lookup record

/-- The fields that lead from a named record down to an anonymous one, innermost first, one per unit
of fuel. -/
def forwardingFrom (s : Symbols) : (fuel : Nat) → DeclId → Option (List String)
  | 0, _ => none
  | fuel + 1, record =>
    match s.anonymous? record with
    | none => some []
    | some member => (forwardingFrom s fuel member.enclosing).map (member.field :: ·)

/-- The fields that lead from the nearest named record down to an anonymous one, outermost first. It
is empty for a record that is not anonymous. -/
def forwardingPath? (s : Symbols) (record : DeclId) : Option (List String) :=
  (s.forwardingFrom (s.names.size + 1) record).map List.reverse

def namingTypedef? (s : Symbols) (id : DeclId) : Option DeclId :=
  s.namingTypedefs.lookup id

def isShadowed (s : Symbols) (record : DeclId) : Bool :=
  s.shadowed.contains record

/-- The definition of a record, which is the record itself if no other one is known. -/
def definition (s : Symbols) (record : DeclId) : DeclId :=
  (s.definitions.lookup record).getD record

def isGlobal (s : Symbols) (id : DeclId) : Bool :=
  s.globals.contains id

def vtable? (s : Symbols) (record : DeclId) : Option LayoutResult :=
  s.vtables.lookup (s.definition record)

def isPolymorphic (s : Symbols) (record : DeclId) : Bool :=
  match s.vtable? record with
  | some (.ok (_ :: _)) => true
  | _ => false

end Symbols

end Interop.Binding
