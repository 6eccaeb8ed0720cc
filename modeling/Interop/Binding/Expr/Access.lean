import Interop.Binding.Expr.Basic

/-!
# Names and members

Rules for uses of declarations and for members of objects.
-/

namespace Interop.Binding

open Native (ExprId TypeId DeclId ExprKind DeclKind)
open Emit

def isRecord (id : DeclId) : Emit Bool := do
  match (← decl id).kind with
  | .record _ => return true
  | _ => return false

def isInRecord (d : Native.Decl) : Emit Bool := do
  match d.parent with
  | some parent => isRecord parent
  | none => return false

def memberReference (id : DeclId) : Emit Managed.Expr := do
  let name ← nameOf id
  match (← decl id).parent with
  | some parent =>
    if some parent = (← currentRecord) then return .ident name
    else return .member (.ident (← qualifiedName parent)) false name
  | none => return .ident name

/-- A constant of an enumeration. Those of unnamed enumerations stand in the class of functions;
those of scoped ones are qualified; all others are imported. -/
def enumConstant (id : DeclId) (d : Native.Decl) : Emit Managed.Expr := do
  let name ← nameOf id
  match d.parent with
  | none => return .ident name
  | some enumeration =>
    let e ← decl enumeration
    let isNamed := e.name ≠ "" || ((← symbols).namingTypedef? enumeration).isSome
    let isScoped :=
      match e.kind with
      | .enum info => info.isScoped
      | _ => false
    if !isNamed then
      importMethodsClass
      return .ident name
    else if isScoped then return .member (.ident (← qualifiedName enumeration)) false name
    else
      importStatic (← fullTypeName enumeration)
      return .ident name

/-- A local variable or a parameter. A reference is a pointer, which is followed. -/
def localUse (name : String) (type : TypeId) : Emit Managed.Expr := do
  if ← isReference type then
    markPointers
    return .unary .deref (.ident name)
  else return .ident name

def declRefRule (e : Native.Expr) (id : DeclId) : Emit Managed.Expr := do
  let d ← decl id
  let name ← nameOf id
  let noValue : Emit Managed.Expr :=
    malformed "declaration reference" e.location
      ("`" ++ d.name ++ "` (" ++ d.kind.title ++ ") is not a value")
  match d.kind with
  | .constant _ _ => enumConstant id d
  | .function _ =>
    importMethodsClass
    return .ident name
  | .var v =>
    if (← symbols).isGlobal id then
      importMethodsClass
      return .ident name
    else if ← isInRecord d then memberReference id
    else localUse name v.type
  | .method _ => if ← isInRecord d then memberReference id else noValue
  | .param type => localUse name type
  | .field _ => return .ident name
  | _ => noValue

/-! ## Members -/

def namedOwnerFrom (symbols : Symbols) : (fuel : Nat) → DeclId → Option DeclId
  | 0, _ => none
  | fuel + 1, record =>
    match symbols.anonymous? record with
    | some member => namedOwnerFrom symbols fuel member.enclosing
    | none => some record

/-- The names between an object and one of its members: a step for each base class of a record
without a vtable, and the fields of the anonymous records around the member. -/
def memberSteps (object : Option DeclId) (member : DeclId) : Emit (List String) := do
  let symbols ← symbols
  match (← decl member).parent with
  | none => return []
  | some owner =>
    let namedOwner ← namedOwnerFrom symbols (symbols.names.size + 1) owner
    let hops ←
      match object with
      | none => pure 0
      | some object =>
        let object := symbols.definition object
        if object = symbols.definition namedOwner || symbols.isPolymorphic object then pure 0
        else pure ((← baseSteps object namedOwner).getD 0)
    return List.replicate hops "Base" ++ (← symbols.forwardingPath? owner)

/-- A member behind a list of names, on an object or, without one, in the scope itself. -/
def onObject (object : Option (Managed.Expr × Bool)) (steps : List String) (name : String) :
    Managed.Expr :=
  match object with
  | some (object, isArrow) => .path object isArrow (steps ++ [name])
  | none =>
    match steps with
    | [] => .ident name
    | first :: rest => .namePath first (rest ++ [name])

/-- The object of a member access, whether it is reached through a pointer, and its record. An
implicit object is not written. -/
def accessedObject (parts : Parts) (base : ExprId) (isArrow : Bool) :
    Emit (Option (Managed.Expr × Bool) × Option DeclId) := do
  let e ← exprOf base
  match e.kind with
  | .thisPointer true => return (none, ← currentRecord)
  | .thisPointer false => return (some (.ident "this", false), ← currentRecord)
  | _ =>
    let ast ← ast
    let record ← if isArrow then ast.pointeeRecord? e.type else ast.recordOf? e.type
    match ← referenceName base with
    | some name =>
      markPointers
      return (some (.ident name, true), record)
    | none =>
      let object ← parts.value base
      markPointersIf isArrow
      return (some (object, isArrow), record)

def memberOf (parts : Parts) (base : ExprId) (isArrow : Bool) (member : DeclId) :
    Emit Managed.Expr := do
  let (object, record) ← accessedObject parts base isArrow
  let steps ← memberSteps record member
  return onObject object steps (← nameOf member)

def memberRule (parts : Parts) (e : Native.Expr) (base : ExprId) (member : DeclId)
    (isArrow : Bool) : Emit Managed.Expr := do
  match (← decl member).kind with
  | .field _ => memberOf parts base isArrow member
  | .var _ => memberReference member
  | .method _ =>
    unsupported "member access" e.location
      "pointers to member functions are not supported"
  | other =>
    malformed "member access" e.location ("member is a " ++ other.title)

def subscriptRule (parts : Parts) (base index : ExprId) : Emit Managed.Expr := do
  match ← canonicalKind (← exprOf base).type with
  | .pointer _ => markPointers
  | _ => pure ()
  let base ← parts.value base
  let index ← parts.value index
  return .subscript base index

/-! ## Addresses -/

/-- Looks through parentheses and conversions that keep the object, one per unit of fuel. -/
def namedObjectFrom (ast : Native.Ast) : (fuel : Nat) → ExprId → Option ExprId
  | 0, _ => none
  | fuel + 1, id => do
    match (← ast.expr? id).kind with
    | .paren inner => namedObjectFrom ast fuel inner
    | .implicitCast .lvalueToRValue operand => namedObjectFrom ast fuel operand
    | .implicitCast .noOp operand => namedObjectFrom ast fuel operand
    | _ => return id

/-- The address of the object that an expression names, where `value` emits the expression
itself. -/
def addressRule (parts : Parts) (value : ExprId → Emit Managed.Expr) (id : ExprId) :
    Emit Managed.Expr := do
  let ast ← ast
  let inner ← namedObjectFrom ast ast.exprs.size id
  let e ← exprOf inner
  let taken : Emit Managed.Expr := do
    markPointers
    return .unary .addressOf (← value inner)
  match e.kind with
  | .declRef target =>
    if ← isReferenceDecl target then return .ident (← nameOf target) else taken
  | .unary .deref operand => parts.value operand
  | .member _ _ _ => taken
  | .subscript _ _ => taken
  | _ =>
    unsupported "reference binding" e.location
      "only named lvalues can be passed by reference"

end Interop.Binding
