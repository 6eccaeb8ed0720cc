import Interop.Binding.Expr.Access

/-!
# Calls

Rules for calls of functions, of member functions and through function pointers. An argument for a
reference parameter is passed by its address, and further arguments of a variadic function are
passed together.
-/

namespace Interop.Binding

open Native (ExprId TypeId DeclId ExprKind DeclKind Prototype)
open Emit

def prototypeOf (type : TypeId) : Emit (Option Prototype) := do
  let ast ← ast
  match ← ast.functionProto? type with
  | none => return none
  | some proto =>
    match (← ast.type? proto).kind with
    | .function p => return some p
    | _ => return none

/-- The arguments for the declared parameters, and those behind them if there may be any. -/
def splitArguments (parts : Parts) (isVariadic : Bool) (excess : Emit Unit) :
    List TypeId → List ExprId → Emit (List Managed.Expr × List Managed.Expr)
  | _, [] => return ([], [])
  | [], arg :: args => do
    if !isVariadic then excess
    let e ← parts.value arg
    let (declared, further) ← splitArguments parts isVariadic excess [] args
    return (declared, e :: further)
  | param :: params, arg :: args => do
    let e ← if ← isReference param then parts.address arg else parts.value arg
    let (declared, further) ← splitArguments parts isVariadic excess params args
    return (e :: declared, further)

def callArguments (parts : Parts) (type : TypeId) (args : List ExprId) (location : Location) :
    Emit (List Managed.Expr) := do
  let proto ← prototypeOf type
  let params := (proto.map (·.params)).getD []
  let isVariadic := (proto.map (·.isVariadic)).getD false
  let excess : Emit Unit :=
    malformed "call" location
      (args.length.repr ++ " arguments passed to " ++ params.length.repr ++ " parameters")
  let (declared, further) ← splitArguments parts isVariadic excess params args
  if isVariadic then return declared ++ [.call (.ident "__arglist") further] else return declared

def indirectCall (parts : Parts) (callee : ExprId) (args : List ExprId) (location : Location) :
    Emit Managed.Expr := do
  let function ← parts.value callee
  let args ← callArguments parts (← exprOf callee).type args location
  markPointers
  return .call function args

def receiverOf (parts : Parts) (base : ExprId) (isArrow : Bool) (location : Location) :
    Emit Managed.Expr := do
  let e ← exprOf base
  match e.kind with
  | .thisPointer _ => thisPointer e.type location
  | _ => if isArrow then parts.value base else parts.address base

/-- A call of a member function. A static one has no object; an imported one takes a pointer to it
as its first argument; any other one is a member of it. -/
def methodCall (parts : Parts) (base : ExprId) (id : DeclId) (method : Native.Method)
    (isArrow : Bool) (args : List ExprId) (location : Location) : Emit Managed.Expr := do
  let args ← callArguments parts method.type args location
  if method.isStatic then return .call (← memberReference id) args
  else if !method.isVirtual && method.body.isNone then
    let receiver ← receiverOf parts base isArrow location
    return .call (← memberReference id) (receiver :: args)
  else return .call (← memberOf parts base isArrow id) args

def callRule (parts : Parts) (e : Native.Expr) (callee : ExprId) (args : List ExprId) :
    Emit Managed.Expr := do
  match (← exprOf (← ignoreImplicit callee)).kind with
  | .declRef id =>
    match (← decl id).kind with
    | .function f =>
      importMethodsClass
      let args ← callArguments parts f.type args e.location
      return .call (.ident (← nameOf id)) args
    | .method m =>
      let args ← callArguments parts m.type args e.location
      return .call (← memberReference id) args
    | _ => indirectCall parts callee args e.location
  | .member base id isArrow =>
    match (← decl id).kind with
    | .method m => methodCall parts base id m isArrow args e.location
    | _ => indirectCall parts callee args e.location
  | _ => indirectCall parts callee args e.location

end Interop.Binding
