import Interop.Binding.Emit

/-!
# Rules for expressions

Each kind of expression has a rule that emits it, given the emission of its parts. The rules are put
together at the end, where the emission of an expression is defined by recursion on its depth.
-/

namespace Interop.Binding

open Native (ExprId TypeId DeclId ExprKind TypeKind Builtin)
open Emit

structure Parts where
  value : ExprId → Emit Managed.Expr
  condition : ExprId → Emit Managed.Expr
  address : ExprId → Emit Managed.Expr

/-! ## Facts about native expressions -/

def exprOf (id : ExprId) : Emit Native.Expr := do
  let ast ← ast
  ast.expr? id

/-- Looks through parentheses, one pair per unit of fuel. -/
def ignoreParensFrom (ast : Native.Ast) : (fuel : Nat) → ExprId → Option ExprId
  | 0, _ => none
  | fuel + 1, id => do
    match (← ast.expr? id).kind with
    | .paren inner => ignoreParensFrom ast fuel inner
    | _ => return id

def ignoreParens (id : ExprId) : Emit ExprId := do
  let ast ← ast
  ignoreParensFrom ast ast.exprs.size id

def ignoreImplicit (id : ExprId) : Emit ExprId := do
  let ast ← ast
  ast.ignoreImplicit? id

def isBool (type : TypeId) : Emit Bool := do
  return (← canonicalKind type) == .builtin .bool

def isVoidType (type : TypeId) : Emit Bool := do
  return (← canonicalKind type) == .builtin .void

def isPointer (type : TypeId) : Emit Bool := do
  match ← canonicalKind type with
  | .pointer _ => return true
  | .builtin kind => return kind == .nullPtr
  | _ => return false

def isUnsigned (type : TypeId) : Emit Bool := do
  match ← canonicalKind type with
  | .builtin kind => return kind.isUnsigned
  | _ => return false

def enumOf (type : TypeId) : Emit (Option DeclId) := do
  match ← canonicalKind type with
  | .enum id => return some id
  | _ => return none

/-- For an integer literal, perhaps with a minus sign in front, whether it has the sign. -/
def literalSign (id : ExprId) : Emit (Option Bool) := do
  match (← exprOf (← ignoreParens id)).kind with
  | .integer _ => return some false
  | .unary .minus operand =>
    match (← exprOf (← ignoreParens operand)).kind with
    | .integer _ => return some true
    | _ => return none
  | _ => return none

def isReferenceDecl (id : DeclId) : Emit Bool := do
  match (← decl id).kind with
  | .param type => isReference type
  | .var v => isReference v.type
  | _ => return false

/-- The name of the reference that an expression reads. The name stands for a pointer. -/
def referenceName (id : ExprId) : Emit (Option String) := do
  match (← exprOf (← ignoreImplicit id)).kind with
  | .declRef target =>
    if ← isReferenceDecl target then return some (← nameOf target) else return none
  | _ => return none

/-! ## Shared forms -/

/-- A truth value where the native type is `type`: an integer unless that is `bool`. -/
def truthAs (type : TypeId) (condition : Managed.Expr) : Emit Managed.Expr := do
  if ← isBool type then return condition else return .ofTruth condition

def castTo (type : TypeId) (operand : Managed.Expr) (location : Location) : Emit Managed.Expr := do
  let mapped ← mapType type .cast location
  return .castTo mapped.type operand

def uncheckedCast (type : TypeId) (operand : Managed.Expr) (location : Location) :
    Emit Managed.Expr := do
  let mapped ← mapType type .cast location
  return .unchecked (.castTo mapped.type operand)

def asPointer (place : Managed.Expr) : Managed.Expr :=
  .call (.namePath "Unsafe" ["AsPointer"]) [.byRef place]

def thisPointer (type : TypeId) (location : Location) : Emit Managed.Expr := do
  let mapped ← mapType type .cast location
  importNamespace compilerServicesNamespace
  return .cast mapped.type (asPointer (.ident "this"))

end Interop.Binding
