import Interop.Native.Decl
import Interop.Native.Expr
import Interop.Native.Stmt
import Interop.Native.Ty

/-!
# Syntax trees

The syntax tree of one file: four arenas of nodes and the declarations at the top level. Lookups
give `none` for a position outside its arena. Functions that follow a chain of nodes also give
`none` when the chain does not end; they take one unit of fuel per node of the arena, which is
enough for every chain that ends.
-/

namespace Interop.Native

structure Ast where
  file : String
  topLevel : List DeclId := []
  decls : Array Decl := #[]
  stmts : Array Stmt := #[]
  exprs : Array Expr := #[]
  types : Array Ty := #[]
  deriving DecidableEq

namespace Ast

def decl? (ast : Ast) (id : DeclId) : Option Decl :=
  ast.decls[id.index]?

def stmt? (ast : Ast) (id : StmtId) : Option Stmt :=
  ast.stmts[id.index]?

def expr? (ast : Ast) (id : ExprId) : Option Expr :=
  ast.exprs[id.index]?

def type? (ast : Ast) (id : TypeId) : Option Ty :=
  ast.types[id.index]?

def declsWithIds (ast : Ast) : List (DeclId × Decl) :=
  ast.decls.toList.zipIdx.map fun (d, i) => (⟨i⟩, d)

/-! ## Types -/

/-- Looks through typedefs and resolved template instances, one per unit of fuel. -/
def canonicalFrom (ast : Ast) : (fuel : Nat) → TypeId → Option TypeId
  | 0, _ => none
  | fuel + 1, id => do
    match (← ast.type? id).kind with
    | .typedef _ underlying => canonicalFrom ast fuel underlying
    | .specialization _ (some canonical) => canonicalFrom ast fuel canonical
    | _ => some id

def canonical? (ast : Ast) (id : TypeId) : Option TypeId :=
  canonicalFrom ast ast.types.size id

def canonicalKind? (ast : Ast) (id : TypeId) : Option TypeKind := do
  return (← ast.type? (← ast.canonical? id)).kind

/-- The record that a type names; `some none` for a type of another kind. -/
def recordOf? (ast : Ast) (id : TypeId) : Option (Option DeclId) := do
  match ← ast.canonicalKind? id with
  | .record decl => return some decl
  | _ => return none

def pointeeRecord? (ast : Ast) (id : TypeId) : Option (Option DeclId) := do
  match ← ast.canonicalKind? id with
  | .pointer target | .lvalueReference target | .rvalueReference target => ast.recordOf? target
  | _ => return none

/-- The prototype behind a function, a pointer to one, or a typedef of either. -/
def functionProto? (ast : Ast) (id : TypeId) : Option (Option TypeId) := do
  let canonical ← ast.canonical? id
  match (← ast.type? canonical).kind with
  | .function _ => return some canonical
  | .pointer pointee =>
    let target ← ast.canonical? pointee
    match (← ast.type? target).kind with
    | .function _ => return some target
    | _ => return none
  | _ => return none

/-! ## Declarations -/

def declType? (ast : Ast) (id : DeclId) : Option (Option TypeId) := do
  match (← ast.decl? id).kind with
  | .field f => return some f.type
  | .function f => return some f.type
  | .method m => return some m.type
  | .param type => return some type
  | .var v => return some v.type
  | .typedef underlying => return some underlying
  | _ => return none

def recordMembers? (ast : Ast) (id : DeclId) : Option (List DeclId) := do
  match (← ast.decl? id).kind with
  | .record r => return r.members
  | _ => return []

/-! ## Expressions -/

def ignoreImplicitFrom (ast : Ast) : (fuel : Nat) → ExprId → Option ExprId
  | 0, _ => none
  | fuel + 1, id => do
    match (← ast.expr? id).kind with
    | .paren inner => ignoreImplicitFrom ast fuel inner
    | .implicitCast _ operand => ignoreImplicitFrom ast fuel operand
    | _ => some id

def ignoreImplicit? (ast : Ast) (id : ExprId) : Option ExprId :=
  ignoreImplicitFrom ast ast.exprs.size id

end Ast

end Interop.Native
