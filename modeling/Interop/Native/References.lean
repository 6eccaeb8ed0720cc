import Interop.Native.Ast

/-!
# References between nodes

Every node lists the positions it refers to. A syntax tree is valid when all of them lie inside
their arenas; the first one that does not names the fault.
-/

namespace Interop.Native

inductive Ref where
  | decl (id : DeclId)
  | stmt (id : StmtId)
  | expr (id : ExprId)
  | type (id : TypeId)
  deriving DecidableEq

def DeclKind.refs : DeclKind → List Ref
  | .scope decls => decls.map .decl
  | .linkageSpec _ decls => decls.map .decl
  | .record r => r.bases.map (fun b => .type b.type) ++ r.members.map .decl
  | .field f => [.type f.type]
  | .enum e => .type e.integerType :: e.constants.map .decl
  | .constant _ init => init.toList.map .expr
  | .function f => .type f.type :: f.params.map .decl ++ f.body.toList.map .stmt
  | .method m => .type m.type :: m.params.map .decl ++ m.body.toList.map .stmt
  | .constructor params body => params.map .decl ++ body.toList.map .stmt
  | .destructor _ body => body.toList.map .stmt
  | .param type => [.type type]
  | .var v => .type v.type :: v.init.toList.map .expr
  | .typedef underlying => [.type underlying]
  | .other _ => []

def StmtKind.refs : StmtKind → List Ref
  | .compound children => children.map .stmt
  | .decls ds => ds.map .decl
  | .expr value => [.expr value]
  | .ret value => value.toList.map .expr
  | .ifElse cond thenBranch elseBranch =>
    [.expr cond, .stmt thenBranch] ++ elseBranch.toList.map .stmt
  | .whileLoop cond body => [.expr cond, .stmt body]
  | .doLoop body cond => [.expr cond, .stmt body]
  | .forLoop init cond inc body =>
    init.toList.map .stmt ++ cond.toList.map .expr ++ inc.toList.map .expr ++ [.stmt body]
  | .switch cond body => [.expr cond, .stmt body]
  | .caseLabel value body => [.expr value, .stmt body]
  | .defaultLabel body => [.stmt body]
  | .breakOut | .continueLoop | .empty | .other _ => []

def ExprKind.refs : ExprKind → List Ref
  | .declRef decl => [.decl decl]
  | .paren inner => [.expr inner]
  | .unary _ operand => [.expr operand]
  | .binary _ lhs rhs => [.expr lhs, .expr rhs]
  | .conditional cond thenExpr elseExpr => [.expr cond, .expr thenExpr, .expr elseExpr]
  | .call callee args => .expr callee :: args.map .expr
  | .member base target _ => [.expr base, .decl target]
  | .subscript base index => [.expr base, .expr index]
  | .implicitCast _ operand => [.expr operand]
  | .explicitCast _ _ operand => [.expr operand]
  | .initList elements => elements.map .expr
  | .sizeOf arg => [.type arg]
  | .integer _ | .floating _ | .character _ | .string _ _ | .bool _ | .nullPtr | .valueInit
  | .thisPointer _ | .other _ => []

def TypeKind.refs : TypeKind → List Ref
  | .pointer target | .lvalueReference target | .rvalueReference target => [.type target]
  | .constantArray element _ => [.type element]
  | .incompleteArray element => [.type element]
  | .function proto => .type proto.result :: proto.params.map .type
  | .record decl => [.decl decl]
  | .enum decl => [.decl decl]
  | .typedef decl underlying => [.decl decl, .type underlying]
  | .specialization _ canonical => canonical.toList.map .type
  | .builtin _ | .unexposed => []

structure Reference where
  holder : String
  target : Ref
  deriving DecidableEq

def holderName (category : String) (index : Nat) (detail : String) : String :=
  category ++ " #" ++ index.repr ++ " (" ++ detail ++ ")"

namespace Ast

def arenaReferences (category : String) (detail : α → String) (refs : α → List Ref)
    (nodes : Array α) : List Reference :=
  nodes.toList.zipIdx.flatMap fun (node, i) =>
    (refs node).map (⟨holderName category i (detail node), ·⟩)

/-- All references of a syntax tree, in the order in which they are checked. -/
def references (ast : Ast) : List Reference :=
  ast.topLevel.map (fun id => ⟨"translation unit", .decl id⟩) ++
  arenaReferences "declaration" (·.kind.title)
    (fun d => d.parent.toList.map .decl ++ d.kind.refs) ast.decls ++
  arenaReferences "statement" (·.kind.title) (·.kind.refs) ast.stmts ++
  arenaReferences "expression" (·.kind.title) (fun e => .type e.type :: e.kind.refs) ast.exprs ++
  arenaReferences "type" (·.spelling) (·.kind.refs) ast.types

def inRange (ast : Ast) : Ref → Bool
  | .decl id => id.index < ast.decls.size
  | .stmt id => id.index < ast.stmts.size
  | .expr id => id.index < ast.exprs.size
  | .type id => id.index < ast.types.size

/-- A syntax tree is valid when all its references lie inside their arenas. -/
def Valid (ast : Ast) : Prop :=
  ∀ r ∈ ast.references, ast.inRange r.target = true

instance (ast : Ast) : Decidable ast.Valid :=
  inferInstanceAs (Decidable (∀ r ∈ ast.references, ast.inRange r.target = true))

def firstMissing? (ast : Ast) : Option Reference :=
  ast.references.find? fun r => !ast.inRange r.target

end Ast

def Ref.title : Ref → String
  | .decl id => "declaration #" ++ id.index.repr
  | .stmt id => "statement #" ++ id.index.repr
  | .expr id => "expression #" ++ id.index.repr
  | .type id => "type #" ++ id.index.repr

def Reference.fault (r : Reference) : String :=
  r.holder ++ " references missing " ++ r.target.title

end Interop.Native
