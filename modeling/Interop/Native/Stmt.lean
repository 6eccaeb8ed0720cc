import Interop.Location
import Interop.Native.Id

/-!
# Native statements
-/

namespace Interop.Native

inductive StmtKind where
  | compound (children : List StmtId)
  | decls (decls : List DeclId)
  | expr (value : ExprId)
  | ret (value : Option ExprId)
  | ifElse (cond : ExprId) (thenBranch : StmtId) (elseBranch : Option StmtId)
  | whileLoop (cond : ExprId) (body : StmtId)
  | doLoop (body : StmtId) (cond : ExprId)
  | forLoop (init : Option StmtId) (cond inc : Option ExprId) (body : StmtId)
  | switch (cond : ExprId) (body : StmtId)
  | caseLabel (value : ExprId) (body : StmtId)
  | defaultLabel (body : StmtId)
  | breakOut
  | continueLoop
  | empty
  /-- Anything else, by the name of its kind. -/
  | other (kind : String)
  deriving DecidableEq

structure Stmt where
  kind : StmtKind
  location : Location := {}
  deriving DecidableEq

def StmtKind.title : StmtKind → String
  | .compound _ => "compound statement"
  | .decls _ => "declaration statement"
  | .expr _ => "expression statement"
  | .ret _ => "return statement"
  | .ifElse _ _ _ => "if statement"
  | .whileLoop _ _ => "while statement"
  | .doLoop _ _ => "do statement"
  | .forLoop _ _ _ _ => "for statement"
  | .switch _ _ => "switch statement"
  | .caseLabel _ _ => "case label"
  | .defaultLabel _ => "default label"
  | .breakOut => "break statement"
  | .continueLoop => "continue statement"
  | .empty => "null statement"
  | .other _ => "statement"

end Interop.Native
