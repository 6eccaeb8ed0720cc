import Interop.Binding.Stmt
import Interop.Managed.Bindings
import Interop.Native.References

/-!
# Snippets

Single expressions and statements of a tree, as they appear in the body of a method. Here a
construct without a C# form is a failure.
-/

namespace Interop.Binding

open Native (Ast ExprId StmtId)
open Managed (Fragment)

/-- What all steps of a tree read. Every reference in the tree has to lead to a node. -/
def prepare (settings : Settings) (ast : Ast) : Result Env := do
  match ast.firstMissing? with
  | some missing => reject "translation unit" {} missing.fault
  | none => return ⟨ast, settings.toEmissionSettings, ← Symbols.build ast settings⟩

/-- A step of its own, outside of any declaration, and whether it uses pointers. -/
def Emit.alone (m : Emit α) (env : Env) : Result (α × Bool) :=
  ((contained m).run env {}).1

def expressionFragment (settings : Settings) (ast : Ast) (id : ExprId) : Result Fragment := do
  let (e, usesPointers) ← (emitValue id).alone (← prepare settings ast)
  return .expression e.text usesPointers

def statementFragment (settings : Settings) (ast : Ast) (id : StmtId) : Result Fragment := do
  let (s, usesPointers) ← (emitStmt id).alone (← prepare settings ast)
  return .statement s.code.trimmedText usesPointers

end Interop.Binding
