import Interop.Diagnostic
import Interop.Native.Id

/-!
# The context of emission

What emission steps share while a tree is emitted: the imports and reports collected so far, and
three stacks of open scopes. A declaration that is skipped is undone by a checkpoint: imports are
restored as they were, and reports and stacks are cut back to the length they had.
-/

namespace Interop.Binding

open Native (DeclId TypeId)

/-- The state that emission steps share. The innermost scope of a stack stands first. -/
structure Context where
  namespaces : List String := []
  statics : List String := []
  diagnostics : List Diagnostic := []
  records : List DeclId := []
  returnTypes : List TypeId := []
  pointerScopes : List Bool := []

structure Scope where
  record : Option DeclId := none
  returnType : Option TypeId := none

/-- What a step adds to the context it works in. -/
structure Effects where
  namespaces : List String := []
  statics : List String := []
  diagnostics : List Diagnostic := []
  pointers : Bool := false

def Effects.append (a b : Effects) : Effects where
  namespaces := a.namespaces ++ b.namespaces
  statics := a.statics ++ b.statics
  diagnostics := a.diagnostics ++ b.diagnostics
  pointers := a.pointers || b.pointers

instance : Append Effects := ⟨Effects.append⟩

/-- The innermost scope uses pointers if the flag is set; outside of all scopes nothing is noted. -/
def markInnermost (flag : Bool) : List Bool → List Bool
  | [] => []
  | innermost :: rest => (innermost || flag) :: rest

def outermost (depth : Nat) (stack : List α) : List α :=
  stack.drop (stack.length - depth)

namespace Context

def scope (c : Context) : Scope :=
  ⟨c.records.head?, c.returnTypes.head?⟩

def after (c : Context) (e : Effects) : Context :=
  { c with
    namespaces := c.namespaces ++ e.namespaces
    statics := c.statics ++ e.statics
    diagnostics := c.diagnostics ++ e.diagnostics
    pointerScopes := markInnermost e.pointers c.pointerScopes }

/-! ## Scopes -/

def enterRecord (c : Context) (record : DeclId) : Context :=
  { c with records := record :: c.records }

def leaveRecord (c : Context) : Context :=
  { c with records := c.records.tail }

def enterFunction (c : Context) (type : TypeId) : Context :=
  { c with returnTypes := type :: c.returnTypes }

def leaveFunction (c : Context) : Context :=
  { c with returnTypes := c.returnTypes.tail }

def enterPointerScope (c : Context) : Context :=
  { c with pointerScopes := false :: c.pointerScopes }

def leavePointerScope (c : Context) : Context :=
  { c with pointerScopes := c.pointerScopes.tail }

def usesPointers (c : Context) : Bool :=
  c.pointerScopes.head?.getD false

/-! ## Checkpoints -/

/-- What a context is restored from: its imports, and how much there is of the rest. -/
structure Checkpoint where
  namespaces : List String
  statics : List String
  reported : Nat
  recordDepth : Nat
  functionDepth : Nat
  pointerDepth : Nat

def checkpoint (c : Context) : Checkpoint where
  namespaces := c.namespaces
  statics := c.statics
  reported := c.diagnostics.length
  recordDepth := c.records.length
  functionDepth := c.returnTypes.length
  pointerDepth := c.pointerScopes.length

/-- The context without what was recorded since the checkpoint and the scopes opened since then. -/
def rollback (c : Context) (k : Checkpoint) : Context where
  namespaces := k.namespaces
  statics := k.statics
  diagnostics := c.diagnostics.take k.reported
  records := outermost k.recordDepth c.records
  returnTypes := outermost k.functionDepth c.returnTypes
  pointerScopes := outermost k.pointerDepth c.pointerScopes

end Context

/-! ## Laws -/

@[simp] theorem markInnermost_cons (flag innermost : Bool) (rest : List Bool) :
    markInnermost flag (innermost :: rest) = (innermost || flag) :: rest := rfl

@[simp] theorem markInnermost_false (stack : List Bool) : markInnermost false stack = stack := by
  cases stack <;> simp [markInnermost]

@[simp] theorem markInnermost_markInnermost (a b : Bool) (stack : List Bool) :
    markInnermost b (markInnermost a stack) = markInnermost (a || b) stack := by
  cases stack <;> simp [markInnermost, Bool.or_assoc]

@[simp] theorem length_markInnermost (flag : Bool) (stack : List Bool) :
    (markInnermost flag stack).length = stack.length := by
  cases stack <;> simp [markInnermost]

/-- Nothing is cut off a stack that did not grow. -/
theorem outermost_of_length_eq {depth : Nat} {stack : List α} (h : stack.length = depth) :
    outermost depth stack = stack := by
  simp [outermost, h]

@[simp] theorem Effects.mk_append_mk (n n' s s' : List String) (d d' : List Diagnostic)
    (p p' : Bool) :
    (Effects.mk n s d p ++ Effects.mk n' s' d' p') =
      Effects.mk (n ++ n') (s ++ s') (d ++ d') (p || p') := rfl

namespace Context

@[simp] theorem scope_after (c : Context) (e : Effects) : (c.after e).scope = c.scope := rfl

@[simp] theorem after_empty (c : Context) : c.after {} = c := by
  simp [after]

theorem after_append (c : Context) (a b : Effects) : (c.after a).after b = c.after (a ++ b) := by
  change _ = c.after (a.append b)
  simp [after, Effects.append]

@[simp] theorem scope_enterRecord (c : Context) (record : DeclId) :
    (c.enterRecord record).scope = { c.scope with record := some record } := rfl

@[simp] theorem scope_enterFunction (c : Context) (type : TypeId) :
    (c.enterFunction type).scope = { c.scope with returnType := some type } := rfl

@[simp] theorem scope_enterPointerScope (c : Context) : c.enterPointerScope.scope = c.scope := rfl

theorem usesPointers_after_enterPointerScope (c : Context) (e : Effects) :
    (c.enterPointerScope.after e).usesPointers = e.pointers := by
  simp [enterPointerScope, after, usesPointers]

theorem leavePointerScope_after_enterPointerScope (c : Context) (e : Effects) :
    (c.enterPointerScope.after e).leavePointerScope = c.after { e with pointers := false } := by
  simp [enterPointerScope, after, leavePointerScope]

/-- Going back to a checkpoint undoes all effects but the mark on the innermost pointer scope, which
was open at the checkpoint already. -/
theorem rollback_after_checkpoint (c : Context) (e : Effects) :
    (c.after e).rollback c.checkpoint = c.after { pointers := e.pointers } := by
  simp [after, rollback, checkpoint, outermost_of_length_eq]

end Context

end Interop.Binding
