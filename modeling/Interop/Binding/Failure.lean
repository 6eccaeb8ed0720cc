import Interop.Diagnostic

/-!
# Failures of emission

Why a native construct has no emitted form.
-/

namespace Interop.Binding

inductive Failure where
  /-- There is no faithful C# form. The declaration around the construct is skipped. -/
  | unsupported (u : Unsupported)
  /-- The syntax tree contradicts itself. Nothing is emitted for the whole tree. -/
  | malformed (node : String) (location : Location) (reason : String)
  /-- A reference leads outside the tree, or a chain of references does not end. -/
  | broken
  deriving DecidableEq

namespace Failure

def message : Failure → String
  | .unsupported u => u.message
  | .malformed node location reason =>
    "malformed " ++ node ++ " at " ++ location.display ++ ": " ++ reason
  | .broken => "a reference leads outside the tree"

def diagnostic : Failure → Diagnostic
  | .unsupported u => .ofUnsupported u
  | .malformed node location reason =>
    .malformed ("malformed " ++ node ++ ": " ++ reason) location
  | .broken => .error (message .broken)

end Failure

abbrev Result := Except Failure

def refuse (node : String) (location : Location) (reason : String) : Result α :=
  .error (.unsupported ⟨node, location, reason⟩)

def reject (node : String) (location : Location) (reason : String) : Result α :=
  .error (.malformed node location reason)

/-- A lookup that must succeed in a sound tree. -/
def found : Option α → Result α
  | some a => .ok a
  | none => .error .broken

end Interop.Binding
