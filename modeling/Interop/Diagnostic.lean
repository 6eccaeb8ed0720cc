import Interop.Location

/-!
# Diagnostics

What the emitter reports to the user, and the marker for a native construct that has no C# form.
-/

namespace Interop

inductive Level where
  | error
  | warning
  | info
  deriving DecidableEq

inductive DiagnosticKind where
  /-- A construct with no faithful C# form; its declaration was skipped. -/
  | unsupported
  /-- A layout that C# cannot express exactly; emitted as well as possible. -/
  | ambiguousLayout
  | malformed
  | other
  deriving DecidableEq

def Level.name : Level → String
  | .error => "error"
  | .warning => "warning"
  | .info => "info"

def DiagnosticKind.name : DiagnosticKind → String
  | .unsupported => "unsupported"
  | .ambiguousLayout => "ambiguous-layout"
  | .malformed => "malformed"
  | .other => "other"

structure Unsupported where
  node : String
  location : Location
  reason : String
  deriving DecidableEq

def Unsupported.message (u : Unsupported) : String :=
  "unsupported " ++ u.node ++ " at " ++ u.location.display ++ ": " ++ u.reason

structure Diagnostic where
  level : Level
  kind : DiagnosticKind
  message : String
  location : Option Location := none
  help : Option String := none
  deriving DecidableEq

namespace Diagnostic

def error (message : String) : Diagnostic :=
  { level := .error, kind := .other, message }

def warning (message : String) : Diagnostic :=
  { level := .warning, kind := .other, message }

def ambiguousLayout (message : String) (location : Location) : Diagnostic :=
  { warning message with kind := .ambiguousLayout, location := some location }

def malformed (message : String) (location : Location) : Diagnostic :=
  { error message with kind := .malformed, location := some location }

def ofUnsupported (u : Unsupported) : Diagnostic :=
  { level := .error
    kind := .unsupported
    message := "unsupported " ++ u.node ++ ": " ++ u.reason
    location := some u.location
    help := some "the enclosing declaration was skipped" }

def isError (d : Diagnostic) : Bool :=
  d.level == .error

end Diagnostic

end Interop
