import Interop.Diagnostic
import Interop.Managed.Code
import Interop.Settings

/-!
# Emitted bindings

A piece of emitted C# is a fragment. The fragments of one unit, or of several ones, make up the
bindings that a C# file holds, together with the namespaces and static classes that the file
imports.
-/

namespace Interop.Managed

/-! ## Fragments -/

inductive FragmentKind where
  | declaration
  | statement
  | expression
  deriving DecidableEq

inductive Placement where
  | scope
  /-- Inside the static class of functions, variables and constants. -/
  | methods
  deriving DecidableEq

structure Fragment where
  kind : FragmentKind
  name : String
  text : String
  placement : Placement
  usesPointers : Bool
  deriving DecidableEq

namespace Fragment

def declaration (name text : String) (placement : Placement) (usesPointers : Bool) : Fragment where
  kind := .declaration
  name
  text
  placement
  usesPointers

def statement (text : String) (usesPointers : Bool) : Fragment where
  kind := .statement
  name := ""
  text
  placement := .methods
  usesPointers

def expression (text : String) (usesPointers : Bool) : Fragment where
  kind := .expression
  name := ""
  text
  placement := .methods
  usesPointers

def code (f : Fragment) : Code :=
  Code.ofText f.text

end Fragment

/-! ## Sets of names -/

/-- Puts a name in its place in an ordered list without repetitions. -/
def insertName (name : String) : List String → List String
  | [] => [name]
  | other :: rest =>
    if name < other then name :: other :: rest
    else if name = other then other :: rest
    else other :: insertName name rest

def nameSet (names : List String) : List String :=
  names.foldl (fun set name => insertName name set) []

/-! ## Bindings -/

structure Bindings where
  file : String
  fragments : List Fragment
  namespaces : List String
  statics : List String
  diagnostics : List Diagnostic
  deriving DecidableEq

namespace Bindings

def hasErrors (b : Bindings) : Bool :=
  b.diagnostics.any Diagnostic.isError

def placed (b : Bindings) (placement : Placement) : List Fragment :=
  b.fragments.filter (·.placement = placement)

def importsCode (b : Bindings) : Code :=
  let lines :=
    b.namespaces.flatMap (fun name => Code.ofText ("using " ++ name ++ ";")) ++
      b.statics.flatMap (fun name => Code.ofText ("using static " ++ name ++ ";"))
  if lines.isEmpty then [] else lines ++ Code.blank

def methodsCode (b : Bindings) (className : String) : List Code :=
  match b.placed .methods with
  | [] => []
  | methods =>
    let modifiers :=
      if methods.any (·.usesPointers) then "public static unsafe partial" else "public static partial"
    [Code.ofText (modifiers ++ " class " ++ className) ++
      Code.braced (Code.spaced (methods.map Fragment.code))]

def code (b : Bindings) (settings : Settings) : Code :=
  let header :=
    match settings.header with
    | some header => Code.ofText (Text.trimEnd header) ++ Code.blank
    | none => []
  header ++ b.importsCode ++ Code.ofText ("namespace " ++ settings.scope) ++
    Code.braced
      (Code.spaced ((b.placed .scope).map Fragment.code ++ b.methodsCode settings.methodsClass))

def render (b : Bindings) (settings : Settings) : String :=
  (b.code settings).text

/-! ## Several units in one file -/

/-- What tells the declarations of one file apart: the name, and where it stands. -/
def key (f : Fragment) : String × Placement :=
  (f.name, f.placement)

/-- The fragments whose key is not among those seen before; of equal keys the first one is kept. -/
def firstOfEach (seen : List (String × Placement)) : List Fragment → List Fragment
  | [] => []
  | f :: rest =>
    if seen.contains (key f) then firstOfEach seen rest
    else f :: firstOfEach (key f :: seen) rest

/-- Several units as one: a declaration that several of them share is kept once. -/
def merge (units : List Bindings) : Bindings where
  file := Text.joinWith ", " (units.map (·.file))
  fragments := firstOfEach [] (units.flatMap (·.fragments))
  namespaces := nameSet (units.flatMap (·.namespaces))
  statics := nameSet (units.flatMap (·.statics))
  diagnostics := units.flatMap (·.diagnostics)

end Bindings

end Interop.Managed
