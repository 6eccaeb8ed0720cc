import Interop.Json.Decode
import Interop.Text.Basic

/-!
# Settings

What steers the emitted code: names, the imported library, and which declarations are left out or
renamed.
-/

namespace Interop

structure EmissionSettings where
  /-- The namespace around every emitted declaration. -/
  scope : String := "Sharpen.Interop"
  library : String := "native"
  /-- The static class that holds functions, globals and constants. -/
  methodsClass : String := "Methods"
  entryPoints : List (String × String) := []
  deriving DecidableEq

def EmissionSettings.entryPoint? (s : EmissionSettings) (name : String) : Option String :=
  s.entryPoints.lookup name

structure Settings extends EmissionSettings where
  header : Option String := none
  exclude : List String := []
  remap : List (String × String) := []
  deriving DecidableEq

inductive SettingsFault where
  | scope (name : String)
  | methodsClass (name : String)
  | noLibrary
  | remap (name managed : String)
  deriving DecidableEq

def SettingsFault.message : SettingsFault → String
  | .scope name =>
    "Config validation error: namespace `" ++ name ++ "` is not a dotted C# identifier"
  | .methodsClass name =>
    "Config validation error: methods-class `" ++ name ++ "` is not a C# identifier"
  | .noLibrary => "Config validation error: library must not be empty"
  | .remap name managed =>
    "Config validation error: remap target `" ++ managed ++ "` for `" ++ name ++
      "` is not a C# identifier"

def isPlainIdentifier (s : String) : Bool :=
  match s.toList with
  | [] => false
  | c :: rest => (c = '_' || c.isAlpha) && rest.all fun c => c = '_' || c.isAlphanum

namespace Settings

def fault? (s : Settings) : Option SettingsFault :=
  if !(Text.split '.' s.scope).all isPlainIdentifier then some (.scope s.scope)
  else if !isPlainIdentifier s.methodsClass then some (.methodsClass s.methodsClass)
  else if s.library = "" then some .noLibrary
  else (s.remap.find? fun (_, managed) => !isPlainIdentifier managed).map fun (name, managed) =>
    .remap name managed

def excludes (s : Settings) (name : String) : Bool :=
  s.exclude.contains name

def remapped (s : Settings) (name : String) : String :=
  (s.remap.lookup name).getD name

/-! ## Stored settings -/

def readTable : Json → Option (List (String × String))
  | .obj fields => fields.mapM fun (key, value) => do return (← key, ← Json.asText value)
  | _ => none

def read (v : Json) : Option Settings := do
  let s ← Json.slots
    ["namespace", "library", "methods-class", "header", "exclude", "remap", "entry-points"] v
  let initial : Settings := {}
  return {
    scope := ← s.orElse "namespace" initial.scope Json.asText
    library := ← s.orElse "library" initial.library Json.asText
    methodsClass := ← s.orElse "methods-class" initial.methodsClass Json.asText
    header := ← s.orElse "header" none (Json.asOption Json.asText)
    exclude := ← s.orElse "exclude" [] (Json.asList Json.asText)
    remap := ← s.orElse "remap" [] readTable
    entryPoints := ← s.orElse "entry-points" [] readTable }

end Settings

end Interop
