import Interop.Binding.Callable

/-!
# Emission of enumerations and variables
-/

namespace Interop.Binding

open Native (DeclId)
open Emit
open Managed (Member EnumMember)

/-! ## Enumerations -/

/-- The digits of a literal that gives a constant its value, as they are spelled. -/
def constantDigits (spelling : String) : String :=
  Text.replaceChar '\'' '_'
    (Text.dropEndWhile (fun c => ['u', 'U', 'l', 'L'].contains c) spelling)

def constantOf (id : DeclId) : Emit (Int64 × Option Managed.Expr) := do
  let d ← decl id
  match d.kind with
  | .constant value none => return (value, none)
  | .constant value (some init) =>
    match (← exprOf (← ignoreImplicit init)).kind with
    | .integer spelling => return (value, some (.literal (constantDigits spelling)))
    | _ => return (value, some (.literal value.toInt.repr))
  | other => malformed "enum constant" d.location ("enum lists a " ++ other.title)

def enumMemberOf (id : DeclId) : Emit EnumMember := do
  let obsolete ← obsoleteAttribute id
  let (_, spelled) ← constantOf id
  return { attrs := obsolete.toList, name := ← nameOf id, value := spelled }

/-- An enumeration. Its underlying type is spelled unless it is the default one. -/
def emitEnum (id : DeclId) : Emit Member := do
  let d ← decl id
  match d.kind with
  | .enum e =>
    let underlying ← mapType e.integerType .field d.location
    let obsolete ← typeObsoleteAttribute id
    let constants ← forEach enumMemberOf e.constants
    return .enum obsolete.toList (← nameOf id)
      (if underlying.name = "int" then none else some underlying.type) constants
  | _ => malformed "enum" d.location "not an enum"

def emitConstant (enumeration id : DeclId) : Emit Member := do
  let d ← decl enumeration
  match d.kind with
  | .enum e =>
    let underlying ← mapType e.integerType .globalVar d.location
    let (value, spelled) ← constantOf id
    let obsolete ← obsoleteAttribute id
    return .field obsolete.toList .const underlying.type (← nameOf id)
      (some (spelled.getD (.literal value.toInt.repr)))
  | _ => malformed "enum" d.location "not an enum"

/-! ## Variables -/

def hasConstants (type : String) : Bool :=
  Managed.isFixedBufferElement type || type = "nint" || type = "nuint"

def emitGlobal (id : DeclId) : Emit Member := do
  let d ← decl id
  match d.kind with
  | .var v =>
    if v.storage = .external && v.init.isNone then
      unsupported "extern variable" d.location "imported data symbols have no DllImport form"
    else
      let mapped ← mapType v.type .globalVar d.location
      let obsolete ← obsoleteAttribute id
      let attrs := mapped.nativeAttribute ++ obsolete.toList
      let name ← nameOf id
      match v.init with
      | some init =>
        let ast ← ast
        let isConst := (← ast.type? v.type).isConst && hasConstants mapped.name
        return .field attrs (if isConst then .const else .static) mapped.type name
          (some (← emitValue init))
      | none =>
        match ← canonicalKind v.type with
        | .constantArray element size =>
          let element ← mapType element .pointee d.location
          return .field attrs .static mapped.type name (some (.newArray element.type size.toNat))
        | _ => return .field attrs .static mapped.type name none
  | _ => malformed "variable" d.location "not a variable"

end Interop.Binding
