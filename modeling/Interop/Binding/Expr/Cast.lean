import Interop.Binding.Expr.Basic
import Interop.Managed.Integer

/-!
# Conversions

Rules for implicit and explicit conversions. A conversion is written as a cast only where C# would
not convert by itself.
-/

namespace Interop.Binding

open Native (ExprId TypeId DeclId ExprKind CastKind CastStyle)
open Emit

def castNames (target source : TypeId) (location : Location) : Emit (String × String) := do
  let wanted ← mapType target .cast location
  let given ← mapType source .cast location
  return (wanted.name, given.name)

/-- A conversion between integers, enumerations among them. A literal needs no cast unless it is
negative and the target has no sign. -/
def integralCast (parts : Parts) (target : TypeId) (operand : ExprId) (location : Location) :
    Emit Managed.Expr := do
  let source := (← exprOf operand).type
  let fromTruth := (← isBool source) && !(← isBool target)
  let e ← parts.value operand
  if fromTruth then return .ofTruth e
  let sourceEnum ← enumOf source
  let targetEnum ← enumOf target
  match ← literalSign operand with
  | some negative =>
    if targetEnum.isSome then castTo target e location
    else if negative && (← isUnsigned target) then uncheckedCast target e location
    else return e
  | none =>
    if sourceEnum.isSome || targetEnum.isSome then
      let symbols ← symbols
      if sourceEnum.map symbols.definition = targetEnum.map symbols.definition then return e
      else castTo target e location
    else
      let (wanted, given) ← castNames target source location
      if Managed.convertsImplicitly given wanted then return e else castTo target e location

def hierarchyCast (parts : Parts) (target source : TypeId) (operand : ExprId)
    (location : Location) : Emit Managed.Expr := do
  let e ← parts.value operand
  if ← isPointer target then castTo target e location
  else
    let ast ← ast
    let symbols ← symbols
    let refused : Emit Managed.Expr :=
      unsupported "base conversion" location
        "polymorphic records can only be converted through pointers"
    match ← ast.recordOf? source, ← ast.recordOf? target with
    | some derived, some base =>
      if symbols.isPolymorphic derived then refused
      else
        match ← baseSteps derived base with
        | some hops => return .path e.grouped false (List.replicate hops "Base")
        | none => refused
    | _, _ => refused

/-- An array as a pointer to its first element. A text becomes a pointer to its bytes. -/
def decay (parts : Parts) (target : TypeId) (operand : ExprId) (location : Location) :
    Emit Managed.Expr := do
  let inner ← ignoreParens operand
  match (← exprOf inner).kind with
  | .string _ _ =>
    let literal ← parts.value inner
    let mapped ← mapType target .cast location
    importNamespace compilerServicesNamespace
    importNamespace interopServicesNamespace
    return .cast mapped.type
      (asPointer (.call (.namePath "MemoryMarshal" ["GetReference"]) [literal]))
  | _ => parts.value operand

/-- A number made from an integer; a truth value becomes one or zero. -/
def toFloating (parts : Parts) (source : TypeId) (operand : ExprId) : Emit Managed.Expr := do
  let e ← parts.value operand
  if ← isBool source then return .ofTruth e else return e

def implicitCastRule (parts : Parts) (e : Native.Expr) (kind : CastKind) (operand : ExprId) :
    Emit Managed.Expr := do
  let target := e.type
  let source := (← exprOf operand).type
  match kind with
  | .lvalueToRValue | .noOp => parts.value operand
  | .arrayToPointerDecay => decay parts target operand e.location
  | .functionToPointerDecay =>
    let function ← parts.value operand
    markPointers
    return .unary .addressOf function
  | .integralCast => integralCast parts target operand e.location
  | .integralToBoolean | .floatingToBoolean | .pointerToBoolean => parts.condition operand
  | .integralToFloating => toFloating parts source operand
  | .floatingToIntegral | .pointerToIntegral | .integralToPointer =>
    castTo target (← parts.value operand) e.location
  | .floatingCast =>
    let value ← parts.value operand
    let (wanted, given) ← castNames target source e.location
    if wanted = "float" && given ≠ "float" then castTo target value e.location else return value
  | .bitCast =>
    let value ← parts.value operand
    let (wanted, given) ← castNames target source e.location
    if wanted = given || wanted = "void*" then return value else castTo target value e.location
  | .nullToPointer => return .literal "null"
  | .derivedToBase | .baseToDerived => hierarchyCast parts target source operand e.location
  | .dynamic | .toVoid | .other =>
    unsupported "implicit cast" e.location
      (Native.storedName CastKind.names kind ++ " conversion has no C# equivalent")

/-- A pointer to a base class as a pointer to a derived one, without a check. -/
def dynamicCast (parts : Parts) (target source : TypeId) (operand : ExprId) (location : Location) :
    Emit Managed.Expr := do
  let ast ← ast
  let symbols ← symbols
  let isDowncast ←
    match ← isPointer target, ← ast.pointeeRecord? target, ← ast.pointeeRecord? source with
    | true, some derived, some base =>
      match symbols.isPolymorphic base, symbols.vtable? derived with
      | true, some (.ok _) => pure (← baseSteps derived base).isSome
      | _, _ => pure false
    | _, _, _ => pure false
  if isDowncast then castTo target (← parts.value operand) location
  else
    unsupported "dynamic_cast" location
      ("only pointer downcasts within a single-inheritance polymorphic hierarchy " ++
        "are supported")

/-- A conversion that is written as a cast. A truth value becomes one or zero first; a literal with a
minus sign may wrap around in a target without a sign. -/
def writtenCast (parts : Parts) (target source : TypeId) (operand : ExprId) (location : Location) :
    Emit Managed.Expr := do
  if (← isBool source) && !(← isBool target) then
    let truth := Managed.Expr.ofTruth (← parts.value operand)
    let mapped ← mapType target .cast location
    if mapped.name = "int" then return truth else castTo target truth location
  else if (← isUnsigned target) && (← literalSign operand) == some true then
    uncheckedCast target (← parts.value operand) location
  else castTo target (← parts.value operand) location

def explicitCastRule (parts : Parts) (e : Native.Expr) (style : CastStyle) (kind : CastKind)
    (operand : ExprId) : Emit Managed.Expr := do
  let target := e.type
  let source := (← exprOf operand).type
  match style, kind with
  | .const, _ => parts.value operand
  | .dynamic, _ => dynamicCast parts target source operand e.location
  | _, .toVoid =>
    unsupported "void cast" e.location "discarded values are only supported as statements"
  | _, .integralToBoolean | _, .floatingToBoolean | _, .pointerToBoolean =>
    parts.condition operand
  | _, _ => writtenCast parts target source operand e.location

end Interop.Binding
