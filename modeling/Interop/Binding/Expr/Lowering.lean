import Interop.Binding.Expr.Call
import Interop.Binding.Expr.Cast
import Interop.Binding.Expr.Init
import Interop.Binding.Expr.Operator
import Interop.Binding.Literal

/-!
# Emission of expressions

The rule for each kind of expression, and the emission of expressions by recursion on their depth.
-/

namespace Interop.Binding

open Native (ExprId TypeId ExprKind)
open Emit

/-! ## Literals -/

def integerRule (e : Native.Expr) (spelling : String) : Emit Managed.Expr := do
  match integerBody? spelling with
  | none =>
    malformed "integer literal" e.location ("`" ++ spelling ++ "` is not a valid octal literal")
  | some body =>
    let mapped ← mapType e.type .cast e.location
    return .literal (body ++ integerSuffix mapped.name)

def floatingRule (e : Native.Expr) (spelling : String) : Emit Managed.Expr := do
  let mapped ← mapType e.type .cast e.location
  return .literal (floatingBody spelling ++ if mapped.name = "float" then "f" else "")

def acceptsCharacter (type : String) : Bool :=
  match Managed.IntegerType.ofName? type with
  | some t => type = "char" || 4 ≤ t.rank
  | none => type = "float" || type = "double"

def characterRule (e : Native.Expr) (value : UInt32) : Emit Managed.Expr := do
  let literal := Managed.Expr.literal (Managed.charLiteral value)
  let mapped ← mapType e.type .cast e.location
  if acceptsCharacter mapped.name then return literal
  else return .castTo mapped.type literal

def stringRule (e : Native.Expr) (value : String) (charWidth : UInt8) : Emit Managed.Expr := do
  if charWidth = 1 then return .literal (Managed.stringLiteral value ++ "u8")
  else
    unsupported "string literal" e.location
      "only narrow string literals have a UTF-8 literal form"

def sizeOfRule (e : Native.Expr) (arg : TypeId) : Emit Managed.Expr := do
  let operand ← mapType arg .cast e.location
  markPointersIf (!Managed.isFixedBufferElement operand.name)
  let result ← mapType e.type .cast e.location
  let size := Managed.Expr.sizeOf operand.type
  if result.name = "int" then return size else return .castTo result.type size

/-! ## All kinds -/

def valueRule (parts : Parts) (id : ExprId) : Emit Managed.Expr := do
  let e ← exprOf id
  match e.kind with
  | .integer spelling => integerRule e spelling
  | .floating spelling => floatingRule e spelling
  | .character value => characterRule e value
  | .string value charWidth => stringRule e value charWidth
  | .bool value => return .literal (if value then "true" else "false")
  | .nullPtr => return .literal "null"
  | .declRef target => declRefRule e target
  | .paren inner => return .paren (← parts.value inner)
  | .unary op operand => unaryRule parts e op operand
  | .binary op lhs rhs => binaryRule parts e op lhs rhs
  | .conditional cond thenExpr elseExpr => conditionalRule parts cond thenExpr elseExpr
  | .call callee args => callRule parts e callee args
  | .member base member isArrow => memberRule parts e base member isArrow
  | .subscript base index => subscriptRule parts base index
  | .implicitCast kind operand => implicitCastRule parts e kind operand
  | .explicitCast style kind operand => explicitCastRule parts e style kind operand
  | .initList elements => initListRule parts e elements
  | .valueInit => return .literal "default"
  | .thisPointer _ => thisPointer e.type e.location
  | .sizeOf arg => sizeOfRule e arg
  | .other kind => unsupported kind e.location "no C# expression form"

def partsTo : (depth : Nat) → Parts
  | 0 =>
    let tooDeep : Emit Managed.Expr := ofResult (.error .broken)
    { value := fun _ => tooDeep, condition := fun _ => tooDeep, address := fun _ => tooDeep }
  | depth + 1 =>
    let parts := partsTo depth
    { value := valueRule parts
      condition := conditionRule parts (valueRule parts)
      address := addressRule parts (valueRule parts) }

/-- The emission of the expressions of the tree: none is deeper than there are expressions. -/
def allParts : Emit Parts := do
  return partsTo ((← ast).exprs.size + 1)

def emitValue (id : ExprId) : Emit Managed.Expr := do
  (← allParts).value id

def emitCondition (id : ExprId) : Emit Managed.Expr := do
  (← allParts).condition id

def emitAddress (id : ExprId) : Emit Managed.Expr := do
  (← allParts).address id

end Interop.Binding
