import Interop.Location
import Interop.Native.Id
import Interop.Operator

/-!
# Native expressions
-/

namespace Interop.Native

inductive CastKind where
  | lvalueToRValue
  | noOp
  | integralCast
  | integralToBoolean
  | integralToFloating
  | floatingToIntegral
  | floatingToBoolean
  | floatingCast
  | pointerToBoolean
  | pointerToIntegral
  | integralToPointer
  | bitCast
  | nullToPointer
  | arrayToPointerDecay
  | functionToPointerDecay
  | derivedToBase
  | baseToDerived
  | dynamic
  | toVoid
  | other
  deriving DecidableEq

inductive CastStyle where
  | cStyle
  | functional
  | static
  | reinterpret
  | const
  | dynamic
  deriving DecidableEq

inductive ExprKind where
  | integer (spelling : String)
  | floating (spelling : String)
  | character (value : UInt32)
  | string (value : String) (charWidth : UInt8)
  | bool (value : Bool)
  | nullPtr
  | declRef (decl : DeclId)
  | paren (inner : ExprId)
  | unary (op : UnaryOp) (operand : ExprId)
  | binary (op : BinaryOp) (lhs rhs : ExprId)
  | conditional (cond thenExpr elseExpr : ExprId)
  | call (callee : ExprId) (args : List ExprId)
  | member (base : ExprId) (member : DeclId) (isArrow : Bool)
  | subscript (base index : ExprId)
  | implicitCast (kind : CastKind) (operand : ExprId)
  | explicitCast (style : CastStyle) (kind : CastKind) (operand : ExprId)
  | initList (elements : List ExprId)
  | valueInit
  | thisPointer (implicit : Bool)
  | sizeOf (arg : TypeId)
  /-- Anything else, by the name of its kind. -/
  | other (kind : String)
  deriving DecidableEq

structure Expr where
  kind : ExprKind
  type : TypeId
  location : Location := {}
  deriving DecidableEq

def ExprKind.title : ExprKind → String
  | .integer _ => "integer literal"
  | .floating _ => "floating literal"
  | .character _ => "character literal"
  | .string _ _ => "string literal"
  | .bool _ => "bool literal"
  | .nullPtr => "null pointer literal"
  | .declRef _ => "declaration reference"
  | .paren _ => "parenthesized expression"
  | .unary _ _ => "unary operator"
  | .binary _ _ _ => "binary operator"
  | .conditional _ _ _ => "conditional operator"
  | .call _ _ => "call"
  | .member _ _ _ => "member access"
  | .subscript _ _ => "array subscript"
  | .implicitCast _ _ => "implicit cast"
  | .explicitCast _ _ _ => "explicit cast"
  | .initList _ => "initializer list"
  | .valueInit => "implicit value initialization"
  | .thisPointer _ => "this"
  | .sizeOf _ => "sizeof"
  | .other _ => "expression"

end Interop.Native
