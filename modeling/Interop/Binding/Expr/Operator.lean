import Interop.Binding.Expr.Basic

/-!
# Operators

Rules for unary, binary and conditional operators. C# comparisons and logical operators give truth
values, which become integers where the native type asks for them.
-/

namespace Interop.Binding

open Native (ExprId TypeId DeclId ExprKind)
open Emit

def logicalNot (parts : Parts) (operand : ExprId) : Emit Managed.Expr := do
  return .unary .logicalNot (← parts.condition operand)

def promotedOperand (id : ExprId) : Emit (Option ExprId) := do
  match (← exprOf id).kind with
  | .implicitCast .integralCast operand => return some operand
  | _ => return none

/-- The operands of a comparison of two values of one enumeration, without their promotions: C#
compares them as they are. -/
def enumOperands (op : BinaryOp) (lhs rhs : ExprId) : Emit (Option (ExprId × ExprId)) := do
  if !op.isComparison then return none
  let left ← promotedOperand lhs
  let right ← promotedOperand rhs
  match left, right with
  | some left, some right =>
    let a ← enumOf (← exprOf left).type
    let b ← enumOf (← exprOf right).type
    let symbols ← symbols
    match a, b with
    | some a, some b =>
      if symbols.definition a = symbols.definition b then return some (left, right) else return none
    | _, _ => return none
  | _, _ => return none

/-- A binary operator as C# types it: comparisons and logical operators give truth values. -/
def binaryRaw (parts : Parts) (op : BinaryOp) (lhs rhs : ExprId) : Emit Managed.Expr := do
  if op.isLogical then
    return .binary op (← parts.condition lhs) (← parts.condition rhs)
  else
    match ← enumOperands op lhs rhs with
    | some (left, right) => return .binary op (← parts.value left) (← parts.value right)
    | none => return .binary op (← parts.value lhs) (← parts.value rhs)

def binaryRule (parts : Parts) (e : Native.Expr) (op : BinaryOp) (lhs rhs : ExprId) :
    Emit Managed.Expr := do
  if op = .comma then
    unsupported "comma operator" e.location "C# has no sequencing expression"
  else
    let raw ← binaryRaw parts op lhs rhs
    if op.isComparison || op.isLogical then truthAs e.type raw else return raw

/-- The rule for unary operators. The address of a reference is the pointer that stands for it. -/
def unaryRule (parts : Parts) (e : Native.Expr) (op : UnaryOp) (operand : ExprId) :
    Emit Managed.Expr := do
  match op with
  | .logicalNot => truthAs e.type (← logicalNot parts operand)
  | .addressOf =>
    match ← referenceName operand with
    | some name => return .ident name
    | none =>
      markPointers
      return .unary .addressOf (← parts.value operand)
  | _ =>
    markPointersIf (op == .deref)
    return .unary op (← parts.value operand)

def conditionalRule (parts : Parts) (cond thenExpr elseExpr : ExprId) : Emit Managed.Expr := do
  let cond ← parts.condition cond
  let thenExpr ← parts.value thenExpr
  let elseExpr ← parts.value elseExpr
  return .conditional cond thenExpr elseExpr

/-- A value as a truth value: it is compared with zero or null unless it is one already. -/
def comparedRule (value : ExprId → Emit Managed.Expr) (id : ExprId) : Emit Managed.Expr := do
  let type := (← exprOf id).type
  let e ← value id
  if ← isBool type then return e
  else if ← isPointer type then return .binary .ne (.paren e) (.literal "null")
  else return .binary .ne (.paren e) (.literal "0")

/-- An expression as a truth value, where `value` emits the expression itself. Comparisons and
logical operators are truth values already. -/
def conditionRule (parts : Parts) (value : ExprId → Emit Managed.Expr) (id : ExprId) :
    Emit Managed.Expr := do
  match (← exprOf (← ignoreParens id)).kind with
  | .binary op lhs rhs =>
    if op.isComparison || op.isLogical then binaryRaw parts op lhs rhs else comparedRule value id
  | .unary .logicalNot operand => logicalNot parts operand
  | _ => comparedRule value id

end Interop.Binding
