import Interop.Managed.Code
import Interop.Managed.Precedence
import Interop.Managed.TypeName

/-!
# C# expressions

An expression is a tree; its text follows from the precedence of its operators. A tree keeps the
parentheses that the native source spelled as nodes of their own.
-/

namespace Interop.Managed

inductive Expr where
  | literal (text : String)
  | ident (name : String)
  | paren (inner : Expr)
  | unary (op : UnaryOp) (operand : Expr)
  | binary (op : BinaryOp) (lhs rhs : Expr)
  | conditional (cond thenExpr elseExpr : Expr)
  | cast (type : TypeName) (operand : Expr)
  /-- A constant expression that may wrap around. -/
  | unchecked (inner : Expr)
  | call (callee : Expr) (args : List Expr)
  | member (object : Expr) (isArrow : Bool) (name : String)
  | subscript (base index : Expr)
  | byRef (inner : Expr)
  | sizeOf (type : TypeName)
  | newArray (element : TypeName) (size : Nat)
  | arrayOf (element : TypeName) (size : Nat) (items : List Expr)
  | newObject (type : TypeName)
  | objectOf (type : TypeName) (fields : List (String × Expr))

namespace Expr

/-- The symbols whose operand must not start with a sign, since the two would fuse. -/
def fusesWithSign : UnaryOp → Bool
  | .plus | .minus | .preInc | .preDec => true
  | _ => false

def unaryPiece (op : UnaryOp) (operand : Piece) : Piece :=
  if op.isSuffix then ⟨operand.atLeast .primary ++ op.symbol, .primary⟩
  else
    let inner := operand.atLeast .unary
    let fuses := fusesWithSign op && Text.startsWith (fun c => c = '+' || c = '-') inner
    ⟨op.symbol ++ (if fuses then parenthesized inner else inner), .unary⟩

/-- A binary operator and its printed operands. An assignment groups to the right and has a unary
expression on its left; all others group to the left. -/
def binaryPiece (op : BinaryOp) (lhs rhs : Piece) : Piece :=
  let level := Precedence.ofBinary op
  if op.isAssignment then
    ⟨lhs.atLeast .unary ++ " " ++ op.symbol ++ " " ++ rhs.text, .assignment⟩
  else ⟨lhs.atLeast level ++ " " ++ op.symbol ++ " " ++ rhs.above level, level⟩

def listing (heading : String) (entries : List String) : String :=
  Code.trimmedText
    (Code.ofText heading ++ Code.braced (entries.flatMap fun entry => Code.ofText (entry ++ ",")))

mutual

def piece : Expr → Piece
  | .literal text => ⟨text, .primary⟩
  | .ident name => ⟨name, .primary⟩
  | .paren inner => ⟨parenthesized inner.piece.text, .primary⟩
  | .unary op operand => unaryPiece op operand.piece
  | .binary op lhs rhs => binaryPiece op lhs.piece rhs.piece
  | .conditional cond thenExpr elseExpr =>
    ⟨cond.piece.above .conditional ++ " ? " ++ thenExpr.piece.atLeast .conditional ++ " : " ++
      elseExpr.piece.atLeast .conditional, .conditional⟩
  | .cast type operand => ⟨parenthesized type.text ++ operand.piece.atLeast .unary, .unary⟩
  | .unchecked inner => ⟨"unchecked" ++ parenthesized inner.piece.text, .primary⟩
  | .call callee args =>
    ⟨callee.piece.atLeast .primary ++ parenthesized (Text.joinWith ", " (texts args)), .primary⟩
  | .member object isArrow name =>
    ⟨object.piece.atLeast .primary ++ (if isArrow then "->" else ".") ++ name, .primary⟩
  | .subscript base index =>
    ⟨base.piece.atLeast .primary ++ "[" ++ index.piece.text ++ "]", .primary⟩
  | .byRef inner => ⟨"ref " ++ inner.piece.text, .assignment⟩
  | .sizeOf type => ⟨"sizeof" ++ parenthesized type.text, .primary⟩
  | .newArray element size => ⟨"new " ++ element.text ++ "[" ++ size.repr ++ "]", .primary⟩
  | .arrayOf element size items =>
    ⟨listing ("new " ++ element.text ++ "[" ++ size.repr ++ "]") (texts items), .primary⟩
  | .newObject type => ⟨"new " ++ type.text ++ "()", .primary⟩
  | .objectOf type fields => ⟨listing ("new " ++ type.text) (fieldTexts fields), .primary⟩

def texts : List Expr → List String
  | [] => []
  | e :: rest => e.piece.text :: texts rest

def fieldTexts : List (String × Expr) → List String
  | [] => []
  | (name, e) :: rest => (name ++ " = " ++ e.piece.text) :: fieldTexts rest

end

def text (e : Expr) : String :=
  e.piece.text

def level (e : Expr) : Precedence :=
  e.piece.level

def grouped (e : Expr) : Expr :=
  if e.level = .primary then e else .paren e

/-- A chain of members behind an object, the first one through a pointer if `isArrow`. -/
def path (object : Expr) (isArrow : Bool) : List String → Expr
  | [] => object
  | name :: rest => path (.member object isArrow name) false rest

def namePath (first : String) (rest : List String) : Expr :=
  path (.ident first) false rest

def ofTruth (condition : Expr) : Expr :=
  .conditional condition.grouped (.literal "1") (.literal "0")

def castTo (type : TypeName) (operand : Expr) : Expr :=
  .cast type (.paren operand)

end Expr

end Interop.Managed
