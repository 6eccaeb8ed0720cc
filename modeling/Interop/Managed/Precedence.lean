import Interop.Operator

/-!
# Precedence

The precedence levels of C# operators, and printed expressions that remember the level of their
outermost operator. Parentheses follow from the levels alone.
-/

namespace Interop.Managed

/-- Precedence levels, loosest first. -/
inductive Precedence where
  | assignment
  | conditional
  | logicalOr
  | logicalAnd
  | bitOr
  | bitXor
  | bitAnd
  | equality
  | relational
  | shift
  | additive
  | multiplicative
  | unary
  | primary
  deriving DecidableEq

namespace Precedence

def rank : Precedence → Nat
  | .assignment => 0
  | .conditional => 1
  | .logicalOr => 2
  | .logicalAnd => 3
  | .bitOr => 4
  | .bitXor => 5
  | .bitAnd => 6
  | .equality => 7
  | .relational => 8
  | .shift => 9
  | .additive => 10
  | .multiplicative => 11
  | .unary => 12
  | .primary => 13

def ofBinary : BinaryOp → Precedence
  | .mul | .div | .rem => .multiplicative
  | .add | .sub => .additive
  | .shl | .shr => .shift
  | .lt | .le | .gt | .ge => .relational
  | .eq | .ne => .equality
  | .and => .bitAnd
  | .xor => .bitXor
  | .or => .bitOr
  | .logicalAnd => .logicalAnd
  | .logicalOr => .logicalOr
  | _ => .assignment

end Precedence

def parenthesized (s : String) : String :=
  "(" ++ s ++ ")"

structure Piece where
  text : String
  level : Precedence
  deriving DecidableEq

namespace Piece

/-- The text where an operand of level `least` or tighter is expected. -/
def atLeast (p : Piece) (least : Precedence) : String :=
  if p.level.rank < least.rank then parenthesized p.text else p.text

/-- The text where an operand tighter than `level` is expected, such as on the right of an operator
that groups to the left. -/
def above (p : Piece) (level : Precedence) : String :=
  if p.level.rank ≤ level.rank then parenthesized p.text else p.text

end Piece

end Interop.Managed
