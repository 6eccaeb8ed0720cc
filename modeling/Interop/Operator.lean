/-!
# Operators

The operators that native expressions use. C# has the same ones, under the same symbols.
-/

namespace Interop

inductive BinaryOp where
  | add | sub | mul | div | rem
  | and | or | xor | shl | shr
  | eq | ne | lt | le | gt | ge
  | logicalAnd | logicalOr
  | assign
  | addAssign | subAssign | mulAssign | divAssign | remAssign
  | andAssign | orAssign | xorAssign | shlAssign | shrAssign
  | comma
  deriving DecidableEq

inductive UnaryOp where
  | preInc | preDec | postInc | postDec
  | addressOf | deref
  | plus | minus
  | complement
  | logicalNot
  deriving DecidableEq

namespace BinaryOp

def symbol : BinaryOp → String
  | .add => "+"
  | .sub => "-"
  | .mul => "*"
  | .div => "/"
  | .rem => "%"
  | .and => "&"
  | .or => "|"
  | .xor => "^"
  | .shl => "<<"
  | .shr => ">>"
  | .eq => "=="
  | .ne => "!="
  | .lt => "<"
  | .le => "<="
  | .gt => ">"
  | .ge => ">="
  | .logicalAnd => "&&"
  | .logicalOr => "||"
  | .assign => "="
  | .addAssign => "+="
  | .subAssign => "-="
  | .mulAssign => "*="
  | .divAssign => "/="
  | .remAssign => "%="
  | .andAssign => "&="
  | .orAssign => "|="
  | .xorAssign => "^="
  | .shlAssign => "<<="
  | .shrAssign => ">>="
  | .comma => ","

def isAssignment : BinaryOp → Bool
  | .assign | .addAssign | .subAssign | .mulAssign | .divAssign | .remAssign
  | .andAssign | .orAssign | .xorAssign | .shlAssign | .shrAssign => true
  | _ => false

def isLogical : BinaryOp → Bool
  | .logicalAnd | .logicalOr => true
  | _ => false

def isComparison : BinaryOp → Bool
  | .eq | .ne | .lt | .le | .gt | .ge => true
  | _ => false

end BinaryOp

namespace UnaryOp

def symbol : UnaryOp → String
  | .preInc | .postInc => "++"
  | .preDec | .postDec => "--"
  | .addressOf => "&"
  | .deref => "*"
  | .plus => "+"
  | .minus => "-"
  | .complement => "~"
  | .logicalNot => "!"

def isSuffix : UnaryOp → Bool
  | .postInc | .postDec => true
  | _ => false

end UnaryOp

end Interop
