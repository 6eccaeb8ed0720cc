import Interop.Datum
import Interop.Json.Decode
import Interop.Native.Decl
import Interop.Native.Expr
import Interop.Native.Ty

/-!
# Stored names

The types of a syntax tree whose values have no contents, and the name under which each value is
stored. One table serves reading and writing.
-/

namespace Interop.Native

def storedName [DecidableEq α] (table : List (String × α)) (a : α) : String :=
  ((table.find? (·.2 == a)).map (·.1)).getD ""

def Builtin.names : List (String × Builtin) :=
  [("Void", .void), ("Bool", .bool), ("CharS", .charS), ("CharU", .charU), ("SChar", .sChar),
   ("UChar", .uChar), ("WChar", .wChar), ("Char8", .char8), ("Char16", .char16),
   ("Char32", .char32), ("Short", .short), ("UShort", .uShort), ("Int", .int), ("UInt", .uInt),
   ("Long", .long), ("ULong", .uLong), ("LongLong", .longLong), ("ULongLong", .uLongLong),
   ("Int128", .int128), ("UInt128", .uInt128), ("Half", .half), ("Float", .float),
   ("Double", .double), ("LongDouble", .longDouble), ("NullPtr", .nullPtr)]

def Convention.names : List (String × Convention) :=
  [("C", .c), ("StdCall", .stdCall), ("FastCall", .fastCall), ("ThisCall", .thisCall),
   ("VectorCall", .vectorCall), ("Win64", .win64), ("SysV", .sysV), ("Other", .other)]

def RecordTag.names : List (String × RecordTag) :=
  [("Struct", .struct), ("Class", .klass), ("Union", .union)]

def Linkage.names : List (String × Linkage) :=
  [("C", .c), ("Cxx", .cxx), ("Internal", .internal)]

def Storage.names : List (String × Storage) :=
  [("None", .unspecified), ("Static", .static), ("Extern", .external)]

def Access.names : List (String × Access) :=
  [("Public", .pub), ("Protected", .prot), ("Private", .priv)]

def binaryOpNames : List (String × BinaryOp) :=
  [("Add", .add), ("Sub", .sub), ("Mul", .mul), ("Div", .div), ("Rem", .rem), ("And", .and),
   ("Or", .or), ("Xor", .xor), ("Shl", .shl), ("Shr", .shr), ("Eq", .eq), ("Ne", .ne), ("Lt", .lt),
   ("Le", .le), ("Gt", .gt), ("Ge", .ge), ("LAnd", .logicalAnd), ("LOr", .logicalOr),
   ("Assign", .assign), ("AddAssign", .addAssign), ("SubAssign", .subAssign),
   ("MulAssign", .mulAssign), ("DivAssign", .divAssign), ("RemAssign", .remAssign),
   ("AndAssign", .andAssign), ("OrAssign", .orAssign), ("XorAssign", .xorAssign),
   ("ShlAssign", .shlAssign), ("ShrAssign", .shrAssign), ("Comma", .comma)]

def unaryOpNames : List (String × UnaryOp) :=
  [("PreInc", .preInc), ("PreDec", .preDec), ("PostInc", .postInc), ("PostDec", .postDec),
   ("AddrOf", .addressOf), ("Deref", .deref), ("Plus", .plus), ("Minus", .minus),
   ("Not", .complement), ("LNot", .logicalNot)]

def CastKind.names : List (String × CastKind) :=
  [("LValueToRValue", .lvalueToRValue), ("NoOp", .noOp), ("IntegralCast", .integralCast),
   ("IntegralToBoolean", .integralToBoolean), ("IntegralToFloating", .integralToFloating),
   ("FloatingToIntegral", .floatingToIntegral), ("FloatingToBoolean", .floatingToBoolean),
   ("FloatingCast", .floatingCast), ("PointerToBoolean", .pointerToBoolean),
   ("PointerToIntegral", .pointerToIntegral), ("IntegralToPointer", .integralToPointer),
   ("BitCast", .bitCast), ("NullToPointer", .nullToPointer),
   ("ArrayToPointerDecay", .arrayToPointerDecay),
   ("FunctionToPointerDecay", .functionToPointerDecay), ("DerivedToBase", .derivedToBase),
   ("BaseToDerived", .baseToDerived), ("Dynamic", .dynamic), ("ToVoid", .toVoid),
   ("Other", .other)]

def CastStyle.names : List (String × CastStyle) :=
  [("CStyle", .cStyle), ("Functional", .functional), ("Static", .static),
   ("Reinterpret", .reinterpret), ("Const", .const), ("Dynamic", .dynamic)]

def describeName [DecidableEq α] (table : List (String × α)) (a : α) : Datum :=
  .bare (storedName table a)

end Interop.Native
