/-!
# Builtin types

The primitive types of C and C++ as a front end classifies them.
-/

namespace Interop.Native

inductive Builtin where
  | void
  | bool
  | charS
  /-- Plain `char` where it is unsigned. -/
  | charU
  | sChar | uChar
  | wChar | char8 | char16 | char32
  | short | uShort
  | int | uInt
  | long | uLong
  | longLong | uLongLong
  | int128 | uInt128
  | half | float | double | longDouble
  | nullPtr
  deriving DecidableEq

namespace Builtin

def isSigned : Builtin → Bool
  | .charS | .sChar | .short | .int | .long | .longLong | .int128 => true
  | _ => false

/-- Whether values are integers without a sign. A `wchar_t` counts as one: whether it has a sign
depends on the target, which reports only its size. -/
def isUnsigned : Builtin → Bool
  | .charU | .uChar | .wChar | .char8 | .char16 | .char32
  | .uShort | .uInt | .uLong | .uLongLong | .uInt128 => true
  | _ => false

def isInteger (b : Builtin) : Bool :=
  b.isSigned || b.isUnsigned

def isFloating : Builtin → Bool
  | .half | .float | .double | .longDouble => true
  | _ => false

/-- Size in bytes where `long` and pointers have 64 bits, for a type whose size is not given. -/
def defaultSize : Builtin → UInt64
  | .void => 0
  | .bool | .charS | .charU | .sChar | .uChar | .char8 => 1
  | .short | .uShort | .char16 | .half => 2
  | .int | .uInt | .wChar | .char32 | .float => 4
  | .long | .uLong | .longLong | .uLongLong | .double | .nullPtr => 8
  | .int128 | .uInt128 | .longDouble => 16

def spelling : Builtin → String
  | .void => "void"
  | .bool => "bool"
  | .charS | .charU => "char"
  | .sChar => "signed char"
  | .uChar => "unsigned char"
  | .wChar => "wchar_t"
  | .char8 => "char8_t"
  | .char16 => "char16_t"
  | .char32 => "char32_t"
  | .short => "short"
  | .uShort => "unsigned short"
  | .int => "int"
  | .uInt => "unsigned int"
  | .long => "long"
  | .uLong => "unsigned long"
  | .longLong => "long long"
  | .uLongLong => "unsigned long long"
  | .int128 => "__int128"
  | .uInt128 => "unsigned __int128"
  | .half => "__fp16"
  | .float => "float"
  | .double => "double"
  | .longDouble => "long double"
  | .nullPtr => "std::nullptr_t"

end Builtin

end Interop.Native
