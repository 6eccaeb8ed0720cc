/-!
# C# integer types

Which integer types C# converts into which without a cast.
-/

namespace Interop.Managed

/-- An integer type: whether it has a sign, and its rank by width. Integers of the size of a pointer
rank between those of four and of eight bytes. -/
structure IntegerType where
  signed : Bool
  rank : Nat
  deriving DecidableEq

namespace IntegerType

def table : List (String × IntegerType) :=
  [("sbyte", ⟨true, 1⟩), ("byte", ⟨false, 1⟩), ("short", ⟨true, 2⟩), ("ushort", ⟨false, 2⟩),
   ("char", ⟨false, 2⟩), ("int", ⟨true, 4⟩), ("uint", ⟨false, 4⟩), ("nint", ⟨true, 6⟩),
   ("nuint", ⟨false, 6⟩), ("long", ⟨true, 8⟩), ("ulong", ⟨false, 8⟩)]

def ofName? (name : String) : Option IntegerType :=
  table.lookup name

/-- Bits of storage, where an integer of the size of a pointer has 64. -/
def bits (t : IntegerType) : Nat :=
  if t.rank = 6 then 64 else t.rank * 8

end IntegerType

/-- Whether C# converts between two integer types without a cast. A character becomes an integer of
four bytes or more, and nothing becomes a character. -/
def convertsImplicitly (source target : String) : Bool :=
  if source = target then true
  else if target = "char" then false
  else
    match IntegerType.ofName? source, IntegerType.ofName? target with
    | some s, some t =>
      if source = "char" then 4 ≤ t.rank
      else if (source = "uint" && target = "nint") || (source = "nuint" && t.signed) then false
      else if s.signed = t.signed then s.rank ≤ t.rank
      else !s.signed && s.rank < t.rank
    | _, _ => false

def isFixedBufferElement (name : String) : Bool :=
  ["bool", "byte", "char", "short", "int", "long", "sbyte", "ushort", "uint", "ulong", "float",
   "double"].contains name

end Interop.Managed
