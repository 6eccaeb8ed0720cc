import Interop.Path

/-!
# Source locations

A position in native source, as the front end reported it.
-/

namespace Interop

/-- A position in native source. The numbers are zero where nothing is known. -/
structure Location where
  file : Option String := none
  line : UInt32 := 0
  column : UInt32 := 0
  deriving DecidableEq

namespace Location

def display (l : Location) : String :=
  l.file.getD "<unknown>" ++ ":" ++ l.line.toNat.repr ++ ":" ++ l.column.toNat.repr

/-- The file name without directory or extension, or `unknown`. -/
def fileStem (l : Location) : String :=
  (l.file.bind Path.stem?).getD "unknown"

end Location

end Interop
