/-!
# Node identities

The nodes of a syntax tree stand in four arenas and refer to each other by position.
-/

namespace Interop.Native

structure DeclId where
  index : Nat
  deriving DecidableEq

structure StmtId where
  index : Nat
  deriving DecidableEq

structure ExprId where
  index : Nat
  deriving DecidableEq

structure TypeId where
  index : Nat
  deriving DecidableEq

end Interop.Native
