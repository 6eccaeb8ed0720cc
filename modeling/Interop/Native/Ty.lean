import Interop.Native.Builtin
import Interop.Native.Id

/-!
# Native types

A type has a structure and an exact native spelling. Records, enumerations and typedefs point back
at their declarations.
-/

namespace Interop.Native

inductive Convention where
  | c
  | stdCall
  | fastCall
  | thisCall
  | vectorCall
  | win64
  | sysV
  | other
  deriving DecidableEq

structure Prototype where
  result : TypeId
  params : List TypeId
  isVariadic : Bool := false
  convention : Option Convention := none
  deriving DecidableEq

inductive TypeKind where
  | builtin (kind : Builtin)
  | pointer (pointee : TypeId)
  | lvalueReference (referent : TypeId)
  | rvalueReference (referent : TypeId)
  | constantArray (element : TypeId) (size : UInt64)
  | incompleteArray (element : TypeId)
  | function (proto : Prototype)
  | record (decl : DeclId)
  | enum (decl : DeclId)
  | typedef (decl : DeclId) (underlying : TypeId)
  /-- An instance of a template, with the record it stands for when there is one. -/
  | specialization (template : String) (canonical : Option TypeId)
  /-- Anything that could not be classified. -/
  | unexposed
  deriving DecidableEq

structure Ty where
  kind : TypeKind
  spelling : String
  /-- Size in bytes, when known. -/
  size : Option UInt64 := none
  isConst : Bool := false
  deriving DecidableEq

namespace Ty

def ofBuiltin (b : Builtin) : Ty :=
  { kind := .builtin b, spelling := b.spelling }

def builtin? (t : Ty) : Option Builtin :=
  match t.kind with
  | .builtin b => some b
  | _ => none

def isVoid (t : Ty) : Bool :=
  t.builtin? == some .void

def isReference (t : Ty) : Bool :=
  match t.kind with
  | .lvalueReference _ | .rvalueReference _ => true
  | _ => false

def builtinSize? (t : Ty) : Option UInt64 :=
  t.builtin?.map fun b => t.size.getD b.defaultSize

end Ty

end Interop.Native
