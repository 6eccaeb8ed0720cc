import Interop.Location
import Interop.Native.Id

/-!
# Native declarations
-/

namespace Interop.Native

structure Deprecation where
  message : Option String := none
  deriving DecidableEq

structure Attributes where
  deprecated : Option Deprecation := none
  asmLabel : Option String := none
  /-- Greatest alignment of a field. -/
  packed : Option UInt32 := none
  deriving DecidableEq

inductive RecordTag where
  | struct
  | klass
  | union
  deriving DecidableEq

def RecordTag.keyword : RecordTag → String
  | .struct => "struct"
  | .klass => "class"
  | .union => "union"

inductive Linkage where
  | c
  | cxx
  | internal
  deriving DecidableEq

inductive Storage where
  | unspecified
  | static
  | external
  deriving DecidableEq

inductive Access where
  | pub
  | prot
  | priv
  deriving DecidableEq

structure Base where
  type : TypeId
  isVirtual : Bool := false
  access : Access := .pub
  deriving DecidableEq

structure Record where
  tag : RecordTag
  isDefinition : Bool := true
  /-- A record without a name whose members belong to the enclosing record. -/
  isAnonymous : Bool := false
  bases : List Base := []
  members : List DeclId := []
  deriving DecidableEq

structure Field where
  type : TypeId
  bitWidth : Option UInt32 := none
  offsetBits : Option UInt64 := none
  deriving DecidableEq

structure Enum where
  integerType : TypeId
  isScoped : Bool := false
  constants : List DeclId := []
  deriving DecidableEq

structure Function where
  type : TypeId
  params : List DeclId := []
  body : Option StmtId := none
  linkage : Linkage := .cxx
  storage : Storage := .unspecified
  mangledName : Option String := none
  deriving DecidableEq

structure Method where
  type : TypeId
  params : List DeclId := []
  body : Option StmtId := none
  isStatic : Bool := false
  isVirtual : Bool := false
  isPure : Bool := false
  mangledName : Option String := none
  deriving DecidableEq

structure Var where
  type : TypeId
  init : Option ExprId := none
  storage : Storage := .unspecified
  deriving DecidableEq

inductive DeclKind where
  | scope (decls : List DeclId)
  | linkageSpec (linkage : Linkage) (decls : List DeclId)
  | record (info : Record)
  | field (info : Field)
  | enum (info : Enum)
  | constant (value : Int64) (init : Option ExprId)
  | function (info : Function)
  | method (info : Method)
  | constructor (params : List DeclId) (body : Option StmtId)
  | destructor (isVirtual : Bool) (body : Option StmtId)
  | param (type : TypeId)
  | var (info : Var)
  | typedef (underlying : TypeId)
  /-- Anything else, by the name of its kind. -/
  | other (kind : String)
  deriving DecidableEq

structure Decl where
  kind : DeclKind
  /-- Empty for a declaration without a name. -/
  name : String := ""
  parent : Option DeclId := none
  location : Location := {}
  attrs : Attributes := {}
  deriving DecidableEq

def DeclKind.title : DeclKind → String
  | .scope _ => "namespace"
  | .linkageSpec _ _ => "linkage specification"
  | .record _ => "record"
  | .field _ => "field"
  | .enum _ => "enum"
  | .constant _ _ => "enum constant"
  | .function _ => "function"
  | .method _ => "method"
  | .constructor _ _ => "constructor"
  | .destructor _ _ => "destructor"
  | .param _ => "parameter"
  | .var _ => "variable"
  | .typedef _ => "typedef"
  | .other _ => "declaration"

end Interop.Native
