import Interop.Binding.Symbols
import Interop.Managed.TypeName
import Interop.Native.Format.Names

/-!
# Mapping types

The C# type of a native type. It depends on the type, on where the type is used, and on the record
from inside of which it is named.
-/

namespace Interop.Binding

open Native Managed

inductive Usage where
  | field
  | parameter
  | result
  | localVar
  | globalVar
  | cast
  | pointee
  deriving DecidableEq

/-! ## Native spellings -/

/-- The spelling of a type without blanks and without the keywords that name its kind. -/
def normalSpelling (spelling : String) : String :=
  String.join ((Text.words spelling).filter fun w =>
    !(["struct", "union", "enum", "class"].contains w))

def nativeTypeName? (name native : String) : Option String :=
  if normalSpelling native = normalSpelling name then none else some native

structure MappedType where
  type : TypeName
  native : String
  usesPointers : Bool

namespace MappedType

def name (m : MappedType) : String :=
  m.type.text

def nativeTypeName? (m : MappedType) : Option String :=
  Binding.nativeTypeName? m.name m.native

def isVoid (m : MappedType) : Bool :=
  m.name == "void"

end MappedType

/-! ## Calling conventions -/

def unmanagedConvention? : Convention → Option String
  | .c => some "Cdecl"
  | .stdCall => some "Stdcall"
  | .fastCall => some "Fastcall"
  | .thisCall => some "Thiscall"
  | _ => none

def importConvention? : Convention → Option String
  | .c => some "Cdecl"
  | .stdCall => some "StdCall"
  | .fastCall => some "FastCall"
  | .thisCall => some "ThisCall"
  | _ => none

def conventionText : Option Convention → String
  | none => "None"
  | some convention => "Some(" ++ storedName Convention.names convention ++ ")"

/-! ## Names -/

/-- The declaration and those around it that are records or enumerations, innermost first, one
declaration per unit of fuel. -/
def recordChainFrom (ast : Ast) : (fuel : Nat) → Option DeclId → Option (List DeclId)
  | _, none => some []
  | 0, some _ => none
  | fuel + 1, some id => do
    let d ← ast.decl? id
    let around ← recordChainFrom ast fuel d.parent
    match d.kind with
    | .record _ | .enum _ => return id :: around
    | _ => return around

/-- The records and enumerations around a declaration and itself, outermost first. -/
def recordChain? (ast : Ast) (id : Option DeclId) : Option (List DeclId) :=
  (recordChainFrom ast (ast.decls.size + 1) id).map List.reverse

/-- Drops the common beginning of two chains from the first one, but never its last element. -/
def dropCommon : List DeclId → List DeclId → List DeclId
  | a :: b :: rest, c :: scope => if a = c then dropCommon (b :: rest) scope else a :: b :: rest
  | chain, _ => chain

/-- The name of a record or enumeration as it is written inside `scope`: qualified by those
enclosing records that `scope` is not inside of. -/
def qualifiedName? (ast : Ast) (symbols : Symbols) (id : DeclId) (scope : Option DeclId) :
    Option String := do
  let target ← recordChain? ast (some (symbols.definition id))
  let current ← recordChain? ast scope
  return Text.joinWith "." ((dropCommon target current).map symbols.name)

/-- The native spelling of a type. An unnamed record or enumeration is called after its place. -/
def nativeSpelling? (ast : Ast) (symbols : Symbols) (type : TypeId) : Option String := do
  let t ← ast.type? type
  match directlyNamed t.kind with
  | some id =>
    let d ← ast.decl? id
    if d.name = "" && (symbols.namingTypedef? id).isNone then return provenanceName d
    else return t.spelling
  | none => return t.spelling

/-! ## Types -/

def builtinTypeName? (kind : Builtin) (size : UInt64) : Option TypeName :=
  let sized (one two four eight : String) : Option TypeName :=
    if size = 1 then some (.named one)
    else if size = 2 then some (.named two)
    else if size = 4 then some (.named four)
    else if size = 8 then some (.named eight)
    else none
  match kind with
  | .void => some (.named "void")
  | .bool => some (.named "bool")
  | .float => some (.named "float")
  | .double => some (.named "double")
  | .longDouble => if size = 8 then some (.named "double") else none
  | .half | .int128 | .uInt128 => none
  | .nullPtr => some (.pointer (.named "void"))
  | .char16 => some (.named "char")
  | .wChar => if size = 2 then some (.named "char") else sized "byte" "ushort" "uint" "ulong"
  | _ =>
    if kind.isSigned then sized "sbyte" "short" "int" "long"
    else sized "byte" "ushort" "uint" "ulong"

/-- Typedefs that stand for integers of the size of a pointer. -/
def wellKnownTypedef? (name : String) : Option String :=
  if name = "size_t" || name = "uintptr_t" then some "nuint"
  else if name = "ptrdiff_t" || name = "intptr_t" || name = "ssize_t" then some "nint"
  else none

structure TypeContext where
  ast : Ast
  symbols : Symbols
  scope : Option DeclId
  location : Location

namespace TypeContext

def isFunction (c : TypeContext) (type : TypeId) : Result Bool := do
  match ← found (c.ast.canonicalKind? type) with
  | .function _ => return true
  | _ => return false

def isArray (c : TypeContext) (type : TypeId) : Result Bool := do
  match ← found (c.ast.canonicalKind? type) with
  | .constantArray _ _ | .incompleteArray _ => return true
  | _ => return false

def functionPointer (c : TypeContext) (managed : TypeId → Usage → Result (TypeName × Bool))
    (proto : TypeId) : Result (TypeName × Bool) := do
  match (← found (c.ast.type? proto)).kind with
  | .function p =>
    if p.isVariadic then
      refuse "function pointer" c.location "variadic function pointers have no unmanaged equivalent"
    else
      match p.convention.bind unmanagedConvention? with
      | none =>
        refuse "function pointer" c.location
          ("calling convention " ++ conventionText p.convention ++ " cannot be expressed")
      | some convention =>
        let params ← p.params.mapM fun t => return (← managed t .parameter).1
        let result := (← managed p.result .result).1
        return (.functionPointer convention params result, true)
  | _ => reject "type" c.location "function pointer does not point at a prototype"

def pointerTo (c : TypeContext) (managed : TypeId → Usage → Result (TypeName × Bool))
    (target : TypeId) : Result (TypeName × Bool) := do
  if ← c.isFunction target then
    c.functionPointer managed (← found (c.ast.canonical? target))
  else
    let (inner, _) ← managed target .pointee
    return (.pointer inner, true)

/-- What an array becomes: an array where it is stored, and a pointer everywhere else. -/
def arrayOf (c : TypeContext) (managed : TypeId → Usage → Result (TypeName × Bool))
    (element : TypeId) (isComplete : Bool) (usage : Usage) : Result (TypeName × Bool) := do
  let (inner, usesPointers) ← managed element .pointee
  let stored := usage = .localVar || usage = .globalVar || usage = .field
  if stored && isComplete then
    if ← c.isArray element then
      refuse "type" c.location "multi-dimensional arrays are not supported"
    else return (.array inner, usesPointers)
  else return (.pointer inner, true)

/-- The C# type of a native type and whether it uses pointers, one type per unit of fuel. -/
def managedFrom (c : TypeContext) : (fuel : Nat) → TypeId → Usage → Result (TypeName × Bool)
  | 0, _, _ => .error .broken
  | fuel + 1, type, usage => do
    let managed := managedFrom c fuel
    let t ← found (c.ast.type? type)
    match t.kind with
    | .builtin kind =>
      match builtinTypeName? kind (t.size.getD kind.defaultSize) with
      | some name => return (name, kind == .nullPtr)
      | none => refuse "type" c.location ("`" ++ t.spelling ++ "` has no exact C# counterpart")
    | .pointer target | .lvalueReference target | .rvalueReference target =>
      c.pointerTo managed target
    | .constantArray element _ => c.arrayOf managed element true usage
    | .incompleteArray element => c.arrayOf managed element false usage
    | .function _ =>
      if usage = .parameter || usage = .pointee then c.functionPointer managed type
      else refuse "type" c.location "function types are only usable through pointers"
    | .record decl | .enum decl =>
      return (.named (← found (qualifiedName? c.ast c.symbols decl c.scope)), false)
    | .typedef decl underlying =>
      match wellKnownTypedef? (← found (c.ast.decl? decl)).name with
      | some name => return (.named name, false)
      | none => managed underlying usage
    | .specialization template canonical =>
      match canonical with
      | some canonical => managed canonical usage
      | none =>
        refuse "type" c.location
          ("template specialization `" ++ template ++ "` was not instantiated")
    | .unexposed => refuse "type" c.location ("`" ++ t.spelling ++ "` could not be resolved")

def map (c : TypeContext) (type : TypeId) (usage : Usage) : Result MappedType := do
  let (name, usesPointers) ← c.managedFrom (c.ast.types.size + 1) type usage
  let native ← found (nativeSpelling? c.ast c.symbols type)
  return { type := name, native, usesPointers }

end TypeContext

end Interop.Binding
