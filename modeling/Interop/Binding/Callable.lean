import Interop.Binding.Stmt

/-!
# Emission of functions

Free functions and member functions, which are imported unless the tree holds their bodies, and the
methods that call through a vtable.
-/

namespace Interop.Binding

open Native (DeclId StmtId TypeId Prototype Convention)
open Emit
open Managed (Attribute Parameter Member)

/-! ## Attributes -/

/-- The attribute for the native spelling of a type, if that says more than the C# name. -/
def MappedType.nativeAttribute (m : MappedType) : List Attribute :=
  m.nativeTypeName?.toList.map .nativeTypeName

def MappedType.returnAttribute (m : MappedType) : List Attribute :=
  m.nativeTypeName?.toList.map .returnNativeTypeName

/-! ## Signatures -/

def parameterOf (id : DeclId) : Emit Parameter := do
  let d ← decl id
  match d.kind with
  | .param type =>
    let mapped ← mapType type .parameter d.location
    return .value mapped.nativeTypeName? mapped.type (← nameOf id)
  | other => malformed "parameter" d.location ("parameter list holds a " ++ other.title)

def signatureOf (type : TypeId) (location : Location) : Emit Prototype := do
  match ← prototypeOf type with
  | some proto => return proto
  | none => malformed "function" location "declared type is not a function prototype"

/-- What free and member functions have in common. -/
structure Callable where
  type : TypeId
  params : List DeclId
  body : Option StmtId
  title : String
  symbol : Option String
  isStatic : Bool
  /-- The record whose objects an imported one works on. -/
  receiver : Option String

/-- Where an imported function comes from. A label counts before the settings, and both before the
exported symbol. -/
def importAttribute (d : Native.Decl) (c : Callable) (convention : Option Convention) :
    Emit Attribute := do
  match convention.bind importConvention? with
  | none =>
    unsupported d.kind.title d.location
      ("calling convention " ++ conventionText convention ++ " has no DllImport form")
  | some name =>
    importNamespace interopServicesNamespace
    let settings := (← env).settings
    let entryPoint := (d.attrs.asmLabel.or (settings.entryPoint? d.name)).or c.symbol
    return .dllImport settings.library name entryPoint

/-- A method with the body of the function. -/
def definedMethod (id : DeclId) (d : Native.Decl) (c : Callable) (proto : Prototype)
    (result : MappedType) (params : List Parameter) (body : StmtId) : Emit Managed.Method := do
  if proto.isVariadic then
    unsupported c.title d.location ("variadic " ++ c.title ++ "s can only be imported")
  else
    let obsolete ← obsoleteAttribute id
    return {
      attrs := result.returnAttribute ++ obsolete.toList
      isStatic := c.isStatic
      result := result.type
      name := ← nameOf id
      params
      body := some (← returning proto.result (emitBody body)) }

/-- A method that is imported. -/
def importedMethod (id : DeclId) (d : Native.Decl) (c : Callable) (proto : Prototype)
    (result : MappedType) (params : List Parameter) : Emit Managed.Method := do
  let source ← importAttribute d c proto.convention
  let obsolete ← obsoleteAttribute id
  markPointersIf c.receiver.isSome
  return {
    attrs := source :: result.returnAttribute ++ obsolete.toList
    isStatic := true
    result := result.type
    name := ← nameOf id
    params := c.receiver.toList.map .receiver ++ params ++ (if proto.isVariadic then [.arglist] else [])
    body := none }

def methodOf (id : DeclId) (d : Native.Decl) (c : Callable) : Emit Member := do
  let proto ← signatureOf c.type d.location
  let result ← mapType proto.result .result d.location
  let params ← forEach parameterOf c.params
  match c.body with
  | some body => return .method (← definedMethod id d c proto result params body)
  | none => return .method (← importedMethod id d c proto result params)

/-- A free function. Its exported symbol is its name unless the native names are decorated. -/
def emitFunction (id : DeclId) : Emit Member := do
  let d ← decl id
  match d.kind with
  | .function f =>
    methodOf id d {
      type := f.type
      params := f.params
      body := f.body
      title := "function"
      symbol := if f.linkage = .cxx then f.mangledName else none
      isStatic := true
      receiver := none }
  | _ => malformed "function" d.location "not a function"

def emitMethod (record id : DeclId) : Emit Member := do
  let d ← decl id
  match d.kind with
  | .method m =>
    let owner ← nameOf record
    methodOf id d {
      type := m.type
      params := m.params
      body := m.body
      title := "method"
      symbol := m.mangledName
      isStatic := m.isStatic
      receiver := if m.isStatic then none else some owner }
  | _ => malformed "method" d.location "not a method"

/-! ## Virtual functions -/

def parameterType (id : DeclId) : Emit Managed.TypeName := do
  let d ← decl id
  match d.kind with
  | .param type => return (← mapType type .parameter d.location).type
  | other => malformed "parameter" d.location ("parameter list holds a " ++ other.title)

/-- The call of a slot of the vtable: the slot is a pointer to a function that takes the object
first. -/
def slotCall (self : Managed.TypeName) (convention : String) (slot : Nat)
    (params : List Managed.TypeName) (result : Managed.TypeName) (names : List String) :
    Managed.Expr :=
  .call
    (.paren (.cast (.functionPointer convention (self :: params) result)
      (.paren (.subscript (.ident "lpVtbl") (.literal slot.repr)))))
    (.cast self (asPointer (.ident "this")) :: names.map .ident)

def emitTrampoline (record : DeclId) (slot : Nat) (id : DeclId) : Emit Member := do
  let d ← decl id
  match d.kind with
  | .method m =>
    match ← prototypeOf m.type with
    | none => malformed "method" d.location "declared type is not a function prototype"
    | some proto =>
      if proto.isVariadic then
        unsupported "virtual method" d.location
          "variadic virtual methods cannot be called through a function pointer"
      else
        match proto.convention.bind unmanagedConvention? with
        | none =>
          unsupported "virtual method" d.location
            ("calling convention " ++ conventionText proto.convention ++ " cannot be expressed")
        | some convention =>
          let result ← mapType proto.result .result d.location
          let params ← forEach parameterOf m.params
          let types ← forEach parameterType m.params
          let names ← forEach nameOf m.params
          markPointers
          importNamespace compilerServicesNamespace
          let self := .pointer (.named (← nameOf record))
          let call := slotCall self convention slot types result.type names
          let obsolete ← obsoleteAttribute id
          return .method {
            attrs := result.returnAttribute ++ obsolete.toList
            isStatic := false
            result := result.type
            name := ← nameOf id
            params
            body := some [if result.isVoid then .effect ⟨false, call⟩ else .ret (some call)] }
  | other => malformed "vtable slot" d.location ("slot holds a " ++ other.title)

/-- The methods that call the slots of a vtable, in the order of the slots. A slot that has no C#
form is left out, and the others keep their places. -/
def emitTrampolines (record : DeclId) : Emit (List Member) := do
  match (← symbols).vtable? record with
  | some (.ok layout) =>
    let members ← forEach
      (fun (id, slot) => skippableMember (emitTrampoline record slot id)) layout.zipIdx
    return members.filterMap id
  | _ => return []

end Interop.Binding
