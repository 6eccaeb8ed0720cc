import Interop.Json.Reader
import Interop.Native.Format.Names
import Interop.Native.References

/-!
# Reading stored syntax trees

The reader of every part of a syntax tree, and reading a whole tree from text. A tree that was read
from text is checked before it is handed out.
-/

namespace Interop

open Json

def Location.read (v : Json) : Option Location := do
  let s ← slots ["file", "line", "column"] v
  return {
    file := ← s.orElse "file" none (asOption asText)
    line := ← s.orElse "line" 0 asUInt32
    column := ← s.orElse "column" 0 asUInt32 }

namespace Native

def readIndex (v : Json) : Option Nat :=
  asNatBelow UInt32.size v

def DeclId.read (v : Json) : Option DeclId := (readIndex v).map DeclId.mk

def StmtId.read (v : Json) : Option StmtId := (readIndex v).map StmtId.mk

def ExprId.read (v : Json) : Option ExprId := (readIndex v).map ExprId.mk

def TypeId.read (v : Json) : Option TypeId := (readIndex v).map TypeId.mk

/-! ## Types -/

def Prototype.read (v : Json) : Option Prototype := do
  let s ← slots ["return_type", "params", "is_variadic", "calling_convention"] v
  return {
    result := ← s.need "return_type" TypeId.read
    params := ← s.need "params" (asList TypeId.read)
    isVariadic := ← s.orElse "is_variadic" false asBool
    convention := ← s.orElse "calling_convention" none (asOption (asName Convention.names)) }

def TypeKind.read (v : Json) : Option TypeKind := do
  let (name, payload) ← form v
  let one (field : String) (make : TypeId → TypeKind) (v : Json) : Option TypeKind := do
    return make (← (← slots [field] v).need field TypeId.read)
  let declared (make : DeclId → TypeKind) (v : Json) : Option TypeKind := do
    return make (← (← slots ["decl"] v).need "decl" DeclId.read)
  match name with
  | "Builtin" => filled (fun v => (asName Builtin.names v).map .builtin) payload
  | "Pointer" => filled (one "pointee" .pointer) payload
  | "LValueReference" => filled (one "referent" .lvalueReference) payload
  | "RValueReference" => filled (one "referent" .rvalueReference) payload
  | "ConstantArray" => filled (fun v => do
      let s ← slots ["element", "size"] v
      return .constantArray (← s.need "element" TypeId.read) (← s.need "size" asUInt64)) payload
  | "IncompleteArray" => filled (one "element" .incompleteArray) payload
  | "FunctionProto" => filled (fun v => (Prototype.read v).map .function) payload
  | "Record" => filled (declared .record) payload
  | "Enum" => filled (declared .enum) payload
  | "Typedef" => filled (fun v => do
      let s ← slots ["decl", "underlying"] v
      return .typedef (← s.need "decl" DeclId.read) (← s.need "underlying" TypeId.read)) payload
  | "TemplateSpecialization" => filled (fun v => do
      let s ← slots ["template", "canonical"] v
      return .specialization (← s.need "template" asText)
        (← s.orElse "canonical" none (asOption TypeId.read))) payload
  | "Unexposed" => bare .unexposed payload
  | _ => none

def Ty.read (v : Json) : Option Ty := do
  let s ← slots ["kind", "spelling", "size", "is_const"] v
  return {
    kind := ← s.need "kind" TypeKind.read
    spelling := ← s.need "spelling" asText
    size := ← s.orElse "size" none (asOption asUInt64)
    isConst := ← s.orElse "is_const" false asBool }

/-! ## Declarations -/

def Deprecation.read (v : Json) : Option Deprecation := do
  let s ← slots ["message"] v
  return { message := ← s.orElse "message" none (asOption asText) }

def Attributes.read (v : Json) : Option Attributes := do
  let s ← slots ["deprecated", "asm_label", "packed"] v
  return {
    deprecated := ← s.orElse "deprecated" none (asOption Deprecation.read)
    asmLabel := ← s.orElse "asm_label" none (asOption asText)
    packed := ← s.orElse "packed" none (asOption asUInt32) }

def Base.read (v : Json) : Option Base := do
  let s ← slots ["ty", "is_virtual", "access"] v
  return {
    type := ← s.need "ty" TypeId.read
    isVirtual := ← s.orElse "is_virtual" false asBool
    access := ← s.orElse "access" .pub (asName Access.names) }

def Record.read (v : Json) : Option Record := do
  let s ← slots ["tag", "is_definition", "is_anonymous", "bases", "members"] v
  return {
    tag := ← s.need "tag" (asName RecordTag.names)
    isDefinition := ← s.orElse "is_definition" true asBool
    isAnonymous := ← s.orElse "is_anonymous" false asBool
    bases := ← s.orElse "bases" [] (asList Base.read)
    members := ← s.orElse "members" [] (asList DeclId.read) }

def Field.read (v : Json) : Option Field := do
  let s ← slots ["ty", "bit_width", "offset_bits"] v
  return {
    type := ← s.need "ty" TypeId.read
    bitWidth := ← s.orElse "bit_width" none (asOption asUInt32)
    offsetBits := ← s.orElse "offset_bits" none (asOption asUInt64) }

def Enum.read (v : Json) : Option Enum := do
  let s ← slots ["integer_type", "is_scoped", "constants"] v
  return {
    integerType := ← s.need "integer_type" TypeId.read
    isScoped := ← s.orElse "is_scoped" false asBool
    constants := ← s.orElse "constants" [] (asList DeclId.read) }

def Function.read (v : Json) : Option Function := do
  let s ← slots ["ty", "params", "body", "linkage", "storage", "mangled_name"] v
  return {
    type := ← s.need "ty" TypeId.read
    params := ← s.orElse "params" [] (asList DeclId.read)
    body := ← s.orElse "body" none (asOption StmtId.read)
    linkage := ← s.orElse "linkage" .cxx (asName Linkage.names)
    storage := ← s.orElse "storage" .unspecified (asName Storage.names)
    mangledName := ← s.orElse "mangled_name" none (asOption asText) }

def Method.read (v : Json) : Option Method := do
  let s ← slots
    ["ty", "params", "body", "is_static", "is_virtual", "is_pure", "mangled_name"] v
  return {
    type := ← s.need "ty" TypeId.read
    params := ← s.orElse "params" [] (asList DeclId.read)
    body := ← s.orElse "body" none (asOption StmtId.read)
    isStatic := ← s.orElse "is_static" false asBool
    isVirtual := ← s.orElse "is_virtual" false asBool
    isPure := ← s.orElse "is_pure" false asBool
    mangledName := ← s.orElse "mangled_name" none (asOption asText) }

def Var.read (v : Json) : Option Var := do
  let s ← slots ["ty", "init", "storage"] v
  return {
    type := ← s.need "ty" TypeId.read
    init := ← s.orElse "init" none (asOption ExprId.read)
    storage := ← s.orElse "storage" .unspecified (asName Storage.names) }

def DeclKind.read (v : Json) : Option DeclKind := do
  let (name, payload) ← form v
  match name with
  | "Namespace" => filled (fun v => do
      return .scope (← (← slots ["decls"] v).need "decls" (asList DeclId.read))) payload
  | "LinkageSpec" => filled (fun v => do
      let s ← slots ["linkage", "decls"] v
      return .linkageSpec (← s.need "linkage" (asName Linkage.names))
        (← s.need "decls" (asList DeclId.read))) payload
  | "Record" => filled (fun v => (Record.read v).map .record) payload
  | "Field" => filled (fun v => (Field.read v).map .field) payload
  | "Enum" => filled (fun v => (Enum.read v).map .enum) payload
  | "EnumConstant" => filled (fun v => do
      let s ← slots ["value", "init"] v
      return .constant (← s.need "value" asInt64)
        (← s.orElse "init" none (asOption ExprId.read))) payload
  | "Function" => filled (fun v => (Function.read v).map .function) payload
  | "Method" => filled (fun v => (Method.read v).map .method) payload
  | "Constructor" => filled (fun v => do
      let s ← slots ["params", "body"] v
      return .constructor (← s.orElse "params" [] (asList DeclId.read))
        (← s.orElse "body" none (asOption StmtId.read))) payload
  | "Destructor" => filled (fun v => do
      let s ← slots ["is_virtual", "body"] v
      return .destructor (← s.orElse "is_virtual" false asBool)
        (← s.orElse "body" none (asOption StmtId.read))) payload
  | "Param" => filled (fun v => do
      return .param (← (← slots ["ty"] v).need "ty" TypeId.read)) payload
  | "Var" => filled (fun v => (Var.read v).map .var) payload
  | "Typedef" => filled (fun v => do
      return .typedef (← (← slots ["underlying"] v).need "underlying" TypeId.read)) payload
  | "Other" => filled (fun v => do
      return .other (← (← slots ["kind"] v).need "kind" asText)) payload
  | _ => none

def Decl.read (v : Json) : Option Decl := do
  let s ← slots ["kind", "name", "parent", "location", "attrs"] v
  return {
    kind := ← s.need "kind" DeclKind.read
    name := ← s.orElse "name" "" asText
    parent := ← s.orElse "parent" none (asOption DeclId.read)
    location := ← s.orElse "location" {} Location.read
    attrs := ← s.orElse "attrs" {} Attributes.read }

/-! ## Statements -/

def StmtKind.read (v : Json) : Option StmtKind := do
  let (name, payload) ← form v
  let conditional (make : ExprId → StmtId → StmtKind) (names : List String) (field : String)
      (v : Json) : Option StmtKind := do
    let s ← slots names v
    return make (← s.need field ExprId.read) (← s.need "body" StmtId.read)
  match name with
  | "Compound" => filled (fun v => (asList StmtId.read v).map .compound) payload
  | "Decl" => filled (fun v => (asList DeclId.read v).map .decls) payload
  | "Expr" => filled (fun v => (ExprId.read v).map .expr) payload
  | "Return" => filled (fun v => (asOption ExprId.read v).map .ret) payload
  | "If" => filled (fun v => do
      let s ← slots ["cond", "then_branch", "else_branch"] v
      return .ifElse (← s.need "cond" ExprId.read) (← s.need "then_branch" StmtId.read)
        (← s.orElse "else_branch" none (asOption StmtId.read))) payload
  | "While" => filled (conditional .whileLoop ["cond", "body"] "cond") payload
  | "Do" => filled (conditional (fun cond body => .doLoop body cond) ["body", "cond"] "cond") payload
  | "For" => filled (fun v => do
      let s ← slots ["init", "cond", "inc", "body"] v
      return .forLoop (← s.orElse "init" none (asOption StmtId.read))
        (← s.orElse "cond" none (asOption ExprId.read))
        (← s.orElse "inc" none (asOption ExprId.read)) (← s.need "body" StmtId.read)) payload
  | "Switch" => filled (conditional .switch ["cond", "body"] "cond") payload
  | "Case" => filled (conditional .caseLabel ["value", "body"] "value") payload
  | "Default" => filled (fun v => do
      return .defaultLabel (← (← slots ["body"] v).need "body" StmtId.read)) payload
  | "Break" => bare .breakOut payload
  | "Continue" => bare .continueLoop payload
  | "Null" => bare .empty payload
  | "Other" => filled (fun v => do
      return .other (← (← slots ["kind"] v).need "kind" asText)) payload
  | _ => none

def Stmt.read (v : Json) : Option Stmt := do
  let s ← slots ["kind", "location"] v
  return {
    kind := ← s.need "kind" StmtKind.read
    location := ← s.orElse "location" {} Location.read }

/-! ## Expressions -/

def ExprKind.read (v : Json) : Option ExprKind := do
  let (name, payload) ← form v
  let spelled (field : String) (make : String → ExprKind) (v : Json) : Option ExprKind := do
    return make (← (← slots [field] v).need field asText)
  match name with
  | "IntegerLiteral" => filled (spelled "spelling" .integer) payload
  | "FloatingLiteral" => filled (spelled "spelling" .floating) payload
  | "CharacterLiteral" => filled (fun v => do
      return .character (← (← slots ["value"] v).need "value" asUInt32)) payload
  | "StringLiteral" => filled (fun v => do
      let s ← slots ["value", "char_width"] v
      return .string (← s.need "value" asText) (← s.orElse "char_width" 1 asUInt8)) payload
  | "BoolLiteral" => filled (fun v => (asBool v).map .bool) payload
  | "NullPtrLiteral" => bare .nullPtr payload
  | "DeclRef" => filled (fun v => do
      return .declRef (← (← slots ["decl"] v).need "decl" DeclId.read)) payload
  | "Paren" => filled (fun v => (ExprId.read v).map .paren) payload
  | "Unary" => filled (fun v => do
      let s ← slots ["op", "operand"] v
      return .unary (← s.need "op" (asName unaryOpNames)) (← s.need "operand" ExprId.read)) payload
  | "Binary" => filled (fun v => do
      let s ← slots ["op", "lhs", "rhs"] v
      return .binary (← s.need "op" (asName binaryOpNames)) (← s.need "lhs" ExprId.read)
        (← s.need "rhs" ExprId.read)) payload
  | "Conditional" => filled (fun v => do
      let s ← slots ["cond", "then_expr", "else_expr"] v
      return .conditional (← s.need "cond" ExprId.read) (← s.need "then_expr" ExprId.read)
        (← s.need "else_expr" ExprId.read)) payload
  | "Call" => filled (fun v => do
      let s ← slots ["callee", "args"] v
      return .call (← s.need "callee" ExprId.read)
        (← s.orElse "args" [] (asList ExprId.read))) payload
  | "Member" => filled (fun v => do
      let s ← slots ["base", "member", "is_arrow"] v
      return .member (← s.need "base" ExprId.read) (← s.need "member" DeclId.read)
        (← s.orElse "is_arrow" false asBool)) payload
  | "ArraySubscript" => filled (fun v => do
      let s ← slots ["base", "index"] v
      return .subscript (← s.need "base" ExprId.read) (← s.need "index" ExprId.read)) payload
  | "ImplicitCast" => filled (fun v => do
      let s ← slots ["kind", "operand"] v
      return .implicitCast (← s.need "kind" (asName CastKind.names))
        (← s.need "operand" ExprId.read)) payload
  | "ExplicitCast" => filled (fun v => do
      let s ← slots ["style", "kind", "operand"] v
      return .explicitCast (← s.need "style" (asName CastStyle.names))
        (← s.need "kind" (asName CastKind.names)) (← s.need "operand" ExprId.read)) payload
  | "InitList" => filled (fun v => (asList ExprId.read v).map .initList) payload
  | "ImplicitValueInit" => bare .valueInit payload
  | "This" => filled (fun v => do
      return .thisPointer (← (← slots ["implicit"] v).orElse "implicit" false asBool)) payload
  | "SizeOf" => filled (fun v => do
      return .sizeOf (← (← slots ["arg"] v).need "arg" TypeId.read)) payload
  | "Other" => filled (spelled "kind" .other) payload
  | _ => none

def Expr.read (v : Json) : Option Expr := do
  let s ← slots ["kind", "ty", "location"] v
  return {
    kind := ← s.need "kind" ExprKind.read
    type := ← s.need "ty" TypeId.read
    location := ← s.orElse "location" {} Location.read }

/-! ## Trees -/

/-- Reads a syntax tree, without a check of its references. -/
def Ast.read (v : Json) : Option Ast := do
  let s ← slots ["file", "top_level", "decls", "stmts", "exprs", "types"] v
  return {
    file := ← s.need "file" asText
    topLevel := ← s.need "top_level" (asList DeclId.read)
    decls := (← s.need "decls" (asList Decl.read)).toArray
    stmts := (← s.orElse "stmts" [] (asList Stmt.read)).toArray
    exprs := (← s.orElse "exprs" [] (asList Expr.read)).toArray
    types := (← s.need "types" (asList Ty.read)).toArray }

inductive ReadError where
  | format
  | dangling (r : Reference)
  deriving DecidableEq

def Reference.message (r : Reference) : String :=
  "Malformed AST: " ++ r.fault

def Ast.parse (s : String) : Except ReadError Ast :=
  match (Json.parse s).bind Ast.read with
  | none => .error .format
  | some ast =>
    match ast.firstMissing? with
    | some r => .error (.dangling r)
    | none => .ok ast

end Native

end Interop
