import Interop.Native.References

/-!
# Building syntax trees

A tree is built node by node. The builder fills in the types that a front end would have computed: a
reference to a declaration has the type of what it refers to, a comparison is a truth value, and so
on. Every step gives `none` when it is handed a position outside its arena.
-/

namespace Interop.Native

structure Builder where
  ast : Ast
  location : Location
  builtins : List (Builtin × TypeId) := []
  named : List (DeclId × TypeId) := []

abbrev Build := StateT Builder Option

namespace Builder

def start (file : String) : Builder :=
  { ast := { file }, location := { file := some file, line := 1, column := 1 } }

/-! ## Lookups -/

def type (id : TypeId) : Build Ty := do
  (← get).ast.type? id

def decl (id : DeclId) : Build Decl := do
  (← get).ast.decl? id

def typeOf (id : ExprId) : Build TypeId := do
  let e ← (← get).ast.expr? id
  return e.type

def declType (id : DeclId) : Build (Option TypeId) := do
  (← get).ast.declType? id

def canonicalKind (id : TypeId) : Build TypeKind := do
  (← get).ast.canonicalKind? id

/-! ## Single nodes -/

def moveTo (line column : UInt32) : Build Unit :=
  modify fun b => { b with location := { b.location with line, column } }

def modifyAst (f : Ast → Ast) : Build Unit :=
  modify fun b => { b with ast := f b.ast }

def addType (t : Ty) : Build TypeId := do
  let id : TypeId := ⟨(← get).ast.types.size⟩
  modifyAst fun ast => { ast with types := ast.types.push t }
  return id

/-- Adds a declaration that no other one lists. -/
def detachedDecl (name : String) (kind : DeclKind) : Build DeclId := do
  let b ← get
  modifyAst fun ast => { ast with decls := ast.decls.push { kind, name, location := b.location } }
  return ⟨b.ast.decls.size⟩

def stmt (kind : StmtKind) : Build StmtId := do
  let b ← get
  modifyAst fun ast => { ast with stmts := ast.stmts.push { kind, location := b.location } }
  return ⟨b.ast.stmts.size⟩

def expr (kind : ExprKind) (type : TypeId) : Build ExprId := do
  let b ← get
  modifyAst fun ast => { ast with exprs := ast.exprs.push { kind, type, location := b.location } }
  return ⟨b.ast.exprs.size⟩

def setDecl (id : DeclId) (d : Decl) : Build Unit := do
  let _ ← decl id
  modifyAst fun ast => { ast with decls := ast.decls.setIfInBounds id.index d }

def modifyDecl (id : DeclId) (f : Decl → Decl) : Build Unit := do
  setDecl id (f (← decl id))

/-! ## Types -/

def builtin (kind : Builtin) : Build TypeId := do
  match (← get).builtins.lookup kind with
  | some id => return id
  | none =>
    let id ← addType (.ofBuiltin kind)
    modify fun b => { b with builtins := (kind, id) :: b.builtins }
    return id

def constOf (id : TypeId) : Build TypeId := do
  let t ← type id
  addType { t with spelling := "const " ++ t.spelling, isConst := true }

def pointerSpelling (t : Ty) : String :=
  match t.kind with
  | .function _ => Text.replaceFirst " (" " (*)(" t.spelling
  | _ => t.spelling ++ " *"

def pointer (pointee : TypeId) : Build TypeId := do
  let t ← type pointee
  addType { kind := .pointer pointee, spelling := pointerSpelling t }

def constPointer (pointee : TypeId) : Build TypeId := do
  pointer (← constOf pointee)

def lvalueRef (referent : TypeId) : Build TypeId := do
  let t ← type referent
  addType { kind := .lvalueReference referent, spelling := t.spelling ++ " &" }

def constRef (referent : TypeId) : Build TypeId := do
  lvalueRef (← constOf referent)

def rvalueRef (referent : TypeId) : Build TypeId := do
  let t ← type referent
  addType { kind := .rvalueReference referent, spelling := t.spelling ++ " &&" }

def array (element : TypeId) (size : UInt64) : Build TypeId := do
  let t ← type element
  addType {
    kind := .constantArray element size
    spelling := t.spelling ++ "[" ++ size.toNat.repr ++ "]" }

def incompleteArray (element : TypeId) : Build TypeId := do
  let t ← type element
  addType { kind := .incompleteArray element, spelling := t.spelling ++ "[]" }

def functionType (proto : Prototype) : Build TypeId := do
  let params ← proto.params.mapM fun p => return (← type p).spelling
  let result ← type proto.result
  let params := if proto.isVariadic then params ++ ["..."] else params
  addType {
    kind := .function proto
    spelling := result.spelling ++ " (" ++ Text.joinWith ", " params ++ ")" }

def namedKind (id : DeclId) : DeclKind → TypeKind
  | .enum _ => .enum id
  | .typedef underlying => .typedef id underlying
  | _ => .record id

def namedSpelling (d : Decl) : String :=
  if d.name ≠ "" then d.name
  else
    let place := "(unnamed at " ++ d.location.display ++ ")"
    match d.kind with
    | .record r => r.tag.keyword ++ " " ++ place
    | _ => place

def namedType (id : DeclId) : Build TypeId := do
  match (← get).named.lookup id with
  | some t => return t
  | none =>
    let d ← decl id
    let t ← addType { kind := namedKind id d.kind, spelling := namedSpelling d }
    modify fun b => { b with named := (id, t) :: b.named }
    return t

/-! ## Declarations -/

def listUnder (child : DeclId) : DeclKind → DeclKind
  | .scope decls => .scope (decls ++ [child])
  | .linkageSpec linkage decls => .linkageSpec linkage (decls ++ [child])
  | .record r => .record { r with members := r.members ++ [child] }
  | .enum e => .enum { e with constants := e.constants ++ [child] }
  | kind => kind

def attach (child : DeclId) : Option DeclId → Build Unit
  | none => modifyAst fun ast => { ast with topLevel := ast.topLevel ++ [child] }
  | some parent => do
    modifyDecl child fun d => { d with parent := some parent }
    modifyDecl parent fun d => { d with kind := listUnder child d.kind }

def addDecl (parent : Option DeclId) (name : String) (kind : DeclKind) : Build DeclId := do
  let id ← detachedDecl name kind
  attach id parent
  return id

def markDeprecated (id : DeclId) (message : Option String) : Build Unit :=
  modifyDecl id fun d => { d with attrs := { d.attrs with deprecated := some { message } } }

def addBase (record base : DeclId) : Build Unit := do
  let type ← namedType base
  modifyDecl record fun d =>
    match d.kind with
    | .record r => { d with kind := .record { r with bases := r.bases ++ [{ type }] } }
    | _ => d

def paramTypes (params : List DeclId) : Build (List TypeId) := do
  return (← params.mapM declType).filterMap id

def adopt (parent : DeclId) (children : List DeclId) : Build Unit :=
  children.forM fun child => modifyDecl child fun d => { d with parent := some parent }

def function (linkage : Linkage) (parent : Option DeclId) (name : String) (result : TypeId)
    (params : List DeclId) (body : Option StmtId) : Build DeclId := do
  let types ← paramTypes params
  let type ← functionType { result, params := types, convention := some .c }
  let id ← addDecl parent name (.function { type, params, body, linkage })
  adopt id params
  return id

def method (isVirtual : Bool) (record : DeclId) (name : String) (result : TypeId)
    (params : List DeclId) (body : Option StmtId) : Build DeclId := do
  let types ← paramTypes params
  let type ← functionType { result, params := types, convention := some .thisCall }
  let id ← addDecl (some record) name (.method { type, params, body, isVirtual })
  adopt id params
  return id

def withBody (body : StmtId) : DeclKind → DeclKind
  | .function f => .function { f with body := some body }
  | .method m => .method { m with body := some body }
  | .constructor params _ => .constructor params (some body)
  | .destructor isVirtual _ => .destructor isVirtual (some body)
  | kind => kind

def setBody (id : DeclId) (body : StmtId) : Build Unit :=
  modifyDecl id fun d => { d with kind := withBody body d.kind }

/-! ## Expressions -/

def intLit (value : Int64) : Build ExprId := do
  let type ← builtin .int
  expr (.integer value.toInt.repr) type

/-- A floating point number: `float` if its last letter says so, else `double`. -/
def floatLit (spelling : String) : Build ExprId := do
  let isFloat := Text.endsWith (fun c => c = 'f' || c = 'F') spelling
  let type ← builtin (if isFloat then .float else .double)
  expr (.floating spelling) type

def boolLit (value : Bool) : Build ExprId := do
  let type ← builtin .bool
  expr (.bool value) type

def nullPtr : Build ExprId := do
  let type ← builtin .nullPtr
  expr .nullPtr type

def stringLit (value : String) : Build ExprId := do
  let char ← constOf (← builtin .charS)
  let type ← array char (UInt64.ofNat (value.utf8ByteSize + 1))
  expr (.string value 1) type

def useType (id : DeclId) : Build TypeId := do
  let d ← decl id
  match d.kind, d.parent with
  | .constant _ _, some parent => namedType parent
  | .constant _ _, none => builtin .int
  | _, _ =>
    match ← declType id with
    | some t =>
      match (← type t).kind with
      | .lvalueReference referent | .rvalueReference referent => return referent
      | _ => return t
    | none => builtin .void

def declRef (id : DeclId) : Build ExprId := do
  let type ← useType id
  expr (.declRef id) type

def rvalue (operand : ExprId) : Build ExprId := do
  let type ← typeOf operand
  expr (.implicitCast .lvalueToRValue operand) type

def load (id : DeclId) : Build ExprId := do
  rvalue (← declRef id)

def paren (inner : ExprId) : Build ExprId := do
  let type ← typeOf inner
  expr (.paren inner) type

def unaryType (op : UnaryOp) (operand : TypeId) : Build TypeId := do
  match op with
  | .addressOf => pointer operand
  | .deref =>
    match ← canonicalKind operand with
    | .pointer pointee => return pointee
    | _ => return operand
  | .logicalNot => builtin .bool
  | _ => return operand

def unary (op : UnaryOp) (operand : ExprId) : Build ExprId := do
  let type ← unaryType op (← typeOf operand)
  expr (.unary op operand) type

def binary (op : BinaryOp) (lhs rhs : ExprId) : Build ExprId := do
  let type ←
    if op.isComparison || op.isLogical then builtin .bool
    else if op = .comma then typeOf rhs
    else typeOf lhs
  expr (.binary op lhs rhs) type

def conditional (cond thenExpr elseExpr : ExprId) : Build ExprId := do
  let type ← typeOf thenExpr
  expr (.conditional cond thenExpr elseExpr) type

/-- The type of a function declaration and the type of its result. A declaration without a type
counts as having the first one of the arena. -/
def calleeTypes (function : DeclId) : Build (TypeId × TypeId) := do
  let type := (← declType function).getD ⟨0⟩
  match (← Builder.type type).kind with
  | .function proto => return (type, proto.result)
  | _ => return (type, type)

def call (function : DeclId) (args : List ExprId) : Build ExprId := do
  let (type, result) ← calleeTypes function
  let use ← expr (.declRef function) type
  let pointerType ← pointer type
  let callee ← expr (.implicitCast .functionToPointerDecay use) pointerType
  expr (.call callee args) result

def memberCall (base : ExprId) (method : DeclId) (isArrow : Bool) (args : List ExprId) :
    Build ExprId := do
  let (type, result) ← calleeTypes method
  let callee ← expr (.member base method isArrow) type
  expr (.call callee args) result

def member (base : ExprId) (field : DeclId) (isArrow : Bool) : Build ExprId := do
  let type ←
    match ← declType field with
    | some type => pure type
    | none => typeOf base
  expr (.member base field isArrow) type

def subscript (base index : ExprId) : Build ExprId := do
  let baseType ← typeOf base
  let type :=
    match ← canonicalKind baseType with
    | .pointer pointee => pointee
    | .constantArray element _ => element
    | .incompleteArray element => element
    | _ => baseType
  expr (.subscript base index) type

def thisPointer (record : DeclId) (implicit : Bool) : Build ExprId := do
  let type ← pointer (← namedType record)
  expr (.thisPointer implicit) type

def sizeOf (arg : TypeId) : Build ExprId := do
  let type ← builtin .uLong
  expr (.sizeOf arg) type

/-! ## Calls -/

inductive Call where
  | moveTo (line column : UInt32)
  | addType (t : Ty)
  | builtin (kind : Builtin)
  | constOf (t : TypeId)
  | pointer (t : TypeId)
  | constPointer (t : TypeId)
  | lvalueRef (t : TypeId)
  | constRef (t : TypeId)
  | rvalueRef (t : TypeId)
  | array (t : TypeId) (size : UInt64)
  | incompleteArray (t : TypeId)
  | functionType (proto : Prototype)
  | namedType (d : DeclId)
  | addDecl (parent : Option DeclId) (name : String) (kind : DeclKind)
  | detachedDecl (name : String) (kind : DeclKind)
  | setDecl (id : DeclId) (d : Decl)
  | markDeprecated (id : DeclId) (message : Option String)
  | addBase (record base : DeclId)
  | function (linkage : Linkage) (parent : Option DeclId) (name : String) (result : TypeId)
      (params : List DeclId) (body : Option StmtId)
  | method (isVirtual : Bool) (record : DeclId) (name : String) (result : TypeId)
      (params : List DeclId) (body : Option StmtId)
  | setBody (id : DeclId) (body : StmtId)
  | stmt (kind : StmtKind)
  | expr (kind : ExprKind) (type : TypeId)
  | typeOf (e : ExprId)
  | intLit (value : Int64)
  | floatLit (spelling : String)
  | boolLit (value : Bool)
  | nullPtr
  | stringLit (value : String)
  | declRef (d : DeclId)
  | load (d : DeclId)
  | rvalue (e : ExprId)
  | paren (e : ExprId)
  | unary (op : UnaryOp) (operand : ExprId)
  | binary (op : BinaryOp) (lhs rhs : ExprId)
  | conditional (cond thenExpr elseExpr : ExprId)
  | call (function : DeclId) (args : List ExprId)
  | memberCall (base : ExprId) (method : DeclId) (isArrow : Bool) (args : List ExprId)
  | member (base : ExprId) (field : DeclId) (isArrow : Bool)
  | subscript (base index : ExprId)
  | thisPointer (record : DeclId) (implicit : Bool)
  | sizeOf (arg : TypeId)

def quiet (step : Build Unit) : Build (Option Ref) := do
  step
  return none

def giveType (step : Build TypeId) : Build (Option Ref) := do
  return some (.type (← step))

def giveDecl (step : Build DeclId) : Build (Option Ref) := do
  return some (.decl (← step))

def giveStmt (step : Build StmtId) : Build (Option Ref) := do
  return some (.stmt (← step))

def giveExpr (step : Build ExprId) : Build (Option Ref) := do
  return some (.expr (← step))

def Call.run : Call → Build (Option Ref)
  | .moveTo line column => quiet (Builder.moveTo line column)
  | .addType t => giveType (Builder.addType t)
  | .builtin kind => giveType (Builder.builtin kind)
  | .constOf t => giveType (Builder.constOf t)
  | .pointer t => giveType (Builder.pointer t)
  | .constPointer t => giveType (Builder.constPointer t)
  | .lvalueRef t => giveType (Builder.lvalueRef t)
  | .constRef t => giveType (Builder.constRef t)
  | .rvalueRef t => giveType (Builder.rvalueRef t)
  | .array t size => giveType (Builder.array t size)
  | .incompleteArray t => giveType (Builder.incompleteArray t)
  | .functionType proto => giveType (Builder.functionType proto)
  | .namedType d => giveType (Builder.namedType d)
  | .addDecl parent name kind => giveDecl (Builder.addDecl parent name kind)
  | .detachedDecl name kind => giveDecl (Builder.detachedDecl name kind)
  | .setDecl id d => quiet (Builder.setDecl id d)
  | .markDeprecated id message => quiet (Builder.markDeprecated id message)
  | .addBase record base => quiet (Builder.addBase record base)
  | .function linkage parent name result params body =>
    giveDecl (Builder.function linkage parent name result params body)
  | .method isVirtual record name result params body =>
    giveDecl (Builder.method isVirtual record name result params body)
  | .setBody id body => quiet (Builder.setBody id body)
  | .stmt kind => giveStmt (Builder.stmt kind)
  | .expr kind type => giveExpr (Builder.expr kind type)
  | .typeOf e => giveType (Builder.typeOf e)
  | .intLit value => giveExpr (Builder.intLit value)
  | .floatLit spelling => giveExpr (Builder.floatLit spelling)
  | .boolLit value => giveExpr (Builder.boolLit value)
  | .nullPtr => giveExpr Builder.nullPtr
  | .stringLit value => giveExpr (Builder.stringLit value)
  | .declRef d => giveExpr (Builder.declRef d)
  | .load d => giveExpr (Builder.load d)
  | .rvalue e => giveExpr (Builder.rvalue e)
  | .paren e => giveExpr (Builder.paren e)
  | .unary op operand => giveExpr (Builder.unary op operand)
  | .binary op lhs rhs => giveExpr (Builder.binary op lhs rhs)
  | .conditional cond thenExpr elseExpr => giveExpr (Builder.conditional cond thenExpr elseExpr)
  | .call callee args => giveExpr (Builder.call callee args)
  | .memberCall base callee isArrow args => giveExpr (Builder.memberCall base callee isArrow args)
  | .member base field isArrow => giveExpr (Builder.member base field isArrow)
  | .subscript base index => giveExpr (Builder.subscript base index)
  | .thisPointer record implicit => giveExpr (Builder.thisPointer record implicit)
  | .sizeOf arg => giveExpr (Builder.sizeOf arg)

end Builder

end Interop.Native
