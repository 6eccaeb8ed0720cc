import Interop.Binding.Expr.Lowering

/-!
# Emission of statements

The rule for each kind of statement, given the emission of the statements inside it, and the
emission of statements by recursion on their depth. Every nested body becomes a list of statements
that stands in braces.
-/

namespace Interop.Binding

open Native (StmtId ExprId TypeId DeclId StmtKind)
open Emit
open Managed (Effect Declarator Locals ForInit Label)

abbrev Nested := StmtId → Emit Managed.Stmt

def stmtOf (id : StmtId) : Emit Native.Stmt := do
  let ast ← ast
  ast.stmt? id

def isEmptyStmt (id : StmtId) : Emit Bool := do
  return (← stmtOf id).kind == .empty

/-! ## Effects -/

/-- An expression that is evaluated for its effect. C# allows assignments, calls and increments;
anything else is discarded. -/
def effectOf (id : ExprId) : Emit Effect := do
  let inner ← ignoreParens id
  match (← exprOf inner).kind with
  | .explicitCast _ .toVoid operand => return ⟨true, ← emitValue operand⟩
  | .implicitCast .toVoid operand => return ⟨true, ← emitValue operand⟩
  | .binary op _ _ =>
    if op.isAssignment || op = .comma then return ⟨false, ← emitValue inner⟩
    else return ⟨true, ← emitValue id⟩
  | .call _ _ => return ⟨false, ← emitValue inner⟩
  | .unary op _ =>
    match op with
    | .preInc | .preDec | .postInc | .postDec => return ⟨false, ← emitValue inner⟩
    | _ => return ⟨true, ← emitValue id⟩
  | _ => return ⟨true, ← emitValue id⟩

/-! ## Variables -/

def isStringLiteral (id : ExprId) : Emit Bool := do
  match (← exprOf (← ignoreImplicit id)).kind with
  | .string _ _ => return true
  | _ => return false

/-- The initial value of a variable that is no reference. Records and arrays always have one. -/
def localValue (v : Native.Var) (mapped : MappedType) (d : Native.Decl) (location : Location) :
    Emit (Option Managed.Expr) := do
  match v.init, ← canonicalKind v.type with
  | some init, .constantArray _ _ =>
    if ← isStringLiteral init then
      unsupported "array initialization" location
        "arrays initialized from string literals are not supported"
    else return some (← emitValue init)
  | some init, _ => return some (← emitValue init)
  | none, .record _ => return some (.newObject mapped.type)
  | none, .constantArray element size =>
    let element ← mapType element .pointee d.location
    return some (.newArray element.type size.toNat)
  | none, _ => return none

def localDecl (location : Location) (id : DeclId) : Emit (Managed.TypeName × Declarator) := do
  let d ← decl id
  let name ← nameOf id
  match d.kind with
  | .var v =>
    if v.storage = .static then
      unsupported "static local" d.location "C# has no function-scoped statics"
    else
      let mapped ← mapType v.type .localVar d.location
      if ← isReference v.type then
        match v.init with
        | some init => return (mapped.type, ⟨name, some (← emitAddress init)⟩)
        | none =>
          malformed "reference" d.location ("reference `" ++ d.name ++ "` is not bound")
      else return (mapped.type, ⟨name, ← localValue v mapped d location⟩)
  | kind =>
    unsupported kind.title d.location "only variables can be declared inside a function body"

/-- Puts a declaration in front of those that follow it, together with the first of them if both
have the same type. -/
def groupLocal (type : Managed.TypeName) (d : Declarator) : List Locals → List Locals
  | [] => [⟨type, [d]⟩]
  | l :: rest =>
    if l.type.text = type.text then ⟨type, d :: l.declarators⟩ :: rest else ⟨type, [d]⟩ :: l :: rest

/-- The declarations of one statement: consecutive variables of one type are declared together. -/
def localsOf (decls : List DeclId) (location : Location) : Emit (List Locals) := do
  let declared ← forEach (localDecl location) decls
  return declared.foldr (fun (type, d) groups => groupLocal type d groups) []

/-! ## Loops and branches -/

def statementsOf (nested : Nested) : List StmtId → Emit (List Managed.Stmt)
  | [] => return []
  | id :: rest => do
    if ← isEmptyStmt id then statementsOf nested rest
    else
      let s ← nested id
      return s :: (← statementsOf nested rest)

def bodyOf (nested : Nested) (id : StmtId) : Emit (List Managed.Stmt) := do
  match (← stmtOf id).kind with
  | .compound children => statementsOf nested children
  | _ => statementsOf nested [id]

def forInitOf : Option StmtId → Emit ForInit
  | none => return .nothing
  | some init => do
    let s ← stmtOf init
    match s.kind with
    | .decls ids =>
      match ← localsOf ids s.location with
      | [] => return .nothing
      | [group] => return .locals group
      | _ =>
        unsupported "for statement" s.location
          "a for initializer can only declare variables of one type"
    | .expr value => return .effect (← effectOf value)
    | .empty => return .nothing
    | other => malformed "for statement" s.location (other.title ++ " as initializer")

def optional (f : α → Emit β) : Option α → Emit (Option β)
  | some a => do return some (← f a)
  | none => return none

/-- A branch in front of what follows it: conditions that are tried one after another stay flat. -/
def prependArm (cond : Managed.Expr) (body : List Managed.Stmt) : Managed.Stmt → Managed.Stmt
  | .branch arms otherwise => .branch ((cond, body) :: arms) otherwise
  | other => .branch [(cond, body)] (some [other])

def ifRule (nested : Nested) (cond : ExprId) (thenBranch : StmtId) (elseBranch : Option StmtId) :
    Emit Managed.Stmt := do
  let cond ← emitCondition cond
  let body ← bodyOf nested thenBranch
  match elseBranch with
  | none => return .branch [(cond, body)] none
  | some other =>
    match (← stmtOf other).kind with
    | .ifElse _ _ _ => return prependArm cond body (← nested other)
    | _ => return .branch [(cond, body)] (some (← bodyOf nested other))

/-- The rule for returns. A function without a result may return a call of another one. -/
def returnRule (s : Native.Stmt) (value : Option ExprId) : Emit Managed.Stmt := do
  let returnType := (← scope).returnType
  let returnsVoid ←
    match returnType with
    | some type => isVoidType type
    | none => pure true
  match value, returnType with
  | none, _ =>
    if returnsVoid then return .ret none
    else
      malformed "return statement" s.location "missing value in a function returning a value"
  | some value, none => return .ret (some (← emitValue value))
  | some value, some type =>
    if returnsVoid then return .effectThenReturn (← effectOf value)
    else if ← isReference type then return .ret (some (← emitAddress value))
    else return .ret (some (← emitValue value))

/-! ## Switches -/

structure Section where
  labels : List Label
  body : List StmtId

/-- The labels in front of a statement, and the statement; one label per unit of fuel. -/
def peelLabels : (fuel : Nat) → StmtId → Emit (List Label × StmtId)
  | 0, _ => ofResult (.error .broken)
  | fuel + 1, id => do
    match (← stmtOf id).kind with
    | .caseLabel value body =>
      let e ← emitValue value
      let (labels, rest) ← peelLabels fuel body
      return (.value e :: labels, rest)
    | .defaultLabel body =>
      let (labels, rest) ← peelLabels fuel body
      return (.otherwise :: labels, rest)
    | _ => return ([], id)

/-- Whether a section does nothing, so that control falls into the next label. -/
def Section.isEmpty (s : Section) : Emit Bool := do
  return (← forEach isEmptyStmt s.body).all id

/-- The sections with one more labelled or plain statement; the last section stands first. Labels
behind an empty section are added to its labels. -/
def addToSections (location : Location) (labels : List Label) (id : StmtId) :
    List Section → Emit (List Section)
  | [] =>
    if labels.isEmpty then
      unsupported "switch statement" location
        "statements before the first case label are unreachable in C#"
    else return [⟨labels, [id]⟩]
  | last :: before => do
    if labels.isEmpty then return ⟨last.labels, last.body ++ [id]⟩ :: before
    else if ← last.isEmpty then return ⟨last.labels ++ labels, last.body ++ [id]⟩ :: before
    else return ⟨labels, [id]⟩ :: last :: before

/-- The sections of a switch; the last section stands first. -/
def gatherSections (location : Location) (fuel : Nat) :
    List StmtId → List Section → Emit (List Section)
  | [], done => return done
  | child :: rest, done => do
    let (labels, inner) ← peelLabels fuel child
    gatherSections location fuel rest (← addToSections location labels inner done)

/-- The statements of a section. A block supplies its own, and an empty section leaves the
switch. -/
def sectionBody (nested : Nested) (s : Section) : Emit (List Managed.Stmt) := do
  let flagged ← forEach (fun id => return (id, ← isEmptyStmt id)) s.body
  match (flagged.filter (!·.2)).map (·.1) with
  | [] => return [.breakOut]
  | [single] => bodyOf nested single
  | many => statementsOf nested many

def switchRule (nested : Nested) (s : Native.Stmt) (cond : ExprId) (body : StmtId) :
    Emit Managed.Stmt := do
  let value ← emitValue cond
  let children :=
    match (← stmtOf body).kind with
    | .compound children => children
    | _ => [body]
  let fuel := (← ast).stmts.size + 1
  let sections := (← gatherSections s.location fuel children []).reverse
  return .switch value
    (← forEach (fun part => do
      let body ← sectionBody nested part
      return (part.labels, body)) sections)

/-! ## All kinds -/

def stmtRule (nested : Nested) (id : StmtId) : Emit Managed.Stmt := do
  let s ← stmtOf id
  match s.kind with
  | .compound children => return .block (← statementsOf nested children)
  | .decls ids => return .locals (← localsOf ids s.location)
  | .expr value => return .effect (← effectOf value)
  | .ret value => returnRule s value
  | .ifElse cond thenBranch elseBranch => ifRule nested cond thenBranch elseBranch
  | .whileLoop cond body =>
    let cond ← emitCondition cond
    return .whileLoop cond (← bodyOf nested body)
  | .doLoop body cond =>
    let body ← bodyOf nested body
    return .doLoop body (← emitCondition cond)
  | .forLoop init cond inc body =>
    let init ← forInitOf init
    let cond ← optional emitCondition cond
    let step ← optional effectOf inc
    return .forLoop init cond step (← bodyOf nested body)
  | .switch cond body => switchRule nested s cond body
  | .caseLabel _ _ | .defaultLabel _ =>
    unsupported s.kind.title s.location
      "labels nested below the top of a switch body cannot be expressed"
  | .breakOut => return .breakOut
  | .continueLoop => return .continueLoop
  | .empty => return .nothing
  | .other kind => unsupported kind s.location "no C# statement form"

def nestedTo : (depth : Nat) → Nested
  | 0 => fun _ => ofResult (.error .broken)
  | depth + 1 => stmtRule (nestedTo depth)

/-- The emission of the statements of the tree: none is deeper than there are statements. -/
def emitStmt (id : StmtId) : Emit Managed.Stmt := do
  nestedTo ((← ast).stmts.size + 1) id

def emitBody (id : StmtId) : Emit (List Managed.Stmt) := do
  bodyOf (nestedTo ((← ast).stmts.size + 1)) id

end Interop.Binding
