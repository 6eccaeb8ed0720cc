import Interop.Managed.Expr

/-!
# C# statements

A statement is a tree; its lines follow from it. Every nested body is a block in braces. An empty
line follows a statement with a block, and the last one of a run of declarations.
-/

namespace Interop.Managed

/-- An expression that is evaluated for its effect. A value that is no effect by itself is assigned
to a discard. -/
structure Effect where
  discards : Bool
  value : Expr

def Effect.text (e : Effect) : String :=
  (if e.discards then "_ = " else "") ++ e.value.text

structure Declarator where
  name : String
  value : Option Expr

def Declarator.text (d : Declarator) : String :=
  match d.value with
  | some value => d.name ++ " = " ++ value.text
  | none => d.name

structure Locals where
  type : TypeName
  declarators : List Declarator

def Locals.text (l : Locals) : String :=
  l.type.text ++ " " ++ Text.joinWith ", " (l.declarators.map Declarator.text)

inductive ForInit where
  | nothing
  | locals (l : Locals)
  | effect (e : Effect)

def ForInit.text : ForInit → String
  | .nothing => ""
  | .locals l => l.text
  | .effect e => e.text

inductive Label where
  | value (e : Expr)
  | otherwise

def Label.text : Label → String
  | .value e => "case " ++ e.text ++ ":"
  | .otherwise => "default:"

inductive Stmt where
  | nothing
  | block (body : List Stmt)
  /-- Declarations, one line for each type. -/
  | locals (groups : List Locals)
  | effect (e : Effect)
  | ret (value : Option Expr)
  | effectThenReturn (e : Effect)
  /-- Conditions that are tried in order, each with its body, and what else is done. -/
  | branch (arms : List (Expr × List Stmt)) (otherwise : Option (List Stmt))
  | whileLoop (cond : Expr) (body : List Stmt)
  | doLoop (body : List Stmt) (cond : Expr)
  | forLoop (init : ForInit) (cond : Option Expr) (step : Option Effect) (body : List Stmt)
  | switch (value : Expr) (sections : List (List Label × List Stmt))
  | breakOut
  | continueLoop

/-- What decides about the empty lines around a statement. -/
inductive Spacing where
  | block
  | declaration
  | simple
  deriving DecidableEq

def Spacing.separates : Spacing → Spacing → Bool
  | .block, _ => true
  | .declaration, next => next ≠ .declaration
  | .simple, _ => false

namespace Stmt

def spacing : Stmt → Spacing
  | .block _ | .branch _ _ | .whileLoop _ _ | .doLoop _ _ | .forLoop _ _ _ _ | .switch _ _ => .block
  | .locals _ => .declaration
  | _ => .simple

def headingPart : Option String → String
  | some s => " " ++ s
  | none => ""

/-- Puts the empty line between a statement and the lines of the next one. -/
def separate (previous : Option Spacing) (next : Spacing) (code : Code) : Code :=
  match previous with
  | some p => if p.separates next then Code.blank ++ code else code
  | none => code

mutual

def code : Stmt → Code
  | .nothing => []
  | .block body => Code.braced (bodyCode none body)
  | .locals groups => groups.flatMap fun l => Code.ofText (l.text ++ ";")
  | .effect e => Code.ofText (e.text ++ ";")
  | .ret none => Code.ofText "return;"
  | .ret (some value) => Code.ofText ("return " ++ value.text ++ ";")
  | .effectThenReturn e => Code.ofText (e.text ++ ";") ++ Code.ofText "return;"
  | .branch arms none => armsCode "" arms
  | .branch arms (some body) =>
    armsCode "" arms ++ Code.ofText "else" ++ Code.braced (bodyCode none body)
  | .whileLoop cond body =>
    Code.ofText ("while (" ++ cond.text ++ ")") ++ Code.braced (bodyCode none body)
  | .doLoop body cond =>
    Code.ofText "do" ++ Code.braced (bodyCode none body) ++
      Code.ofText ("while (" ++ cond.text ++ ");")
  | .forLoop init cond step body =>
    Code.ofText ("for (" ++ init.text ++ ";" ++ headingPart (cond.map Expr.text) ++ ";" ++
      headingPart (step.map Effect.text) ++ ")") ++ Code.braced (bodyCode none body)
  | .switch value sections =>
    Code.ofText ("switch (" ++ value.text ++ ")") ++ Code.braced (sectionsCode false sections)
  | .breakOut => Code.ofText "break;"
  | .continueLoop => Code.ofText "continue;"

def bodyCode (previous : Option Spacing) : List Stmt → Code
  | [] => []
  | s :: rest => separate previous s.spacing s.code ++ bodyCode (some s.spacing) rest

def armsCode (lead : String) : List (Expr × List Stmt) → Code
  | [] => []
  | (cond, body) :: rest =>
    Code.ofText (lead ++ "if (" ++ cond.text ++ ")") ++ Code.braced (bodyCode none body) ++
      armsCode "else " rest

def sectionsCode (follows : Bool) : List (List Label × List Stmt) → Code
  | [] => []
  | (labels, body) :: rest =>
    (if follows then Code.blank else []) ++
      labels.flatMap (fun l => Code.ofText l.text) ++ Code.braced (bodyCode none body) ++
      sectionsCode true rest

end

end Stmt

end Interop.Managed
