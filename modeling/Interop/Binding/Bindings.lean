import Interop.Binding.Record
import Interop.Binding.Snippet

/-!
# Emission of a tree

The declarations of a tree outside of records and functions, in order. One that has no C# form is
reported and left out; a tree that contradicts itself gives nothing at all.
-/

namespace Interop.Binding

open Native (Ast DeclId)
open Emit
open Managed (Member Placement Fragment Bindings)

/-- A declaration of the file: its place and its name, and whether it uses pointers. -/
structure Declared where
  name : String
  placement : Placement
  member : Member
  usesPointers : Bool

def Declared.fragment (d : Declared) : Fragment :=
  .declaration d.name d.member.text d.placement d.usesPointers

def declare (id : DeclId) (placement : Placement) (m : Emit Member) : Emit (Option Declared) := do
  match ← skippableFragment m with
  | some (member, usesPointers) => return some ⟨← nameOf id, placement, member, usesPointers⟩
  | none => return none

def declareConstants (enumeration : DeclId) (constants : List DeclId) : Emit (List Declared) := do
  let parts ← forEach (fun id => declare id .methods (emitConstant enumeration id)) constants
  return parts.filterMap id

def declareTopLevel (id : DeclId) : Emit (List Declared) := do
  let d ← decl id
  match d.kind with
  | .typedef _ => return []
  | .record _ => return (← declare id .scope (emitRecord id)).toList
  | .enum e =>
    if d.name = "" && ((← symbols).namingTypedef? id).isNone then declareConstants id e.constants
    else return (← declare id .scope (emitEnum id)).toList
  | .function _ => return (← declare id .methods (emitFunction id)).toList
  | .var _ => return (← declare id .methods (emitGlobal id)).toList
  | .other kind =>
    report (.ofUnsupported ⟨kind, d.location, "declaration kind has no C# form"⟩)
    return []
  | other => malformed other.title d.location "cannot appear at namespace scope"

/-! ## Selection -/

def definedFunctions (ast : Ast) : List String :=
  ast.declsWithIds.filterMap fun (_, d) =>
    match d.kind with
    | .function f => if f.body.isSome then some d.name else none
    | _ => none

/-- Whether a declaration is left out by its name. One without a name never is. -/
def isExcluded (excludes : String → Bool) (d : Native.Decl) : Bool :=
  d.name ≠ "" && excludes d.name

def isKept (ast : Ast) (excludes : String → Bool) (id : DeclId) : Bool :=
  !(ast.decl? id).any (isExcluded excludes)

/-- The declarations that count, given the functions that were met before. A function counts once,
and by its definition if there is one; a record counts unless another declaration of it does. -/
def selectFrom (env : Env) (defined : List String) : (met : List String) → List DeclId → List DeclId
  | _, [] => []
  | met, id :: rest =>
    match env.ast.decl? id with
    | none => selectFrom env defined met rest
    | some d =>
      match d.kind with
      | .function f =>
        if (f.body.isNone && defined.contains d.name) || met.contains d.name then
          selectFrom env defined met rest
        else id :: selectFrom env defined (d.name :: met) rest
      | .record _ =>
        if env.symbols.isShadowed id then selectFrom env defined met rest
        else id :: selectFrom env defined met rest
      | _ => id :: selectFrom env defined met rest

/-- The declarations that count among those without an excluded name, in order. -/
def selected? (env : Env) (excludes : String → Bool) : Option (List DeclId) := do
  let visited ← topLevel? env.ast
  return selectFrom env (definedFunctions env.ast) [] (visited.filter (isKept env.ast excludes))

def declareAll (excludes : String → Bool) : Emit (List Declared) := do
  let env ← env
  let parts ← forEach declareTopLevel (← selected? env excludes)
  return parts.flatten

def bindingsOf (settings : Settings) (ast : Ast) : Result Bindings := do
  let (declared, context) := (declareAll settings.excludes).run (← prepare settings ast) {}
  return {
    file := ast.file
    fragments := (← declared).map Declared.fragment
    namespaces := Managed.nameSet context.namespaces
    statics := Managed.nameSet context.statics
    diagnostics := context.diagnostics }

end Interop.Binding
