import Interop.Binding.Context
import Interop.Binding.TypeMap
import Interop.Managed.Member

/-!
# Emission steps

An emission step reads the tree and works on the context: it fails or gives a result, and in either
case leaves a context behind. Whatever a step does, it closes the scopes that it opens, depends on
the context only through the scope it stands in, and adds to the context without changing what is
there. A step carries the proof of this, so it holds of everything that is put together from steps.
-/

namespace Interop.Binding

open Native (Ast DeclId TypeId Decl Ty TypeKind DeclKind)

/-- What all steps read. -/
structure Env where
  ast : Ast
  settings : EmissionSettings
  symbols : Symbols

structure Emit (α : Type) where
  run : Env → Context → Result α × Context
  /-- In a given scope a step always has the same outcome and the same effects. -/
  uniform : ∀ env scope, ∃ outcome effects, ∀ c : Context, c.scope = scope →
    run env c = (outcome, c.after effects)

namespace Emit

def ofResult (r : Result α) : Emit α where
  run _ c := (r, c)
  uniform _ _ := ⟨r, {}, fun c _ => by rw [c.after_empty]⟩

protected def pure (a : α) : Emit α :=
  ofResult (.ok a)

/-- One step after another. A failure is final. -/
protected def bind (m : Emit α) (f : α → Emit β) : Emit β where
  run env c :=
    match m.run env c with
    | (.error e, c) => (.error e, c)
    | (.ok a, c) => (f a).run env c
  uniform env scope := by
    obtain ⟨first, before, hfirst⟩ := m.uniform env scope
    cases first with
    | error e => exact ⟨.error e, before, fun c hc => by rw [hfirst c hc]⟩
    | ok a =>
      obtain ⟨second, behind, hsecond⟩ := (f a).uniform env scope
      refine ⟨second, before ++ behind, fun c hc => ?_⟩
      rw [hfirst c hc]
      change (f a).run env (c.after before) = _
      rw [hsecond (c.after before) hc, c.after_append]

instance : Monad Emit where
  pure := Emit.pure
  bind := Emit.bind

instance : MonadLift Result Emit := ⟨ofResult⟩

/-- Fails for want of a C# form. -/
def unsupported (node : String) (location : Location) (reason : String) : Emit α :=
  ofResult (refuse node location reason)

/-- Fails because the tree contradicts itself. -/
def malformed (node : String) (location : Location) (reason : String) : Emit α :=
  ofResult (reject node location reason)

instance : MonadLift Option Emit := ⟨fun a => ofResult (found a)⟩

/-! ## Reading -/

def env : Emit Env where
  run env c := (.ok env, c)
  uniform env _ := ⟨.ok env, {}, fun c _ => by rw [c.after_empty]⟩

def scope : Emit Scope where
  run _ c := (.ok c.scope, c)
  uniform _ scope := ⟨.ok scope, {}, fun c hc => by rw [c.after_empty, hc]⟩

def ast : Emit Ast := do
  return (← env).ast

def symbols : Emit Symbols := do
  return (← env).symbols

def decl (id : DeclId) : Emit Decl := do
  let ast ← ast
  ast.decl? id

def nameOf (id : DeclId) : Emit String := do
  return (← symbols).name id

def currentRecord : Emit (Option DeclId) := do
  return (← scope).record

/-! ## Effects -/

/-- Records effects. -/
def tell (effects : Effects) : Emit Unit where
  run _ c := (.ok (), c.after effects)
  uniform _ _ := ⟨.ok (), effects, fun _ _ => rfl⟩

def importNamespace (name : String) : Emit Unit :=
  tell { namespaces := [name] }

def importStatic (name : String) : Emit Unit :=
  tell { statics := [name] }

def report (d : Diagnostic) : Emit Unit :=
  tell { diagnostics := [d] }

def markPointers : Emit Unit :=
  tell { pointers := true }

def markPointersIf (flag : Bool) : Emit Unit :=
  if flag then markPointers else pure ()

/-! ## Scopes -/

/-- A step inside of a record. -/
def within (record : DeclId) (m : Emit α) : Emit α where
  run env c :=
    let (outcome, c) := m.run env (c.enterRecord record)
    (outcome, c.leaveRecord)
  uniform env scope := by
    obtain ⟨outcome, effects, h⟩ := m.uniform env { scope with record := some record }
    refine ⟨outcome, effects, fun c hc => ?_⟩
    rw [h (c.enterRecord record) (by rw [c.scope_enterRecord, hc])]
    rfl

/-- A step inside of a function with this result. -/
def returning (type : TypeId) (m : Emit α) : Emit α where
  run env c :=
    let (outcome, c) := m.run env (c.enterFunction type)
    (outcome, c.leaveFunction)
  uniform env scope := by
    obtain ⟨outcome, effects, h⟩ := m.uniform env { scope with returnType := some type }
    refine ⟨outcome, effects, fun c hc => ?_⟩
    rw [h (c.enterFunction type) (by rw [c.scope_enterFunction, hc])]
    rfl

/-- A step whose use of pointers is answered for here and does not show outside. -/
def contained (m : Emit α) : Emit (α × Bool) where
  run env c :=
    let (outcome, c) := m.run env c.enterPointerScope
    (outcome.map (·, c.usesPointers), c.leavePointerScope)
  uniform env scope := by
    obtain ⟨outcome, effects, h⟩ := m.uniform env scope
    refine ⟨outcome.map (·, effects.pointers), { effects with pointers := false }, fun c hc => ?_⟩
    rw [h c.enterPointerScope hc]
    change (outcome.map (·, (c.enterPointerScope.after effects).usesPointers), _) = _
    rw [c.usesPointers_after_enterPointerScope, c.leavePointerScope_after_enterPointerScope]

/-- A step that may be skipped: if it has no C# form, what it recorded is undone and the report of
that takes its place. -/
def skippable (m : Emit α) : Emit (Option α) where
  run env c :=
    match m.run env c with
    | (.ok a, after) => (.ok (some a), after)
    | (.error (.unsupported u), after) =>
      (.ok none, (after.rollback c.checkpoint).after { diagnostics := [.ofUnsupported u] })
    | (.error e, after) => (.error e, after)
  uniform env scope := by
    obtain ⟨outcome, effects, h⟩ := m.uniform env scope
    rcases outcome with (u | _ | _) | a
    case error.unsupported =>
      refine ⟨.ok none, { pointers := effects.pointers, diagnostics := [.ofUnsupported u] },
        fun c hc => ?_⟩
      rw [h c hc]
      change (_, ((c.after effects).rollback c.checkpoint).after _) = _
      rw [c.rollback_after_checkpoint, c.after_append]
      simp
    case ok => exact ⟨.ok (some a), effects, fun c hc => by rw [h c hc]⟩
    all_goals exact ⟨.error _, effects, fun c hc => by rw [h c hc]⟩

/-- A declaration of the file, and whether it uses pointers. One without a C# form is skipped. -/
def skippableFragment (m : Emit α) : Emit (Option (α × Bool)) := do
  let (result, usesPointers) ← contained (skippable m)
  return result.map (·, usesPointers)

/-- A member of a record. One without a C# form is skipped; the record uses the pointers of any
other one. -/
def skippableMember (m : Emit α) : Emit (Option α) := do
  let (result, usesPointers) ← contained (skippable m)
  if result.isSome && usesPointers then markPointers
  return result

def forEach (f : α → Emit β) : List α → Emit (List β)
  | [] => pure []
  | a :: rest => do
    let b ← f a
    let bs ← forEach f rest
    return b :: bs

end Emit

open Emit

/-! ## Namespaces -/

/-- Attributes such as the one for deprecation. -/
def systemNamespace : String := "System"

def codeAnalysisNamespace : String := "System.Diagnostics.CodeAnalysis"

/-- Pointer conversions and inline arrays. -/
def compilerServicesNamespace : String := "System.Runtime.CompilerServices"

/-- Imports and struct layouts. -/
def interopServicesNamespace : String := "System.Runtime.InteropServices"

/-! ## Types -/

def mapType (type : TypeId) (usage : Usage) (location : Location) : Emit MappedType := do
  let env ← env
  let context : TypeContext :=
    { ast := env.ast, symbols := env.symbols, scope := ← currentRecord, location }
  let mapped ← context.map type usage
  markPointersIf mapped.usesPointers
  return mapped

def canonicalKind (type : TypeId) : Emit TypeKind := do
  let ast ← ast
  ast.canonicalKind? type

def isReference (type : TypeId) : Emit Bool := do
  match ← canonicalKind type with
  | .lvalueReference _ | .rvalueReference _ => return true
  | _ => return false

def qualifiedName (id : DeclId) : Emit String := do
  let env ← env
  let record ← currentRecord
  qualifiedName? env.ast env.symbols id record

def fullTypeName (id : DeclId) : Emit String := do
  let env ← env
  return env.settings.scope ++ "." ++ (← qualifiedName? env.ast env.symbols id none)

/-- Makes the static class of functions visible; it is visible anyway outside of records. -/
def importMethodsClass : Emit Unit := do
  let settings := (← env).settings
  if (← currentRecord).isSome then
    importStatic (settings.scope ++ "." ++ settings.methodsClass)

/-! ## Deprecation -/

def obsoleteAttribute (id : DeclId) : Emit (Option Managed.Attribute) := do
  match (← decl id).attrs.deprecated with
  | none => return none
  | some deprecation =>
    importNamespace systemNamespace
    return some (.obsolete deprecation.message)

/-- The first deprecated typedef in the chain that starts at a type, one per unit of fuel. -/
def deprecatedTypedef? (ast : Ast) : (fuel : Nat) → TypeId → Option (Option DeclId)
  | 0, _ => none
  | fuel + 1, type => do
    match (← ast.type? type).kind with
    | .typedef id underlying =>
      if (← ast.decl? id).attrs.deprecated.isSome then return some id
      else deprecatedTypedef? ast fuel underlying
    | _ => return none

def typedefObsoleteAttribute (type : TypeId) : Emit (Option Managed.Attribute) := do
  let ast ← ast
  match ← deprecatedTypedef? ast ast.types.size type with
  | some id => obsoleteAttribute id
  | none => return none

def typeObsoleteAttribute (id : DeclId) : Emit (Option Managed.Attribute) := do
  match ← obsoleteAttribute id with
  | some mark => return some mark
  | none =>
    match (← symbols).namingTypedef? id with
    | some typedef => obsoleteAttribute typedef
    | none => return none

/-! ## Inheritance -/

/-- The number of steps along first bases from one record to another, if the second one is reached,
one per unit of fuel. -/
def baseStepsFrom (ast : Ast) (symbols : Symbols) (base : DeclId) :
    (fuel : Nat) → DeclId → Option (Option Nat)
  | 0, _ => none
  | fuel + 1, current => do
    if current = base then return some 0
    match (← ast.decl? current).kind with
    | .record r =>
      match r.bases with
      | [] => return none
      | first :: _ =>
        match ← ast.recordOf? first.type with
        | none => return none
        | some next =>
          return (← baseStepsFrom ast symbols base fuel (symbols.definition next)).map (· + 1)
    | _ => return none

/-- The number of steps along first bases from one record to another, if the second one is
reached. -/
def baseSteps (record base : DeclId) : Emit (Option Nat) := do
  let env ← env
  baseStepsFrom env.ast env.symbols (env.symbols.definition base) (env.ast.decls.size + 1)
    (env.symbols.definition record)

end Interop.Binding
