import Interop.Batch.Files
import Interop.Binding.Bindings
import Interop.Native.Format.Read

/-!
# Generation

The bindings of several units, each read from a file of its own. A first pass loads the files and
gives each path its place, a second pass emits the units that could be loaded and puts what became of
them in these places. A unit that cannot be read or that contradicts itself fails alone; one whose
references never end keeps the whole run from ending.
-/

namespace Interop.Batch

open Managed (Bindings)

inductive UnitError where
  | unreadable
  | content (e : Native.ReadError)
  /-- Nothing could be emitted for the file of the given path. -/
  | emission (path : String) (f : Binding.Failure)

/-- What is known of a file: the bindings of its unit, or why there are none. -/
abbrev UnitResult := Except UnitError Bindings

/-- The unit in a file, given the text of the file if it can be read. -/
def load (text : Option String) : Except UnitError Native.Ast :=
  match text with
  | none => .error .unreadable
  | some text => (Native.Ast.parse text).mapError .content

/-! ## Work on several units -/

/-- What becomes of a unit once it is loaded. There is no answer for a unit with endless references:
no run on it comes to an end. -/
def emission (settings : Settings) (ast : Native.Ast) : Option (Binding.Result Bindings) :=
  match Binding.bindingsOf settings ast with
  | .error .broken => none
  | outcome => some outcome

/-- Workers that share the items of a list among them. -/
structure Pool where
  /-- The results for all items, or nothing if that many workers cannot be started. -/
  run {α β : Type} (workers : Nat) (work : α → β) (items : List α) : Option (List β)
  /-- Whichever worker is done first, the results come in the order of the items. -/
  keepsOrder {α β : Type} {workers : Nat} {work : α → β} {items : List α} {results : List β} :
    run workers work items = some results → results = items.map work

/-- The number of units that may be worked on at a time; there is at least one. -/
def workers (jobs : Nat) : Nat :=
  max jobs 1

/-- Emits units, one after the other if there is one worker or hardly anything to share, or if no
others can be started. -/
def emitUnits (pool : Pool) (settings : Settings) (workers : Nat) (units : List (String × Native.Ast)) :
    Option (List (String × Binding.Result Bindings)) :=
  let emit := fun (unit : String × Native.Ast) => (emission settings unit.2).map (unit.1, ·)
  let results :=
    if workers = 1 || units.length < 2 then units.map emit
    else (pool.run workers emit units).getD (units.map emit)
  results.mapM id

/-! ## Results by path -/

structure Generation where
  units : List (String × UnitResult)

namespace Generation

/-- Notes what became of the unit of a path. If the path is there already, under any spelling, its
entry is replaced and keeps its place and spelling. -/
def put (path : String) (result : UnitResult) :
    List (String × UnitResult) → List (String × UnitResult)
  | [] => [(path, result)]
  | (other, old) :: rest =>
    if Path.same other path then (other, result) :: rest else (other, old) :: put path result rest

def putAll (results : List (String × UnitResult)) (units : List (String × UnitResult)) :
    List (String × UnitResult) :=
  results.foldl (fun units (path, result) => put path result units) units

/-- What holds the place of a unit that is loaded and not yet emitted: bindings without fragments. -/
def placeholder (ast : Native.Ast) : Bindings where
  file := ast.file
  fragments := []
  namespaces := []
  statics := []
  diagnostics := []

/-- The first pass on files, each given by its path and its text if it can be read. -/
def slots (files : List (String × Option String)) : List (String × UnitResult) :=
  putAll (files.map fun (path, text) => (path, (load text).map placeholder)) []

/-- The units that the second pass is about, in the order of their files. -/
def loaded (files : List (String × Option String)) : List (String × Native.Ast) :=
  files.filterMap fun (path, text) => (load text).toOption.map (path, ·)

/-- Both passes. Of several spellings of one path the last one counts that holds a sound syntax
tree. -/
def ofFiles (pool : Pool) (settings : Settings) (jobs : Nat) (files : List (String × Option String)) :
    Option Generation := do
  let outcomes ← emitUnits pool settings (workers jobs) (loaded files)
  let results := outcomes.map fun (path, outcome) => (path, outcome.mapError (.emission path))
  return ⟨putAll results (slots files)⟩

def emitted (g : Generation) : List (String × Bindings) :=
  g.units.filterMap fun (path, result) =>
    match result with
    | .ok b => some (path, b)
    | .error _ => none

def failures (g : Generation) : List (String × UnitError) :=
  g.units.filterMap fun (path, result) =>
    match result with
    | .ok _ => none
    | .error e => some (path, e)

def hasFailures (g : Generation) : Bool :=
  !g.failures.isEmpty

def diagnostics (g : Generation) : List Diagnostic :=
  g.emitted.flatMap (·.2.diagnostics)

def merged (g : Generation) : Bindings :=
  .merge (g.emitted.map (·.2))

end Generation

/-- The bindings of the units in files, unless the run on them does not end. -/
def generate [Monad m] (pool : Pool) (files : Files m) (settings : Settings) (jobs : Nat)
    (paths : List String) : m (Option Generation) := do
  let texts ← paths.mapM files.read
  return Generation.ofFiles pool settings jobs (paths.zip texts)

end Interop.Batch
