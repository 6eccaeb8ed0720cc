import Interop.CommandLine.Run

/-!
# The program
-/

namespace Interop

def succeeds (action : IO Unit) : IO Bool := do
  try
    action
    return true
  catch _ => return false

def realFiles : Batch.Files IO where
  read path := do
    try
      return some (← IO.FS.readFile path)
    catch _ => return none
  write path text := succeeds (IO.FS.writeFile path text)
  makeFolder path := if path = "" then return true else succeeds (IO.FS.createDirAll path)

/-- Starts a task for each of the first items, as many as there are workers, and waits for them before
it goes on with the others. -/
def inGroups (size : Nat) (work : α → β) : List α → List β
  | [] => []
  | item :: rest =>
    let tasks := (item :: rest.take size).map fun item => Task.spawn fun _ => work item
    tasks.map Task.get ++ inGroups size work (rest.drop size)
termination_by items => items.length

theorem inGroups_eq_map (size : Nat) (work : α → β) (items : List α) :
    inGroups size work items = items.map work := by
  fun_induction inGroups size work items with
  | case1 => rfl
  | case2 item rest tasks ih =>
    have htasks : tasks.map Task.get = (item :: rest.take size).map work := by
      simp [tasks, Task.spawn, Function.comp_def]
    rw [htasks, ih, ← List.map_append, List.cons_append, List.take_append_drop]

def threads : Batch.Pool where
  run workers work items := some (inGroups (workers - 1) work items)
  keepsOrder h := by rw [← Option.some.inj h, inGroups_eq_map]

end Interop

open Interop

def main (arguments : List String) : IO UInt32 := do
  match ← CommandLine.run threads realFiles arguments with
  | none =>
    IO.eprintln "a unit refers to itself without end"
    return 134
  | some outcome =>
    for line in outcome.reports do
      IO.eprintln line
    for path in outcome.wrote do
      IO.eprintln ("Wrote " ++ path)
    IO.print outcome.output
    return outcome.exitCode.toUInt32
