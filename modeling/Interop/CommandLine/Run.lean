import Interop.Batch.Output
import Interop.CommandLine.Arguments
import Interop.Native.Format.Describe
import Interop.SettingsFile

/-!
# Runs

What a run prints, which files it writes, and how it ends. There is no outcome if a unit with endless
references keeps it from ending.
-/

namespace Interop.CommandLine

open Batch (Files Generation Pool UnitError)

structure Outcome where
  /-- Zero if all went well, two if the arguments are wrong, and one for any other failure. -/
  exitCode : Nat := 0
  output : String := ""
  wrote : List String := []
  reports : List String := []

def Outcome.failed (reason : String) : Outcome where
  exitCode := 1
  reports := [reason]

/-! ## Reports -/

def diagnosticLine (d : Diagnostic) : String :=
  let place :=
    match d.location with
    | some location => location.display ++ ": "
    | none => ""
  place ++ d.level.name ++ ": " ++ d.message

def unitErrorLine (path : String) : UnitError → String
  | .unreadable => path ++ ": cannot be read"
  | .content .format => path ++ ": no syntax tree"
  | .content (.dangling r) => path ++ ": " ++ r.message
  | .emission path f => path ++ ": " ++ f.message

def reportLines (g : Generation) : List String :=
  g.diagnostics.map diagnosticLine ++ g.failures.map fun (path, e) => unitErrorLine path e

def failureLine (g : Generation) : String :=
  g.failures.length.repr ++ " of " ++ g.units.length.repr ++ " units failed"

/-! ## Settings -/

def settingsFor [Monad m] (files : Files m) (config : Option String) : m (Except String Settings) := do
  match config with
  | none => return .ok {}
  | some path =>
    match ← files.read path with
    | none => return .error ("Failed to load configuration: " ++ path ++ " cannot be read")
    | some text =>
      match Settings.parse text with
      | .ok settings => return .ok settings
      | .error .format => return .error ("Failed to load configuration: " ++ path ++ " is no settings file")
      | .error (.fault f) => return .error ("Failed to load configuration: " ++ f.message)

/-! ## Commands -/

def outcomeOfGenerate [Monad m] (files : Files m) (settings : Settings) (output outDir : Option String)
    (g : Generation) : m Outcome := do
  let lines := reportLines g
  let finish (printed : String) (wrote : List String) : Outcome :=
    if g.hasFailures then
      { exitCode := 1, output := printed, wrote, reports := lines ++ [failureLine g] }
    else { output := printed, wrote, reports := lines }
  let refused (path : String) : Outcome :=
    { exitCode := 1, reports := lines ++ ["Failed to write " ++ path] }
  match outDir, output with
  | some folder, _ =>
    match ← Batch.writeEach files settings g folder with
    | .ok paths => return finish "" paths
    | .error path => return refused path
  | none, some path =>
    match ← Batch.writeMerged files settings g path with
    | .ok () => return finish "" [path]
    | .error path => return refused path
  | none, none => return finish (g.merged.render settings) []

def checkLine (path : String) (b : Managed.Bindings) : String :=
  if b.diagnostics.isEmpty then path ++ ": OK\n"
  else path ++ ": " ++ b.diagnostics.length.repr ++ " diagnostics\n"

def skippedCount (g : Generation) : Nat :=
  (g.diagnostics.filter (·.kind = .unsupported)).length

def outcomeOfCheck (deny : Bool) (g : Generation) : Outcome :=
  let printed := String.join (g.emitted.map fun (path, b) => checkLine path b)
  let lines := reportLines g
  if g.hasFailures then
    { exitCode := 1, output := printed, reports := lines ++ [failureLine g] }
  else if deny && 0 < skippedCount g then
    { exitCode := 1
      output := printed
      reports := lines ++ [(skippedCount g).repr ++ " unsupported constructs were skipped"] }
  else { output := printed, reports := lines }

def runDump [Monad m] (files : Files m) (path : String) : m Outcome := do
  match Batch.load (← files.read path) with
  | .ok ast => return { output := ast.dump ++ "\n" }
  | .error e => return .failed (unitErrorLine path e)

/-- Generates bindings under the settings of a file, and goes on with them. -/
def runGeneration [Monad m] (pool : Pool) (files : Files m) (config : Option String) (jobs : Nat)
    (paths : List String) (k : Settings → Generation → m Outcome) : m (Option Outcome) := do
  match ← settingsFor files config with
  | .error reason => return some (.failed reason)
  | .ok settings =>
    match ← Batch.generate pool files settings jobs paths with
    | some g => return some (← k settings g)
    | none => return none

def runCommand [Monad m] (pool : Pool) (files : Files m) : Command → m (Option Outcome)
  | .generate paths config output outDir jobs =>
    runGeneration pool files config jobs paths fun settings => outcomeOfGenerate files settings output outDir
  | .check paths config deny =>
    runGeneration pool files config 1 paths fun _ g => return outcomeOfCheck deny g
  | .dump path => return some (← runDump files path)

def versionText : String :=
  "sharpen 0.1.0\n"

def usageText : String :=
  "Usage: sharpen [-v] generate FILES... [-c CONFIG] [-o OUTPUT | --out-dir DIR] [-j JOBS]\n" ++
    "       sharpen [-v] check FILES... [-c CONFIG] [--deny-unsupported]\n" ++
    "       sharpen [-v] dump FILE\n"

def run [Monad m] (pool : Pool) (files : Files m) (arguments : List String) : m (Option Outcome) :=
  match Request.ofArguments arguments with
  | .run command => runCommand pool files command
  | .version => return some { output := versionText }
  | .help => return some { output := usageText }
  | .misuse => return some { exitCode := 2, reports := [usageText] }

end Interop.CommandLine
