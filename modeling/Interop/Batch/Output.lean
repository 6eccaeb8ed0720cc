import Interop.Batch.Generation

/-!
# Writing bindings

All units in one file, or one file for each unit.
-/

namespace Interop.Batch

def outputStem (path : String) : String :=
  let stem := (Path.stem? path).getD "unit"
  (Text.dropTail? ".ast" stem).getD stem

/-- The names of the files for several units, given the stems that were met before: a stem that is
met again is numbered. -/
def outputNames (met : List String) : List String → List String
  | [] => []
  | stem :: rest =>
    let count := met.count stem + 1
    (if count = 1 then stem ++ ".cs" else stem ++ "_" ++ count.repr ++ ".cs") ::
      outputNames (stem :: met) rest

def outputPaths (folder : String) (paths : List String) : List String :=
  (outputNames [] (paths.map outputStem)).map (Path.join folder)

/-- Writes texts to files in order, up to the first one that cannot be written, whose path is the
error. -/
def writeAll [Monad m] (files : Files m) : List (String × String) → m (Except String Unit)
  | [] => return .ok ()
  | (path, text) :: rest => do
    if ← files.write path text then writeAll files rest else return .error path

def writeMerged [Monad m] (files : Files m) (settings : Settings) (g : Generation)
    (path : String) : m (Except String Unit) :=
  writeAll files [(path, g.merged.render settings)]

/-- Writes one file for each unit into a folder, and gives the paths of the files. -/
def writeEach [Monad m] (files : Files m) (settings : Settings) (g : Generation)
    (folder : String) : m (Except String (List String)) := do
  if ← files.makeFolder folder then
    let paths := outputPaths folder (g.emitted.map (·.1))
    let texts := g.emitted.map fun (_, b) => b.render settings
    match ← writeAll files (paths.zip texts) with
    | .ok () => return .ok paths
    | .error path => return .error path
  else return .error folder

end Interop.Batch
