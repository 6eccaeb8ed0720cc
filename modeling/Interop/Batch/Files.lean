import Interop.Path

/-!
# Files

What a run may do with files, and a file system in memory that allows it.
-/

namespace Interop.Batch

structure Files (m : Type → Type) where
  read : String → m (Option String)
  write : String → String → m Bool
  /-- Makes a folder and all folders around it, and says whether it is there now. -/
  makeFolder : String → m Bool

/-- Where a file or folder stands: the names from the root down to it. -/
abbrev Place := List String

structure Workspace where
  current : Place := []
  /-- All folders but the root. -/
  folders : List Place := []
  files : List (Place × String) := []

namespace Workspace

def isFolder (w : Workspace) (place : Place) : Bool :=
  place.isEmpty || w.folders.contains place

def textAt? (w : Workspace) (place : Place) : Option String :=
  w.files.lookup place

/-! ## Places of paths -/

def origin (w : Workspace) (path : String) : Place :=
  if Text.startsWith (· = '/') path then [] else w.current

def step (w : Workspace) (here : Place) (part : String) : Option Place :=
  if part = "" || part = "." then some here
  else if part = ".." then some here.dropLast
  else if w.isFolder (here ++ [part]) then some (here ++ [part])
  else none

/-- The place of the file that a path names, whether there is one or not; the folder around it must
be there. -/
def locate? (w : Workspace) (path : String) : Option Place :=
  match (Text.split '/' path).reverse with
  | [] => none
  | last :: before =>
    if last = "" || last = "." || last = ".." || path.toList.contains '\x00' then none
    else do
      let folder ← before.reverse.foldlM w.step (w.origin path)
      return folder ++ [last]

/-! ## Operations -/

def read? (w : Workspace) (path : String) : Option String := do
  w.textAt? (← w.locate? path)

def put (w : Workspace) (place : Place) (text : String) : Workspace :=
  if (w.textAt? place).isSome then
    { w with files := w.files.map fun (p, old) => if p = place then (p, text) else (p, old) }
  else { w with files := w.files ++ [(place, text)] }

def write? (w : Workspace) (path text : String) : Option Workspace := do
  let place ← w.locate? path
  if w.isFolder place then none else return w.put place text

/-- One step along a path whose folders are made if they are missing. -/
def stepMaking (position : Workspace × Place) : Path.Component → Option (Workspace × Place)
  | .root => some (position.1, [])
  | .current => some position
  | .parent => some (position.1, position.2.dropLast)
  | .normal name =>
    let place := position.2 ++ [name]
    if position.1.isFolder place then some (position.1, place)
    else if (position.1.textAt? place).isSome then none
    else some ({ position.1 with folders := position.1.folders ++ [place] }, place)

/-- One step along a path whose folders must be there. -/
def stepWithin (w : Workspace) (here : Place) : Path.Component → Option Place
  | .root => some []
  | .current => some here
  | .parent => some here.dropLast
  | .normal name => w.step here name

/-- Whether the last part of a path is a dot, which only names a folder that is there. -/
def endsInDot (path : String) : Bool :=
  ((Text.split '/' path).filter (· ≠ "")).getLast? = some "."

def makeFolder? (w : Workspace) (path : String) : Option Workspace := do
  let steps := Path.components path
  if path.toList.contains '\x00' then none
  else if endsInDot path then
    let (w, here) ← steps.dropLast.foldlM stepMaking (w, w.current)
    let _ ← steps.getLast?.toList.foldlM w.stepWithin here
    return w
  else return (← steps.foldlM stepMaking (w, w.current)).1

def listing (w : Workspace) : List (String × String) :=
  w.files.filterMap fun (place, text) =>
    if w.current.isPrefixOf place then
      some (Text.joinWith "/" (place.drop w.current.length), text)
    else none

/-- An operation that may not be possible: the file system stays as it is then. -/
def attempt (f : Workspace → Option Workspace) : StateM Workspace Bool := do
  match f (← get) with
  | some w =>
    set w
    return true
  | none => return false

def access : Files (StateM Workspace) where
  read path := do return (← get).read? path
  write path text := attempt (·.write? path text)
  makeFolder path := attempt (·.makeFolder? path)

end Workspace

end Interop.Batch
