import Interop.Text.Basic

/-!
# File paths

A path is a text with components between slashes. Two paths are the same when their components are:
doubled slashes, a slash at the end and a dot between components do not count, while a dot in front
does.
-/

namespace Interop.Path

inductive Component where
  | root
  | current
  | parent
  | normal (name : String)
  deriving DecidableEq

def componentOf (part : String) : Option Component :=
  if part = "" || part = "." then none
  else if part = ".." then some .parent
  else some (.normal part)

/-- The steps of a path. A leading slash is the root, and a leading dot is kept. -/
def components (path : String) : List Component :=
  match Text.split '/' path with
  | [] => []
  | first :: rest =>
    let steps := rest.filterMap componentOf
    if first = "" then if rest.isEmpty then [] else .root :: steps
    else if first = "." then .current :: steps
    else (componentOf first).toList ++ steps

def same (a b : String) : Bool :=
  components a == components b

/-- The last component, when it is a name. -/
def fileName? (path : String) : Option String :=
  match (components path).getLast? with
  | some (.normal name) => some name
  | _ => none

/-- A file name cut at its last dot, unless it has none or the dot stands in front. -/
def stemOfName (name : String) : String :=
  let reversed := name.toList.reverse
  match reversed.dropWhile (· ≠ '.') with
  | [] => name
  | _ :: before => if before.isEmpty then name else String.ofList before.reverse

def stem? (path : String) : Option String :=
  (fileName? path).map stemOfName

def join (dir name : String) : String :=
  if Text.startsWith (· = '/') name then name
  else if dir = "" || Text.endsWith (· = '/') dir then dir ++ name
  else dir ++ "/" ++ name

end Interop.Path
