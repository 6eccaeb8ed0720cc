import Interop.Text.Basic

/-!
# Command line arguments

What a run is asked to do. Options may stand before and behind operands, short ones may be written
together, and after two dashes everything is an operand.
-/

namespace Interop.CommandLine

inductive Command where
  | generate (files : List String) (config output outDir : Option String) (jobs : Nat)
  | check (files : List String) (config : Option String) (deny : Bool)
  | dump (file : String)
  deriving DecidableEq

inductive Request where
  | run (command : Command)
  | version
  | help
  | misuse
  deriving DecidableEq

/-! ## Options -/

structure Flag where
  short : Option Char
  long : String
  takesValue : Bool
  deriving DecidableEq

def verboseFlag : Flag := ⟨some 'v', "verbose", false⟩

def helpFlag : Flag := ⟨some 'h', "help", false⟩

def versionFlag : Flag := ⟨some 'V', "version", false⟩

def configFlag : Flag := ⟨some 'c', "config", true⟩

def commonFlags : List Flag :=
  [verboseFlag, helpFlag, versionFlag]

def generateFlags : List Flag :=
  [verboseFlag, helpFlag, configFlag, ⟨some 'o', "output", true⟩, ⟨none, "out-dir", true⟩,
   ⟨some 'j', "jobs", true⟩]

def checkFlags : List Flag :=
  [verboseFlag, helpFlag, configFlag, ⟨none, "deny-unsupported", false⟩]

def dumpFlags : List Flag :=
  [verboseFlag, helpFlag]

/-! ## Reading -/

structure Given where
  options : List (String × String) := []
  operands : List String := []

abbrev Reading := Except Request

def isOption (word : String) : Bool :=
  Text.startsWith (· = '-') word && word ≠ "-"

def Given.add (g : Given) (flag : Flag) (value : String) : Reading Given :=
  if flag = helpFlag then .error .help
  else if flag = versionFlag then .error .version
  else if g.options.any (·.1 = flag.long) then .error .misuse
  else .ok { g with options := g.options ++ [(flag.long, value)] }

/-- Adds an option whose value is the next argument, and gives the arguments behind it. -/
def Given.addNext (g : Given) (flag : Flag) : List String → Reading (Given × List String)
  | [] => .error .misuse
  | value :: rest =>
    if isOption value then .error .misuse else return (← g.add flag value, rest)

/-- Short options that are written together, and the arguments behind them. A value may follow its
option directly or behind an equals sign. -/
def readShort (flags : List Flag) (rest : List String) :
    List Char → Given → Reading (Given × List String)
  | [], g => .ok (g, rest)
  | c :: more, g =>
    match flags.find? (·.short = some c) with
    | none => .error .misuse
    | some flag =>
      if flag.takesValue then
        match more with
        | [] => g.addNext flag rest
        | '=' :: value => return (← g.add flag (String.ofList value), rest)
        | value => return (← g.add flag (String.ofList value), rest)
      else do
        readShort flags rest more (← g.add flag "")

/-- A long option, and the arguments behind it. A value may follow behind an equals sign. -/
def readLong (flags : List Flag) (rest : List String) (word : List Char) (g : Given) :
    Reading (Given × List String) :=
  let name := String.ofList (word.takeWhile (· ≠ '='))
  match flags.find? (·.long = name), word.dropWhile (· ≠ '=') with
  | none, _ => .error .misuse
  | some flag, [] =>
    if flag.takesValue then g.addNext flag rest else return (← g.add flag "", rest)
  | some flag, _ :: value =>
    if flag.takesValue then return (← g.add flag (String.ofList value), rest)
    else .error .misuse

def readOption (flags : List Flag) (word : String) (rest : List String) (g : Given) :
    Reading (Given × List String) :=
  match word.toList with
  | '-' :: '-' :: name => readLong flags rest name g
  | '-' :: names => readShort flags rest names g
  | _ => .error .misuse

/-- The arguments of a command; at most two of them per unit of fuel. -/
def readFrom (flags : List Flag) : (fuel : Nat) → List String → Given → Reading Given
  | _, [], g => .ok g
  | 0, _, _ => .error .misuse
  | fuel + 1, word :: rest, g =>
    if word = "--" then .ok { g with operands := g.operands ++ rest }
    else if isOption word then do
      let (g, rest) ← readOption flags word rest g
      readFrom flags fuel rest g
    else readFrom flags fuel rest { g with operands := g.operands ++ [word] }

def readArguments (flags : List Flag) (words : List String) : Reading Given :=
  readFrom flags words.length words {}

/-! ## Values -/

def Given.value? (g : Given) (long : String) : Option String :=
  g.options.lookup long

def pathOf (s : String) : Reading String :=
  if s = "" then .error .misuse else .ok s

def Given.path? (g : Given) (long : String) : Reading (Option String) :=
  match g.value? long with
  | none => .ok none
  | some s => return some (← pathOf s)

/-- The paths of the operands; there is at least one. -/
def Given.paths (g : Given) : Reading (List String) :=
  if g.operands.isEmpty then .error .misuse else g.operands.mapM pathOf

def countOf? (s : String) : Option Nat :=
  let digits :=
    match s.toList with
    | '+' :: rest => rest
    | cs => cs
  let value := digits.foldl (fun n c => n * 10 + (c.toNat - 48)) 0
  if !digits.isEmpty && digits.all Char.isDigit && value < UInt64.size then some value else none

def Given.jobs (g : Given) : Reading Nat :=
  match g.value? "jobs" with
  | none => .ok 1
  | some s =>
    match countOf? s with
    | some n => .ok n
    | none => .error .misuse

/-! ## Commands -/

def readGenerate (words : List String) : Reading Command := do
  let g ← readArguments generateFlags words
  let files ← g.paths
  let config ← g.path? "config"
  let output ← g.path? "output"
  let outDir ← g.path? "out-dir"
  let jobs ← g.jobs
  if output.isSome && outDir.isSome then .error .misuse
  else return .generate files config output outDir jobs

def readCheck (words : List String) : Reading Command := do
  let g ← readArguments checkFlags words
  return .check (← g.paths) (← g.path? "config") (g.value? "deny-unsupported").isSome

def readDump (words : List String) : Reading Command := do
  let g ← readArguments dumpFlags words
  match ← g.paths with
  | [file] => return .dump file
  | _ => .error .misuse

def readCommand (name : String) (words : List String) : Reading Command :=
  if name = "generate" then readGenerate words
  else if name = "check" then readCheck words
  else if name = "dump" then readDump words
  else if name = "help" then .error .help
  else .error .misuse

/-- The options in front of the command, and the command; one argument per unit of fuel. -/
def readCommon : (fuel : Nat) → List String → Given → Reading Command
  | _, [], _ => .error .misuse
  | 0, _, _ => .error .misuse
  | fuel + 1, word :: rest, g =>
    if word = "--" then .error .misuse
    else if isOption word then do
      let (g, rest) ← readOption commonFlags word rest g
      readCommon fuel rest g
    else readCommand word rest

def Request.ofArguments (words : List String) : Request :=
  match readCommon words.length words {} with
  | .ok command => .run command
  | .error request => request

end Interop.CommandLine
