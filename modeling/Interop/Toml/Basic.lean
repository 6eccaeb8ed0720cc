import Interop.Json.Basic

/-!
# TOML values
-/

namespace Interop.Toml

structure Date where
  year : Nat
  month : Nat
  day : Nat
  deriving DecidableEq

structure Time where
  hour : Nat
  minute : Nat
  second : Nat
  nanosecond : Nat
  deriving DecidableEq

inductive Offset where
  | universal
  | ahead (minutes : Nat)
  | behind (minutes : Nat)
  deriving DecidableEq

structure Moment where
  date : Option Date
  time : Option Time
  offset : Option Offset
  deriving DecidableEq

inductive Value where
  | text (s : String)
  | integer (n : Int)
  | floating (lexeme : String)
  | bool (b : Bool)
  | moment (m : Moment)
  | array (items : List Value)
  | table (entries : List (String × Value))

/-! ## Texts of moments -/

def padded (width n : Nat) : String :=
  String.ofList (List.replicate (width - n.repr.length) '0') ++ n.repr

def fractionText (nanosecond : Nat) : String :=
  String.ofList ((padded 9 nanosecond).toList.reverse.dropWhile (· = '0')).reverse

def Date.text (d : Date) : String :=
  padded 4 d.year ++ "-" ++ padded 2 d.month ++ "-" ++ padded 2 d.day

def Time.text (t : Time) : String :=
  padded 2 t.hour ++ ":" ++ padded 2 t.minute ++ ":" ++ padded 2 t.second ++
    (if t.nanosecond = 0 then "" else "." ++ fractionText t.nanosecond)

def clockText (minutes : Nat) : String :=
  padded 2 (minutes / 60) ++ ":" ++ padded 2 (minutes % 60)

def Offset.text : Offset → String
  | .universal => "Z"
  | .ahead minutes => "+" ++ clockText minutes
  | .behind minutes => "-" ++ clockText minutes

def Moment.text (m : Moment) : String :=
  let time :=
    match m.date, m.time with
    | some _, some t => "T" ++ t.text
    | none, some t => t.text
    | _, none => ""
  ((m.date.map Date.text).getD "") ++ time ++ ((m.offset.map Offset.text).getD "")

/-! ## Values as documents -/

namespace Value

mutual

def json : Value → Json
  | .text s => .str s
  | .integer n => .int n
  | .floating lexeme => .real lexeme
  | .bool b => .bool b
  | .moment m => .obj [(some "$__toml_private_datetime", .str m.text)]
  | .array items => .arr (jsonItems items)
  | .table entries => .obj (jsonFields entries)

def jsonItems : List Value → List Json
  | [] => []
  | v :: rest => v.json :: jsonItems rest

def jsonFields : List (String × Value) → List (Option String × Json)
  | [] => []
  | (name, v) :: rest => (some name, v.json) :: jsonFields rest

end

end Value

end Interop.Toml
