import Interop.Toml.Basic
import Interop.Toml.Scan

/-!
# Reading dates and times
-/

namespace Interop.Toml

open Scan

def fixedDigits : (n : Nat) → (value : Nat) → Scan Nat
  | 0, value => return value
  | n + 1, value => do
    let c ← oneOf Char.isDigit
    fixedDigits n (value * 10 + (c.toNat - 48))

def twoDigits (least greatest : Nat) : Scan Nat := do
  let value ← fixedDigits 2 0
  if least ≤ value && value ≤ greatest then return value else failure

def daysInMonth (year month : Nat) : Nat :=
  if month = 2 then
    if year % 4 = 0 && (year % 100 ≠ 0 || year % 400 = 0) then 29 else 28
  else if month = 4 || month = 6 || month = 9 || month = 11 then 30
  else 31

def date : Scan Date := do
  let year ← fixedDigits 4 0
  expect "-"
  let month ← twoDigits 1 12
  expect "-"
  let day ← twoDigits 1 (daysInMonth year month)
  return { year, month, day }

/-- A fraction of a second in nanoseconds; further digits do not count. -/
def fraction : Scan Nat := do
  expect "."
  let digits ← Scan.takeWhile Char.isDigit
  if digits.isEmpty then failure
  else
    let counted := digits.take 9
    let value := counted.foldl (fun n c => n * 10 + (c.toNat - 48)) 0
    return value * Nat.pow 10 (9 - counted.length)

/-- A time of the day, where a minute may have a leap second. -/
def time : Scan Time := do
  let hour ← twoDigits 0 23
  expect ":"
  let minute ← twoDigits 0 59
  expect ":"
  let second ← twoDigits 0 60
  let nanosecond := (← attempt fraction).getD 0
  return { hour, minute, second, nanosecond }

def offset : Scan Offset := do
  match ← next with
  | 'Z' | 'z' => return .universal
  | sign =>
    let hours ← twoDigits 0 23
    expect ":"
    let minutes ← twoDigits 0 59
    if sign = '+' then return .ahead (hours * 60 + minutes)
    else if sign = '-' then
      return if hours * 60 + minutes = 0 then .ahead 0 else .behind (hours * 60 + minutes)
    else failure

def timeOfDate : Scan (Time × Option Offset) := do
  let _ ← oneOf fun c => c = 'T' || c = 't' || c = ' '
  let t ← time
  return (t, ← attempt offset)

def moment : Scan Moment := do
  match ← attempt date with
  | some d =>
    match ← attempt timeOfDate with
    | some (t, offset) => return { date := some d, time := some t, offset }
    | none => return { date := some d, time := none, offset := none }
  | none => return { date := none, time := some (← time), offset := none }

end Interop.Toml
