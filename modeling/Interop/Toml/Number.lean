import Interop.Json.Token
import Interop.Text.Basic
import Interop.Toml.Basic
import Interop.Toml.Scan

/-!
# Reading numbers

Integers of 64 bits in four bases, and floating point numbers of 64 bits. Single underscores may
stand between digits.
-/

namespace Interop.Toml

open Scan

/-- Digits with single underscores between them; the underscores are left out. -/
def digitGroups (p : Char → Bool) : Scan (List Char) := do
  let run ← Scan.takeWhile fun c => p c || c = '_'
  if (Text.splitChars '_' run).all (!·.isEmpty) then return run.filter (· ≠ '_') else failure

def valueIn (base : Nat) (digits : List Char) : Nat :=
  digits.foldl (fun n c => n * base + (Json.hexValue? c).getD 0) 0

def fitting (n : Int) : Scan Value :=
  if Int64.minValue.toInt ≤ n && n ≤ Int64.maxValue.toInt then return .integer n else failure

def based (base : Nat) (p : Char → Bool) : Scan Value := do
  fitting (valueIn base (← digitGroups p))

def isDigitOf (base : Nat) (c : Char) : Bool :=
  c.isDigit && c.toNat - 48 < base

def sign : Scan (Option Char) :=
  attempt (oneOf fun c => c = '+' || c = '-')

/-- The digits of an integer; only zero itself starts with a zero. -/
def wholeDigits : Scan (List Char) := do
  let digits ← digitGroups Char.isDigit
  if digits.head? = some '0' && 1 < digits.length then failure else return digits

def exponent : Scan Int := do
  let _ ← oneOf fun c => c = 'e' || c = 'E'
  let sign ← sign
  let value : Int := valueIn 10 (← digitGroups Char.isDigit)
  return if sign = some '-' then -value else value

def fractionDigits : Scan (List Char) := do
  expect "."
  digitGroups Char.isDigit

/-- Whether a decimal number is rounded to infinity: it is at least halfway between the greatest
finite number and the next power of two. -/
def overflows (digits : List Char) (exponent : Int) : Bool :=
  let significand := valueIn 10 digits
  let size : Int := significand.repr.length + exponent
  if significand = 0 || size ≤ 308 then false
  else if 311 ≤ size then true
  else
    let bound := Nat.pow 2 1024 - Nat.pow 2 970
    if 0 ≤ exponent then bound ≤ significand * Nat.pow 10 exponent.toNat
    else bound * Nat.pow 10 (-exponent).toNat ≤ significand

/-- A floating point number behind its sign and its whole digits: there is a fraction, an exponent
or both. Positive numbers that are rounded to infinity are refused. -/
def floatingTail (sign : Option Char) (whole : List Char) : Scan Value := do
  let fraction ← attempt fractionDigits
  let exp ← attempt exponent
  if fraction.isNone && exp.isNone then failure
  else
    let places := (fraction.getD []).length
    let digits := whole ++ fraction.getD []
    let power := exp.getD 0 - places
    if sign ≠ some '-' && overflows digits power then failure
    else
      return .floating
        (String.ofList (sign.toList ++ digits) ++ "e" ++ power.repr)

/-- A number in base ten, or one of the special floating point numbers. -/
def decimal : Scan Value := do
  let sign ← sign
  if ← accept "inf" then return .floating (String.ofList sign.toList ++ "inf")
  else if ← accept "nan" then return .floating (String.ofList sign.toList ++ "nan")
  else
    let whole ← wholeDigits
    match ← attempt (floatingTail sign whole) with
    | some v => return v
    | none =>
      let value : Int := valueIn 10 whole
      fitting (if sign = some '-' then -value else value)

def number : Scan Value := do
  if ← accept "0x" then based 16 fun c => (Json.hexValue? c).isSome
  else if ← accept "0o" then based 8 (isDigitOf 8)
  else if ← accept "0b" then based 2 (isDigitOf 2)
  else decimal

end Interop.Toml
