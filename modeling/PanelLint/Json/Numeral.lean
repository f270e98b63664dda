import PanelLint.Json.SyntaxError
import PanelLint.Json.Value
import PanelLint.Number.Read
import PanelLint.Number.Width
/-!
# The numbers of a JSON text

A number without a fraction and an exponent is an integer when it fits 64 bits, signed below zero and
unsigned above. Every other one is a float: its digits make a significand of at most 64 bits, beyond
which further digits only count for the magnitude, and the significand is scaled by a power of ten.
Each of these two steps rounds. A float beyond all finite values is an error, one too small is zero,
and a negative zero is a float.
-/

namespace PanelLint.Json

open PanelLint.Number

/-! ## Digits -/

/-- Whether a text begins with a decimal digit. -/
def startsWithDigit (cs : List Char) : Bool := cs.head?.any Char.isDigit

/-- Digits taken into a number for as long as it fits so many bits: the number, how many there were,
and the rest. -/
def takeDigits (bits : Nat) (number count : Nat) : List Char → Nat × Nat × List Char
  | [] => (number, count, [])
  | c :: cs =>
    if c.isDigit ∧ isUnsigned bits (10 * number + digitValue c) then
      takeDigits bits (10 * number + digitValue c) (count + 1) cs
    else (number, count, c :: cs)

/-! ## The value -/

/-- The rounded power of ten. -/
def powerOfTen (k : Nat) : Binary64 := Binary64.ofDecimal false 1 k

/-- A value divided by `10 ^ k`, by at most `10 ^ 308` at a time. Three divisions leave nothing of a
significand of 64 bits, so a `fuel` of four is enough. -/
def scaleDown : (fuel : Nat) → Binary64 → (k : Nat) → Binary64
  | 0, x, _ => x
  | fuel + 1, x, k =>
    if k ≤ 308 then x.div (powerOfTen k)
    else scaleDown fuel (x.div (powerOfTen 308)) (k - 308)

/-- The value of `significand · 10 ^ exponent`, unless it is beyond all finite values. -/
def scaled? (significand : Nat) (exponent : Int) : Option Binary64 :=
  let x := Binary64.ofNat significand
  if significand = 0 then some x
  else if exponent < 0 then some (scaleDown 4 x exponent.natAbs)
  else if exponent > 308 then none
  else
    let y := x.mul (powerOfTen exponent.natAbs)
    if y.isFinite then some y else none

/-- The float `± significand · 10 ^ exponent`, which was written before `rest`. -/
def floatValue (negative : Bool) (significand : Nat) (exponent : Int) (rest : List Char) :
    Except Fault (Value × List Char) :=
  match scaled? significand exponent with
  | none => .error (.before .numberOutOfRange rest)
  | some x => .ok (.float (if negative then x.neg else x), rest)

/-- The number `± significand`, which was written without a fraction and an exponent. -/
def wholeValue (negative : Bool) (significand : Nat) : Value :=
  if !negative then .integer significand
  else if significand ≠ 0 ∧ isSigned 64 (-significand) then .integer (-significand)
  else .float (Binary64.ofNat significand).neg

/-! ## The notation -/

/-- What follows the mark of an exponent. An exponent that takes more than 31 bits makes a number
that is too large or zero. -/
def readPower (negative : Bool) (significand : Nat) (exponent : Int) (cs : List Char) :
    Except Fault (Value × List Char) :=
  let (down, cs) := takeSign cs
  if cs.isEmpty then .error (.before .unfinishedValue [])
  else if !startsWithDigit cs then .error (.after .badNumber cs)
  else
    let (power, _, rest) := takeDigits 31 0 0 cs
    if startsWithDigit rest then
      if significand ≠ 0 ∧ !down then .error (.after .numberOutOfRange rest)
      else .ok (.float (Binary64.zero negative), rest.dropWhile Char.isDigit)
    else floatValue negative significand (if down then exponent - power else exponent + power) rest

/-- What follows the last digit of a float: an exponent or nothing. -/
def readExponent (negative : Bool) (significand : Nat) (exponent : Int) :
    List Char → Except Fault (Value × List Char)
  | [] => floatValue negative significand exponent []
  | c :: cs =>
    if c = 'e' ∨ c = 'E' then readPower negative significand exponent cs
    else floatValue negative significand exponent (c :: cs)

/-- What follows the point. -/
def readFraction (negative : Bool) (significand : Nat) (exponent : Int) (cs : List Char) :
    Except Fault (Value × List Char) :=
  if cs.isEmpty then .error (.before .unfinishedValue [])
  else if !startsWithDigit cs then .error (.after .badNumber cs)
  else
    let (significand, count, rest) := takeDigits 64 significand 0 cs
    readExponent negative significand (exponent - count) (rest.dropWhile Char.isDigit)

/-- What follows the digits before the point, of which `dropped` are not in the significand. -/
def readWhole (negative : Bool) (significand dropped : Nat) :
    List Char → Except Fault (Value × List Char)
  | [] => if dropped = 0 then .ok (wholeValue negative significand, [])
    else floatValue negative significand dropped []
  | c :: cs =>
    if c = '.' then readFraction negative significand dropped cs
    else if c = 'e' ∨ c = 'E' then readPower negative significand dropped cs
    else if dropped = 0 then .ok (wholeValue negative significand, c :: cs)
    else floatValue negative significand dropped (c :: cs)

/-- A number after its sign. A zero is followed by no other digit. -/
def readNumber (negative : Bool) : List Char → Except Fault (Value × List Char)
  | [] => .error (.before .unfinishedValue [])
  | c :: cs =>
    if c = '0' then
      if startsWithDigit cs then .error (.after .badNumber cs) else readWhole negative 0 0 cs
    else if c.isDigit then
      let (significand, _, rest) := takeDigits 64 0 0 (c :: cs)
      readWhole negative significand (rest.takeWhile Char.isDigit).length
        (rest.dropWhile Char.isDigit)
    else .error (.after .badNumber (c :: cs))

end PanelLint.Json
