import PanelLint.Number.Read
import PanelLint.Number.Width
/-!
# Numbers and durations of PromQL

A number is decimal, hexadecimal after `0x`, or octal after a leading zero when nothing in it says
otherwise; integers of the last two kinds have to fit 64 bits. A duration is a row of counts with
units, each unit at most once and the larger before the smaller.
-/

namespace PanelLint.Promql

open PanelLint.Number

/-- Why a number or duration has no value. -/
inductive QuantityError
  | notInteger (text : String)
  | notDecimal (text : String)
  | notDuration (text : String)
  | emptyDuration
  deriving DecidableEq, Repr

/-- The text of an error of a number or duration. -/
def QuantityError.message : QuantityError → String
  | .notInteger text => "ParseFloatError. " ++ text ++ " can't be parsed into i64"
  | .notDecimal text => "ParseFloatError. " ++ text ++ " can't be parsed into f64"
  | .notDuration text => "not a valid duration string: " ++ text
  | .emptyDuration => "duration must be greater than 0"

/-! ## Numbers -/

/-- Whether a number in lower case is read as octal. -/
def isOctal (cs : List Char) : Bool :=
  cs.head? == some '0' && cs != ['0'] && !cs.any fun c => c == '.' || c == '8' || c == '9'

/-- The integer of 63 bits that digits of a base write. -/
def readInteger? (base : Nat) (digit : Char → Bool) (cs : List Char) : Option Nat :=
  if cs.isEmpty || !cs.all digit then none
  else
    let n := ofDigits base cs
    if isUnsigned 63 n then some n else none

/-- The value of a number. -/
def readNumber (text : String) : Except QuantityError Binary64 :=
  let cs := text.toList.map Char.toLower
  let lower := String.ofList cs
  if cs.contains 'x' then
    match readInteger? 16 isHexDigit (cs.drop 2) with
    | some n => .ok (Binary64.ofNat n)
    | none => .error (.notInteger lower)
  else if isOctal cs then
    match readInteger? 8 (fun c => '0' ≤ c && c ≤ '7') (cs.drop 1) with
    | some n => .ok (Binary64.ofNat n)
    | none => .error (.notInteger lower)
  else
    match read? cs with
    | some x => .ok x
    | none => .error (.notDecimal lower)

/-- Whether a number is no length of time in seconds: it is not a number, or too large. -/
def spanOverflows (text : String) : Bool :=
  match readNumber text with
  | .ok x => x == .nan || x.reachesTwoTo64
  | .error _ => false

/-! ## Durations -/

/-- A unit of a duration: its name and its length in milliseconds. The names are in the order in
which they may follow each other. -/
def units : List (List Char × Nat) :=
  [(['y'], 365 * 86400000),
    (['w'], 7 * 86400000),
    (['d'], 86400000),
    (['h'], 3600000),
    (['m'], 60000),
    (['s'], 1000),
    (['m', 's'], 1)]

/-- The counts of a duration with their units. -/
def countsOf : (fuel : Nat) → List Char → Option (List (List Char × List Char))
  | 0, _ => none
  | _ + 1, [] => some []
  | fuel + 1, c :: cs =>
    let digits := (c :: cs).takeWhile Char.isDigit
    let rest := (c :: cs).dropWhile Char.isDigit
    let unit := rest.takeWhile fun d => !d.isDigit
    (countsOf fuel (rest.dropWhile fun d => !d.isDigit)).map ((digits, unit) :: ·)

/-- The milliseconds of counts whose units stand in the order of `units`; a count of more than 32
bits counts as nothing. -/
def sumCounts : List (List Char × Nat) → List (List Char × List Char) → Option Nat
  | _, [] => some 0
  | [], _ :: _ => none
  | (name, length) :: units, (digits, unit) :: counts =>
    if name = unit then
      match readNat? digits with
      | none => none
      | some n =>
        (sumCounts units counts).map ((if isUnsigned 32 n then n * length else 0) + ·)
    else sumCounts units ((digits, unit) :: counts)

/-- The milliseconds of a duration. -/
def readDuration (text : String) : Except QuantityError Nat :=
  let cs := text.toList
  match (countsOf (cs.length + 1) cs).bind (sumCounts units) with
  | none => .error (.notDuration text)
  | some 0 => .error .emptyDuration
  | some n => .ok n

end PanelLint.Promql
