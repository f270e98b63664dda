import PanelLint.Number.Binary64
/-!
# The shortest decimal text of a number

A finite value is written with the fewest decimal digits that read back as that value, and of those
with the digits nearest to it. For `1, 2, … 17` digits the two neighbours of the value on the
decimal grid of that width are tested, in exact arithmetic, against the interval of reals that round
to the value; the first grid with a hit wins.

Two layouts write those digits: `positional` never uses an exponent, and `scientific` does so outside
the decimal exponents `-5` to `15` and always shows a fraction otherwise.
-/

namespace PanelLint.Number

/-- A decimal `digits · 10 ^ exponent`. -/
structure Decimal where
  digits : Nat
  exponent : Int
  deriving DecidableEq, Repr

namespace Binary64

/-- `10 ^ e` as a fraction. -/
def powerOfTen (e : Int) : Nat × Nat :=
  if 0 ≤ e then (Nat.pow 10 e.toNat, 1) else (1, Nat.pow 10 (-e).toNat)

/-- Whether `m · 10 ^ k` rounds to the value `s · 2 ^ e`: it lies between the midpoints to the two
neighbouring values, which belong to the interval when `s` is even. -/
def roundsTo (s : Nat) (e : Int) (m : Nat) (k : Int) : Bool :=
  let (pn, pd) := powerOfTen k
  -- four times the candidate, as `n / d`, against the midpoints in units of `2 ^ (e - 2)`
  let (n, d) := scaled (m * pn) pd (e - 2)
  let below := if s = hiddenBit ∧ e ≠ -1074 then 4 * s - 1 else 4 * s - 2
  let above := 4 * s + 2
  if s % 2 = 0 then below * d ≤ n && n ≤ above * d else below * d < n && n < above * d

/-- The decimal exponent of the leading digit of `num / den`, which is at least `low`. -/
def leadingExponent (num den : Nat) : Int :=
  let guess : Int := (Nat.toDigits 10 num).length - (Nat.toDigits 10 den).length
  let (pn, pd) := powerOfTen guess
  if num * pd < den * pn then guess - 1 else guess

/-- The decimal nearest to `s · 2 ^ e` among those of `width` digits that round to it. -/
def hit? (s : Nat) (e : Int) (width : Nat) : Option Decimal :=
  let (num, den) := fraction s e
  let k := leadingExponent num den - ((width : Int) - 1)
  let (pn, pd) := powerOfTen k
  let n := num * pd
  let d := den * pn
  let m := n / d
  let low := roundsTo s e m k
  let high := roundsTo s e (m + 1) k
  if low && high then
    some ⟨if 2 * (n % d) < d ∨ (2 * (n % d) = d ∧ m % 2 = 0) then m else m + 1, k⟩
  else if low then some ⟨m, k⟩
  else if high then some ⟨m + 1, k⟩
  else none

/-- A decimal without zeros at its end; `fuel` bounds their number. -/
def trimZeros : (fuel : Nat) → Decimal → Decimal
  | 0, d => d
  | fuel + 1, d =>
    if d.digits % 10 = 0 ∧ d.digits ≠ 0 then trimZeros fuel ⟨d.digits / 10, d.exponent + 1⟩ else d

/-- The shortest decimal that reads back as `s · 2 ^ e`. -/
def shortest (s : Nat) (e : Int) : Decimal :=
  if s = 0 then ⟨0, 0⟩
  else
    let found := (List.range 17).findSome? fun i => hit? s e (i + 1)
    trimZeros 18 (found.getD ⟨s, 0⟩)

/-- The digits of a decimal, with a point where its exponent puts it and no exponent; `fraction`
is the text for an empty fraction. -/
def pointed (d : Decimal) (fraction : String) : String :=
  let ds := Nat.toDigits 10 d.digits
  if 0 ≤ d.exponent then
    String.ofList (ds ++ List.replicate d.exponent.toNat '0') ++ fraction
  else
    let places := (-d.exponent).toNat
    let ds := List.replicate (places + 1 - ds.length) '0' ++ ds
    String.ofList (ds.take (ds.length - places) ++ '.' :: ds.drop (ds.length - places))

/-- The text of a value without any exponent. -/
def positional : Binary64 → String
  | .nan => "NaN"
  | .infinite n => if n then "-inf" else "inf"
  | .finite n s e => (if n then "-" else "") ++ pointed (shortest s e) ""

/-- The text of a finite value with an exponent outside the decimal exponents `-5` to `15`, and with
at least one digit after the point inside them. -/
def scientific : Binary64 → String
  | .nan => "NaN"
  | .infinite n => if n then "-inf" else "inf"
  | .finite n s e =>
    let sign := if n then "-" else ""
    let d := shortest s e
    let ds := Nat.toDigits 10 d.digits
    let leading := d.exponent + ds.length - 1
    if s = 0 ∨ (-5 ≤ leading ∧ leading ≤ 15) then sign ++ pointed d ".0"
    else
      let tail := if ds.length = 1 then "" else "." ++ String.ofList (ds.drop 1)
      let mark := if leading < 0 then "e-" else "e+"
      sign ++ String.ofList (ds.take 1) ++ tail ++ mark ++ toString leading.natAbs

end Binary64

end PanelLint.Number
