/-!
# Binary floating point of 64 bits

Numbers in queries, dashboards and settings are held as IEEE 754 binary64 values. A value is kept
here by its sign, its significand and its exponent, so that it stands for the exact rational
`± significand · 2 ^ exponent`. Every operation is exact arithmetic on naturals followed by one
`round`, to the nearest value with ties to the even significand; no machine arithmetic is involved.
-/

namespace PanelLint.Number

/-- A binary64 value. The significand is below `2 ^ 53`, and at least `2 ^ 52` unless the exponent
is the least one, `-1074`. -/
inductive Binary64
  | finite (negative : Bool) (significand : Nat) (exponent : Int)
  | infinite (negative : Bool)
  | nan
  deriving DecidableEq, Repr

namespace Binary64

/-- The least significand of 53 bits. -/
def hiddenBit : Nat := Nat.pow 2 52

/-- Zero, with a sign. -/
def zero (negative : Bool) : Binary64 := .finite negative 0 (-1074)

/-- The quotient of two naturals rounded to an integer, ties to even. -/
def divEven (num den : Nat) : Nat :=
  let q := num / den
  let twice := 2 * (num % den)
  if twice < den ∨ (twice = den ∧ q % 2 = 0) then q else q + 1

/-- The numerator and denominator of `num / den / 2 ^ e`. -/
def scaled (num den : Nat) (e : Int) : Nat × Nat :=
  if 0 ≤ e then (num, den * Nat.pow 2 e.toNat) else (num * Nat.pow 2 (-e).toNat, den)

/-- The exponent at which `num / den` has a significand of 53 bits, but at least `-1074`. -/
def exponentFor (num den : Nat) : Int :=
  let guess := (num.log2 : Int) - den.log2 - 52
  let (n, d) := scaled num den guess
  max (if n / d < hiddenBit then guess - 1 else guess) (-1074)

/-- The value nearest to `num / den`, ties to even; beyond the largest one, infinity. -/
def round (negative : Bool) (num den : Nat) : Binary64 :=
  if num = 0 then zero negative
  else
    let e := exponentFor num den
    let (n, d) := scaled num den e
    let s := divEven n d
    let (s, e) := if s = 2 * hiddenBit then (hiddenBit, e + 1) else (s, e)
    if e > 971 then .infinite negative else .finite negative s e

/-- The value nearest to a natural number. -/
def ofNat (n : Nat) : Binary64 := round false n 1

/-- The value nearest to an integer. -/
def ofInt (n : Int) : Binary64 := round (n < 0) n.natAbs 1

/-- The value nearest to `± digits · 10 ^ exponent`. Exponents far outside the range are settled
without computing the power. -/
def ofDecimal (negative : Bool) (digits : Nat) (exponent : Int) : Binary64 :=
  if digits = 0 then zero negative
  else
    let magnitude : Int := (Nat.toDigits 10 digits).length + exponent
    if magnitude > 310 then .infinite negative
    else if magnitude < -330 then zero negative
    else if 0 ≤ exponent then round negative (digits * Nat.pow 10 exponent.toNat) 1
    else round negative digits (Nat.pow 10 (-exponent).toNat)

/-- The magnitude of a finite value as a fraction. -/
def fraction (s : Nat) (e : Int) : Nat × Nat :=
  if 0 ≤ e then (s * Nat.pow 2 e.toNat, 1) else (s, Nat.pow 2 (-e).toNat)

/-- The rounded product of two magnitudes; `nan` when one of them is not finite. -/
def mul : Binary64 → Binary64 → Binary64
  | .finite n s e, .finite n' s' e' =>
    let (a, b) := fraction s e
    let (a', b') := fraction s' e'
    round (n != n') (a * a') (b * b')
  | _, _ => .nan

/-- The rounded quotient of two magnitudes; `nan` when one of them is not finite or the divisor is
zero. -/
def div : Binary64 → Binary64 → Binary64
  | .finite n s e, .finite n' s' e' =>
    if s' = 0 then .nan
    else
      let (a, b) := fraction s e
      let (a', b') := fraction s' e'
      round (n != n') (a * b') (b * a')
  | _, _ => .nan

/-- The value with the other sign. -/
def neg : Binary64 → Binary64
  | .finite n s e => .finite (!n) s e
  | .infinite n => .infinite (!n)
  | .nan => .nan

/-- Whether the value is finite. -/
def isFinite : Binary64 → Bool
  | .finite .. => true
  | _ => false

/-- Whether the value is at most zero. -/
def nonPositive : Binary64 → Bool
  | .finite n s _ => n || s == 0
  | .infinite n => n
  | .nan => false

/-- Whether the value is the largest finite one, or its negative. -/
def isExtreme : Binary64 → Bool
  | .finite _ s e => s == 2 * hiddenBit - 1 && e == 971
  | _ => false

/-- Whether the value is at least `2 ^ 64`; not so for `nan`. -/
def reachesTwoTo64 : Binary64 → Bool
  | .finite n s e => !n && (fraction s e).1 ≥ Nat.pow 2 64 * (fraction s e).2
  | .infinite n => !n
  | .nan => false

end Binary64

end PanelLint.Number
