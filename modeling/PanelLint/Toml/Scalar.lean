import PanelLint.Json.Value
import PanelLint.Number.Read
import PanelLint.Number.Width
/-!
# The words of a TOML document

A value that is neither quoted nor bracketed is one word: a truth value, a number, or a point in time.
Integers fit 64 bits with a sign. A point in time is kept as a text in one notation, with `T` between
the date and the time and no zeros at the end of a fraction of a second.
-/

namespace PanelLint.Toml

open PanelLint.Number
open PanelLint.Json (Value)

/-! ## Numbers -/

/-- Digits with single underscores between them; `after` says that a digit came right before. -/
def ungroup? (isDigit : Char → Bool) : (after : Bool) → List Char → Option (List Char)
  | after, [] => if after then some [] else none
  | after, c :: cs =>
    if isDigit c then (ungroup? isDigit true cs).map (c :: ·)
    else if c = '_' ∧ after then ungroup? isDigit false cs
    else none

/-- Decimal digits without a zero in front. -/
def decimal? (cs : List Char) : Option (List Char) :=
  (ungroup? Char.isDigit false cs).bind fun ds =>
    if 1 < ds.length ∧ ds.head? = some '0' then none else some ds

/-- An integer that fits 64 bits. -/
def fit? (n : Int) : Option Value :=
  if isSigned 64 n then some (.integer n) else none

/-- Whether a character is an octal digit. -/
def isOctal (c : Char) : Bool := '0' ≤ c && c ≤ '7'

/-- Whether a character is a binary digit. -/
def isBinary (c : Char) : Bool := c == '0' || c == '1'

/-- An integer in decimal digits with an optional sign, or in those of another base without one. -/
def integer? : List Char → Option Value
  | '0' :: 'x' :: cs => (ungroup? isHexDigit false cs).bind fun ds => fit? (ofDigits 16 ds)
  | '0' :: 'o' :: cs => (ungroup? isOctal false cs).bind fun ds => fit? (ofDigits 8 ds)
  | '0' :: 'b' :: cs => (ungroup? isBinary false cs).bind fun ds => fit? (ofDigits 2 ds)
  | cs =>
    let (negative, cs) := takeSign cs
    (decimal? cs).bind fun ds =>
      fit? (if negative then -(ofDigits 10 ds : Int) else ofDigits 10 ds)

/-- Whether a character begins the exponent of a float. -/
def isMark (c : Char) : Bool := c == 'e' || c == 'E'

/-- The exponent of a float, without its underscores. -/
def exponent? : List Char → Option (List Char)
  | [] => some []
  | mark :: cs =>
    let (negative, cs) := takeSign cs
    (ungroup? Char.isDigit false cs).map fun ds => mark :: (if negative then '-' :: ds else ds)

/-- The fraction and the exponent of a float, without their underscores. -/
def fraction? : List Char → Option (List Char)
  | '.' :: cs => do
    let places ← ungroup? Char.isDigit false (cs.takeWhile fun c => !isMark c)
    let power ← exponent? (cs.dropWhile fun c => !isMark c)
    some ('.' :: places ++ power)
  | cs => exponent? cs

/-- A float: digits with a fraction or an exponent, or the name of one that is not finite. -/
def float? (cs : List Char) : Option Value :=
  let (negative, magnitude) := takeSign cs
  if magnitude = "inf".toList then some (.float (.infinite negative))
  else if magnitude = "nan".toList then some (.float .nan)
  else do
    let whole ← decimal? (magnitude.takeWhile fun c => c != '.' && !isMark c)
    let rest ← fraction? (magnitude.dropWhile fun c => c != '.' && !isMark c)
    let x ← readMagnitude? negative (whole ++ rest)
    if rest.isEmpty || !x.isFinite then none else some (.float x)

/-! ## Points in time -/

/-- A number of `count` digits at the front. -/
def digits? (count : Nat) (cs : List Char) : Option (Nat × List Char) :=
  let ds := cs.take count
  if ds.length = count ∧ ds.all Char.isDigit then some (ofDigits 10 ds, cs.drop count) else none

/-- What is left after a character at the front. -/
def drop? (c : Char) : List Char → Option (List Char)
  | d :: cs => if d = c then some cs else none
  | [] => none

/-- The number of days of a month. -/
def daysIn (year month : Nat) : Nat :=
  if month = 2 then
    if year % 4 = 0 ∧ (year % 100 ≠ 0 ∨ year % 400 = 0) then 29 else 28
  else if [4, 6, 9, 11].contains month then 30
  else 31

/-- A number in at least two digits. -/
def twoDigits (n : Nat) : String := if n < 10 then "0" ++ toString n else toString n

/-- A date at the front, as it is kept. -/
def date? (cs : List Char) : Option (String × List Char) := do
  let (year, rest) ← digits? 4 cs
  let (month, rest) ← digits? 2 (← drop? '-' rest)
  let (day, rest) ← digits? 2 (← drop? '-' rest)
  if 1 ≤ month ∧ month ≤ 12 ∧ 1 ≤ day ∧ day ≤ daysIn year month then
    some (String.ofList (cs.take 4) ++ "-" ++ twoDigits month ++ "-" ++ twoDigits day, rest)
  else none

/-- A fraction of a second: nine places at most, without the zeros at the end. -/
def fractionText (places : List Char) : String :=
  let kept := ((places.take 9).reverse.dropWhile (· == '0')).reverse
  if kept.isEmpty then "" else "." ++ String.ofList kept

/-- The seconds of a time, which may be left out, with their fraction. -/
def seconds? : List Char → Option (String × List Char)
  | ':' :: cs => do
    let (second, rest) ← digits? 2 cs
    if 60 < second then none
    else
      match rest with
      | '.' :: rest =>
        let places := rest.takeWhile Char.isDigit
        if places.isEmpty then none
        else some (":" ++ twoDigits second ++ fractionText places, rest.dropWhile Char.isDigit)
      | rest => some (":" ++ twoDigits second, rest)
  | cs => some ("", cs)

/-- A time of day at the front, as it is kept. -/
def time? (cs : List Char) : Option (String × List Char) := do
  let (hour, rest) ← digits? 2 cs
  let (minute, rest) ← digits? 2 (← drop? ':' rest)
  let (seconds, rest) ← seconds? rest
  if hour ≤ 23 ∧ minute ≤ 59 then
    some (twoDigits hour ++ ":" ++ twoDigits minute ++ seconds, rest)
  else none

/-- The offset of a time, which may be left out and makes up the whole of a text. -/
def offset? : List Char → Option String
  | [] => some ""
  | c :: cs =>
    if c = 'Z' ∨ c = 'z' then if cs.isEmpty then some "Z" else none
    else if c = '+' ∨ c = '-' then do
      let (hour, rest) ← digits? 2 cs
      let (minute, rest) ← digits? 2 (← drop? ':' rest)
      if hour ≤ 23 ∧ minute ≤ 59 ∧ rest.isEmpty then
        some (String.ofList [c] ++ twoDigits hour ++ ":" ++ twoDigits minute)
      else none
    else none

/-- Whether a character stands between a date and a time. -/
def isTimeMark (c : Char) : Bool := c == 'T' || c == 't' || c == ' '

/-- A time alone, a date alone, or both. -/
def moment? (cs : List Char) : Option String :=
  match date? cs with
  | none =>
    match time? cs with
    | some (time, []) => some time
    | _ => none
  | some (date, []) => some date
  | some (date, c :: rest) =>
    if isTimeMark c then do
      let (time, rest) ← time? rest
      let offset ← offset? rest
      some (date ++ "T" ++ time ++ offset)
    else none

/-! ## Words -/

/-- The value of a word. -/
def word? (cs : List Char) : Option Value :=
  if cs = "true".toList then some (.bool true)
  else if cs = "false".toList then some (.bool false)
  else ((integer? cs).or (float? cs)).or ((moment? cs).map .string)

/-- Whether a character belongs to a word. -/
def isWordChar (c : Char) : Bool :=
  c.isAlphanum || c == '_' || c == '-' || c == '+' || c == '.' || c == ':'

/-- A word at the front; a date takes the time after a blank with it. -/
def takeWord (cs : List Char) : List Char × List Char :=
  let word := cs.takeWhile isWordChar
  match cs.dropWhile isWordChar with
  | ' ' :: c :: rest =>
    if (date? word).any (·.2.isEmpty) ∧ c.isDigit then
      (word ++ ' ' :: (c :: rest).takeWhile isWordChar, (c :: rest).dropWhile isWordChar)
    else (word, ' ' :: c :: rest)
  | rest => (word, rest)

end PanelLint.Toml
