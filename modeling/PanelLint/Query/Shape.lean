import PanelLint.Text.Digit
/-!
# The shapes of values

A selected value is written into a query only if it has the shape of a duration, a number or an
identifier. Durations and numbers are read here with the decimal digits of every script. Each shape
is a small machine that takes one character at a time: `none` is a text that can no longer have the
shape.
-/

namespace PanelLint.Query

open PanelLint.Text

/-! ## Durations: one or more counts, each with a unit -/

/-- Where a reader of durations stands. -/
inductive DurationState
  /-- Before a count. -/
  | count
  /-- In a count. -/
  | digits
  /-- After an `m`, which an `s` may still follow. -/
  | minutes
  /-- After a complete unit. -/
  | unit
  deriving DecidableEq, Repr

/-- The state after one more character. -/
def DurationState.step : DurationState → Char → Option DurationState
  | .count, c => if isDigit c then some .digits else none
  | .digits, c =>
    if isDigit c then some .digits
    else if c = 'm' then some .minutes
    else if c ∈ ['s', 'h', 'd', 'w', 'y'] then some .unit
    else none
  | .minutes, c =>
    if c = 's' then some .unit else if isDigit c then some .digits else none
  | .unit, c => if isDigit c then some .digits else none

/-- Whether a text is a row of counts with units. -/
def isDuration (cs : List Char) : Bool :=
  match cs.foldlM DurationState.step .count with
  | some .minutes => true
  | some .unit => true
  | _ => false

/-! ## Numbers: an optional sign, digits with an optional point, an optional exponent -/

/-- Where a reader of numbers stands. -/
inductive NumberState
  | start
  | signed
  | whole
  /-- After a point without digits before it. -/
  | point
  /-- After a point, with a digit on one side of it. -/
  | fraction
  /-- After the mark of the exponent. -/
  | mark
  /-- After the sign of the exponent. -/
  | markSigned
  | exponent
  deriving DecidableEq, Repr

/-- The state after one more character. -/
def NumberState.step : NumberState → Char → Option NumberState
  | .start, c =>
    if c = '+' ∨ c = '-' then some .signed
    else if isDigit c then some .whole
    else if c = '.' then some .point
    else none
  | .signed, c =>
    if isDigit c then some .whole else if c = '.' then some .point else none
  | .whole, c =>
    if isDigit c then some .whole
    else if c = '.' then some .fraction
    else if c = 'e' ∨ c = 'E' then some .mark
    else none
  | .point, c => if isDigit c then some .fraction else none
  | .fraction, c =>
    if isDigit c then some .fraction
    else if c = 'e' ∨ c = 'E' then some .mark
    else none
  | .mark, c =>
    if c = '+' ∨ c = '-' then some .markSigned
    else if isDigit c then some .exponent
    else none
  | .markSigned, c => if isDigit c then some .exponent else none
  | .exponent, c => if isDigit c then some .exponent else none

/-- Whether a text is a decimal number. -/
def isNumber (cs : List Char) : Bool :=
  match cs.foldlM NumberState.step .start with
  | some .whole => true
  | some .fraction => true
  | some .exponent => true
  | _ => false

/-! ## Identifiers: ASCII letters, digits, `_` and `:`, and no word of the language -/

/-- Whether a character may begin an identifier. -/
def isIdentifierStart (c : Char) : Bool := c.isAlpha || c == '_' || c == ':'

/-- Whether a character may go on an identifier. -/
def isIdentifierRest (c : Char) : Bool := isIdentifierStart c || c.isDigit

/-- The words that change the meaning of the text around them when they stand there unquoted. -/
def reservedWords : List String :=
  ["and", "or", "unless", "atan2", "by", "without", "on", "ignoring", "group_left", "group_right",
    "bool", "offset", "start", "end"]

/-- Whether a text is one of the reserved words, in any case. -/
def isReserved (cs : List Char) : Bool :=
  reservedWords.any fun w => w.toList == cs.map Char.toLower

/-- Whether a text can stand for a metric or a label. -/
def isIdentifier (cs : List Char) : Bool :=
  match cs with
  | [] => false
  | c :: rest => isIdentifierStart c && rest.all isIdentifierRest && !isReserved cs

end PanelLint.Query
