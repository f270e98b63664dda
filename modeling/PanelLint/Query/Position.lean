import PanelLint.Text.Blank
import PanelLint.Text.Caseless
import PanelLint.Text.Word
/-!
# Where a reference stands

What a variable may become without breaking the query depends on where its reference stands: in a
range, after `offset`, where a scalar is expected, or anywhere else. The position is read off the
text written so far, backwards from the reference, so a text is given here with its last character
first.
-/

namespace PanelLint.Query

open PanelLint.Text

/-- Where a reference stands in the query around it. -/
inductive Position
  /-- Inside square brackets. -/
  | range
  /-- Right after `offset`, with an optional minus between. -/
  | offset
  /-- Where the scalar argument of a function begins, or right after `@`. -/
  | scalar
  | expression
  deriving DecidableEq, Repr

/-- The number of open square brackets after a character; an extra `]` closes nothing. -/
def bracketDepth (depth : Nat) (c : Char) : Nat :=
  if c = '[' then depth + 1 else if c = ']' then depth - 1 else depth

/-- The functions and aggregations that begin with a scalar argument. -/
def scalarTakers : List String :=
  ["topk", "bottomk", "limitk", "limit_ratio", "quantile", "quantile_over_time",
    "histogram_quantile"]

/-- What stands before the word that a text ends with, in some case. -/
def beforeWord? (word : String) (before : List Char) : Option (List Char) :=
  dropWord? word.toList.reverse before

/-- Whether no word goes on to the left of a place. -/
def atWordStart : List Char → Bool
  | [] => true
  | c :: _ => !isWord c

/-- Whether a text ends with one of some words, none of them as the tail of a longer word. -/
def endsWithWord (words : List String) (before : List Char) : Bool :=
  words.any fun w => (beforeWord? w before).any atWordStart

/-- Whether a text ends with `offset` and an optional minus, blanks aside. -/
def endsWithOffset (before : List Char) : Bool :=
  match dropBlanks before with
  | '-' :: rest => endsWithWord ["offset"] (dropBlanks rest)
  | rest => endsWithWord ["offset"] rest

/-- Whether a text ends with a scalar taker and `by` or `without`. -/
def endsWithGrouping (before : List Char) : Bool :=
  ["by", "without"].any fun w =>
    (beforeWord? w (dropBlanks before)).any fun rest => endsWithWord scalarTakers (dropBlanks rest)

/-- Whether a text ends with a scalar taker, `by` or `without` and an opening parenthesis, and then
only characters other than `)`. -/
def opensGrouping : List Char → Bool
  | [] => false
  | c :: cs => c != ')' && ((c == '(' && endsWithGrouping cs) || opensGrouping cs)

/-- Whether the first argument of a scalar taker, or the time after `@`, begins at the end of a
text, blanks aside. -/
def endsWithScalarOpening (before : List Char) : Bool :=
  match dropBlanks before with
  | '@' :: _ => true
  | '(' :: rest =>
    endsWithWord scalarTakers (dropBlanks rest) ||
      match dropBlanks rest with
      | ')' :: inner => opensGrouping inner
      | _ => false
  | _ => false

/-- The position at the end of a text with some square brackets open. -/
def Position.of (before : List Char) (depth : Nat) : Position :=
  if 0 < depth then .range
  else if endsWithOffset before then .offset
  else if endsWithScalarOpening before then .scalar
  else .expression

end PanelLint.Query
