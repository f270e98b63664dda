import PanelLint.Promql.Token
/-!
# Queries as they are written

A `Phrase` is what the grammar makes of the tokens of a query: the tree of its parts with nothing
evaluated. The grammar also reads some forms that are wrong, so that the checks can say what is
wrong with them: a call with a comma too many, a matcher without a value, a modifier at the end of
the query. Such forms are part of a phrase.
-/

namespace PanelLint.Promql

/-- A length of time as it is written. -/
inductive Span
  /-- A row of counts with units. -/
  | units (text : String)
  /-- A number of seconds. -/
  | seconds (text : String)
  deriving DecidableEq, Repr

/-- A label matcher. -/
inductive MatcherPhrase
  | complete (label : String) (op : MatchOperator) (value : String)
  /-- A name and two operators. -/
  | twoOperators (second : MatchOperator)
  /-- A name, an operator and another name. -/
  | bareValue (value : String)
  /-- A name alone. -/
  | nameOnly (name : String)
  deriving DecidableEq, Repr

/-- What stands between braces. -/
inductive MatchersPhrase
  | empty
  /-- A comma alone. -/
  | comma
  /-- The first matcher, and each further one with whether `or` stands before it. -/
  | list (first : MatcherPhrase) (rest : List (Bool × MatcherPhrase))
  deriving DecidableEq, Repr

/-- The labels by which an aggregation groups: `by` keeps them, `without` drops them. -/
structure GroupingPhrase where
  keeps : Bool
  labels : List String
  deriving DecidableEq, Repr

/-- What stands between a binary operator and its right operand. -/
inductive ModifierPhrase
  | plain (bool : Bool)
  /-- `on` or `ignoring` with labels, and the side of the group with its labels. -/
  | matching (bool on : Bool) (labels : List String) (group : Option (Bool × List String))
  /-- `group_left` or `group_right` with neither `on` nor `ignoring` before it. -/
  | strayGroup (left : Bool)
  deriving DecidableEq, Repr

/-- The time after `@`. -/
inductive TimePhrase
  | fixed (negative : Bool) (number : Span)
  /-- `start()`, or else `end()`. -/
  | edge (start : Bool)
  deriving DecidableEq, Repr

/-- A query as it is written. -/
inductive Phrase
  | number (value : Span)
  | string (text : String)
  | vector (name : Option String) (matchers : Option MatchersPhrase)
  | paren (inner : Phrase)
  | plus (inner : Phrase)
  | minus (inner : Phrase)
  | binary (op : Operator) (modifier : ModifierPhrase) (left right : Phrase)
  | call (name : String) (args : List Phrase) (extraComma : Bool)
  /-- An aggregation, with its grouping and whether that stands after the arguments. -/
  | aggregate (op : Aggregation) (grouping : Option GroupingPhrase) (args : List Phrase)
    (extraComma : Bool)
  | range (inner : Phrase) (span : Span)
  /-- Empty square brackets. -/
  | noRange (inner : Phrase)
  | subquery (inner : Phrase) (span : Span) (step : Option Span)
  | offset (inner : Phrase) (negative : Bool) (span : Span)
  /-- `offset` at the end of the query. -/
  | noOffset (inner : Phrase)
  | atTime (inner : Phrase) (time : TimePhrase)
  /-- `@` at the end of the query. -/
  | noTime (inner : Phrase)
  deriving Repr, Inhabited

end PanelLint.Promql
