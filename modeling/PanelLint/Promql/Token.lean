import PanelLint.Promql.Operator
/-!
# Tokens of PromQL

A keyword keeps the text it was written with, since nearly all of them may also name a metric or a
label. Numbers, durations and string literals keep their text too; they are evaluated when the query
is checked.
-/

namespace PanelLint.Promql

/-- A reserved word. -/
inductive Keyword
  /-- `and`, `or`, `unless` and `atan2`. -/
  | operator (op : Operator)
  | aggregation (op : Aggregation)
  /-- `by`, or else `without`. -/
  | grouping (keeps : Bool)
  /-- `on`, or else `ignoring`. -/
  | matching (on : Bool)
  /-- `group_left`, or else `group_right`. -/
  | groupSide (left : Bool)
  | bool
  | offset
  /-- `start`, or else `end`. -/
  | edge (start : Bool)
  deriving DecidableEq, Repr

/-- The keywords that are not aggregations. -/
def Keyword.others : List (String × Keyword) :=
  [("and", .operator .and),
    ("or", .operator .or),
    ("unless", .operator .unless),
    ("atan2", .operator .atan2),
    ("offset", .offset),
    ("by", .grouping true),
    ("without", .grouping false),
    ("on", .matching true),
    ("ignoring", .matching false),
    ("group_left", .groupSide true),
    ("group_right", .groupSide false),
    ("bool", .bool),
    ("start", .edge true),
    ("end", .edge false)]

/-- Every aggregation. -/
def Aggregation.all : List Aggregation :=
  [.sum, .avg, .count, .min, .max, .group, .stddev, .stdvar, .topk, .bottomk, .countValues,
    .quantile]

/-- The keyword that a word in lower case is. -/
def Keyword.ofWord? (word : String) : Option Keyword :=
  match Aggregation.all.find? fun a => a.text == word with
  | some a => some (.aggregation a)
  | none => Keyword.others.lookup word

/-- A token. -/
inductive Token
  | identifier (name : String)
  /-- A name with a colon in it. -/
  | metric (name : String)
  | keyword (word : Keyword) (text : String)
  | number (text : String)
  | duration (text : String)
  /-- A string literal without its quotes. -/
  | string (text : String)
  /-- An operator written with symbols. -/
  | operator (op : Operator)
  /-- `=`. -/
  | equal
  /-- `=~`. -/
  | regex
  /-- `!~`. -/
  | notRegex
  | comma
  | colon
  | atSign
  | leftParen
  | rightParen
  | leftBrace
  | rightBrace
  | leftBracket
  | rightBracket
  /-- The end of the query. -/
  | finish
  deriving DecidableEq, Repr

end PanelLint.Promql
