import PanelLint.Number.Binary64
import PanelLint.Promql.Operator
/-!
# Checked queries

An `Expr` is a query that has passed every check: numbers and durations are evaluated, matchers and
modifiers are in order, and every part has a type that its place allows.
-/

namespace PanelLint.Promql

open PanelLint.Number

/-- A length of time. -/
inductive Length
  | milliseconds (count : Nat)
  | seconds (count : Binary64)
  deriving DecidableEq, Repr

/-- A label matcher. -/
structure Matcher where
  label : String
  op : MatchOperator
  value : String
  deriving DecidableEq, Repr

/-- What a vector or matrix selects: a metric name, and groups of matchers of which one has to
hold. -/
structure Selection where
  name : Option String
  groups : List (List Matcher)
  deriving DecidableEq, Repr

/-- A shift in time. -/
structure Offset where
  negative : Bool
  length : Length
  deriving DecidableEq, Repr

/-- A fixed time of evaluation. -/
inductive Instant
  | fixed (seconds : Binary64)
  /-- The start of the range of the query, or else its end. -/
  | edge (start : Bool)
  deriving DecidableEq, Repr

/-- The labels by which an aggregation groups: it keeps them, or else drops them. -/
structure Grouping where
  keeps : Bool
  labels : List String
  deriving DecidableEq, Repr

/-- How many series of one side belong to how many of the other. -/
inductive Cardinality
  | oneToOne
  | manyToOne (labels : List String)
  | oneToMany (labels : List String)
  | manyToMany
  deriving DecidableEq, Repr

/-- The labels on which series are matched: on them, or else on all others. -/
structure Matching where
  on : Bool
  labels : List String
  deriving DecidableEq, Repr

/-- What modifies a binary operator. -/
structure Modifier where
  bool : Bool := false
  matching : Option Matching := none
  cardinality : Cardinality := .oneToOne
  deriving DecidableEq, Repr

/-- A checked query. -/
inductive Expr
  | number (value : Binary64)
  | string (text : String)
  | vector (selection : Selection) (offset : Option Offset) (time : Option Instant)
  | matrix (selection : Selection) (offset : Option Offset) (time : Option Instant) (range : Length)
  | subquery (inner : Expr) (offset : Option Offset) (time : Option Instant) (range : Length)
    (step : Option Length)
  | paren (inner : Expr)
  | neg (inner : Expr)
  | binary (op : Operator) (modifier : Modifier) (left right : Expr)
  | call (name : String) (result : ValueType) (args : List Expr)
  | aggregate (op : Aggregation) (grouping : Option Grouping) (parameter : Option Expr)
    (inner : Expr)
  deriving Repr, Inhabited

/-- The type of the value of a query. -/
def Expr.type : Expr → ValueType
  | .number _ => .scalar
  | .string _ => .string
  | .vector .. => .vector
  | .matrix .. => .matrix
  | .subquery .. => .matrix
  | .paren e => e.type
  | .neg e => e.type
  | .binary _ _ l r => if l.type = .scalar ∧ r.type = .scalar then .scalar else .vector
  | .call _ result _ => result
  | .aggregate .. => .vector

end PanelLint.Promql
