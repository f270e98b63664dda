/-!
# Operators and aggregations of PromQL

The words and symbols that the grammar, the checks and the outline of a query share, with what the
language fixes for each: its spelling, how tightly an operator binds, and what an aggregation takes
beside its vector.
-/

namespace PanelLint.Promql

/-- The type of the value of an expression. -/
inductive ValueType
  | vector
  | scalar
  | matrix
  | string
  deriving DecidableEq, Repr

/-- The name of a type in messages. -/
def ValueType.text : ValueType → String
  | .vector => "vector"
  | .scalar => "scalar"
  | .matrix => "matrix"
  | .string => "string"

/-- A binary operator. -/
inductive Operator
  | add
  | sub
  | mul
  | div
  | mod
  | pow
  | atan2
  | eq
  | ne
  | lt
  | le
  | gt
  | ge
  | and
  | or
  | unless
  deriving DecidableEq, Repr

namespace Operator

/-- The spelling of an operator, in lower case. -/
def text : Operator → String
  | .add => "+"
  | .sub => "-"
  | .mul => "*"
  | .div => "/"
  | .mod => "%"
  | .pow => "^"
  | .atan2 => "atan2"
  | .eq => "=="
  | .ne => "!="
  | .lt => "<"
  | .le => "<="
  | .gt => ">"
  | .ge => ">="
  | .and => "and"
  | .or => "or"
  | .unless => "unless"

/-- How tightly an operator binds; the higher the tighter. -/
def precedence : Operator → Nat
  | .or => 1
  | .and | .unless => 2
  | .eq | .ne | .lt | .le | .gt | .ge => 3
  | .add | .sub => 4
  | .mul | .div | .mod | .atan2 => 5
  | .pow => 6

/-- How tightly operators in the right operand have to bind: only `^` groups to the right. -/
def rightPrecedence (op : Operator) : Nat :=
  if op = .pow then op.precedence else op.precedence + 1

/-- Whether the operator compares. -/
def isComparison : Operator → Bool
  | .eq | .ne | .lt | .le | .gt | .ge => true
  | _ => false

/-- Whether the operator works on sets of series. -/
def isSet : Operator → Bool
  | .and | .or | .unless => true
  | _ => false

end Operator

/-- How a label matcher compares. -/
inductive MatchOperator
  | equal
  | notEqual
  | regex
  | notRegex
  deriving DecidableEq, Repr

/-- The spelling of a match operator. -/
def MatchOperator.text : MatchOperator → String
  | .equal => "="
  | .notEqual => "!="
  | .regex => "=~"
  | .notRegex => "!~"

/-- An aggregation over a vector. -/
inductive Aggregation
  | sum
  | avg
  | count
  | min
  | max
  | group
  | stddev
  | stdvar
  | topk
  | bottomk
  | countValues
  | quantile
  deriving DecidableEq, Repr

namespace Aggregation

/-- The spelling of an aggregation, in lower case. -/
def text : Aggregation → String
  | .sum => "sum"
  | .avg => "avg"
  | .count => "count"
  | .min => "min"
  | .max => "max"
  | .group => "group"
  | .stddev => "stddev"
  | .stdvar => "stdvar"
  | .topk => "topk"
  | .bottomk => "bottomk"
  | .countValues => "count_values"
  | .quantile => "quantile"

/-- The type of the argument before the vector, if there is one. -/
def parameter? : Aggregation → Option ValueType
  | .topk | .bottomk | .quantile => some .scalar
  | .countValues => some .string
  | _ => none

end Aggregation

end PanelLint.Promql
