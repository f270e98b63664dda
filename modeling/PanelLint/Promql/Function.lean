import PanelLint.Promql.Operator
/-!
# The functions of PromQL

Each function has a list of argument types and a result type. The last argument may be optional, and
of the functions with an optional argument some take any number of it.
-/

namespace PanelLint.Promql

/-- The signature of a function. -/
structure Function where
  name : String
  params : List ValueType
  /-- Whether the last argument may be left out. -/
  optional : Bool := false
  /-- Whether the last argument may be repeated. -/
  repeats : Bool := false
  result : ValueType := .vector
  deriving DecidableEq, Repr

namespace Function

/-- The names of the functions from a vector to a vector. -/
def ofVector : List String :=
  ["abs", "absent", "acos", "acosh", "asin", "asinh", "atan", "atanh", "ceil", "cos", "cosh", "deg",
    "exp", "floor", "histogram_count", "histogram_sum", "ln", "log10", "log2", "rad", "sgn", "sin",
    "sinh", "sort", "sort_desc", "sqrt", "tan", "tanh", "timestamp"]

/-- The names of the functions from a matrix to a vector. -/
def ofMatrix : List String :=
  ["absent_over_time", "avg_over_time", "changes", "count_over_time", "delta", "deriv", "idelta",
    "increase", "irate", "last_over_time", "max_over_time", "min_over_time", "present_over_time",
    "rate", "resets", "stddev_over_time", "stdvar_over_time", "sum_over_time"]

/-- The names of the functions of the calendar, which take the current time if given no vector. -/
def ofCalendar : List String :=
  ["days_in_month", "day_of_month", "day_of_week", "day_of_year", "hour", "minute", "month", "year"]

/-- The functions with signatures of their own. -/
def special : List Function :=
  [{ name := "scalar", params := [.vector], result := .scalar },
    { name := "round", params := [.vector, .scalar], optional := true },
    { name := "sort_by_label", params := [.vector, .string, .string], optional := true,
      repeats := true },
    { name := "sort_by_label_desc", params := [.vector, .string, .string], optional := true,
      repeats := true },
    { name := "label_join", params := [.vector, .string, .string, .string], optional := true,
      repeats := true },
    { name := "pi", params := [], result := .scalar },
    { name := "time", params := [], result := .scalar },
    { name := "vector", params := [.scalar] },
    { name := "clamp_max", params := [.vector, .scalar] },
    { name := "clamp_min", params := [.vector, .scalar] },
    { name := "clamp", params := [.vector, .scalar, .scalar] },
    { name := "histogram_fraction", params := [.scalar, .scalar, .vector] },
    { name := "histogram_quantile", params := [.scalar, .vector] },
    { name := "holt_winters", params := [.matrix, .scalar, .scalar] },
    { name := "label_replace", params := [.vector, .string, .string, .string, .string] },
    { name := "predict_linear", params := [.matrix, .scalar] },
    { name := "quantile_over_time", params := [.scalar, .matrix] }]

/-- Every function. -/
def all : List Function :=
  ofVector.map (fun name => { name, params := [.vector] }) ++
  ofMatrix.map (fun name => { name, params := [.matrix] }) ++
  ofCalendar.map (fun name => { name, params := [.vector], optional := true }) ++
  special

/-- The function with a name. -/
def find? (name : String) : Option Function := all.find? fun f => f.name == name

/-- The type of the argument at an index; the last one stands for all after it. -/
def paramAt? (f : Function) (i : Nat) : Option ValueType :=
  f.params[i]?.or f.params.getLast?

end Function

end PanelLint.Promql
