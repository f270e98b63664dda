import PanelLint.Promql.Parse
import PanelLint.Query.Expansion
/-!
# Parsing the query of a target

A query of a dashboard is valid when its expansion is PromQL.
-/

namespace PanelLint.Query

/-- Why the query of a target is not valid. -/
inductive QueryError
  | expansion (error : ExpansionError)
  | parse (error : Promql.ParseError)
  deriving DecidableEq, Repr

/-- The text of a query error. -/
def QueryError.message : QueryError → String
  | .expansion e => "could not expand variables: " ++ e.message
  | .parse e => e.message

/-- How checking the query of a target fails: it is not valid, or the whole run ends. -/
inductive Failure
  | invalid (error : QueryError)
  | aborted
  deriving DecidableEq, Repr

/-- The query of a target, with its variables replaced. -/
def parse (templates : List Template) (query : List Char) : Except Failure Promql.Expr :=
  match expand templates query with
  | .error e => .error (.invalid (.expansion e))
  | .ok text =>
    match Promql.parse text with
    | .ok e => .ok e
    | .error (.rejected e) => .error (.invalid (.parse e))
    | .error .aborted => .error .aborted

end PanelLint.Query
