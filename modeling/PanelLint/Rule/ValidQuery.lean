import PanelLint.Query.Parse
import PanelLint.Rule.Basic
import PanelLint.Text.Blank
/-!
# Targets have valid queries

On a dashboard for a Prometheus data source, a target of a panel that shows queries has a valid
query, or instead of one the id of a panel whose queries it shows, and that panel exists. Dashboards
for other data sources and other kinds of panels are none of this rule's business.
-/

namespace PanelLint

namespace ValidQuery

/-- How a verdict names the panel. -/
def place (dashboard : Dashboard) (panel : Panel) : String :=
  "Dashboard '" ++ dashboard.title ++ "', panel '" ++ panel.title ++ "' "

/-- The message for an invalid query. -/
def invalidQuery (dashboard : Dashboard) (panel : Panel) (target : Target)
    (error : Query.QueryError) : String :=
  place dashboard panel ++ "invalid PromQL query '" ++ target.expr ++ "': " ++ error.message

/-- The message for a target with neither a query nor a panel. -/
def emptyQuery (dashboard : Dashboard) (panel : Panel) (target : Target) : String :=
  place dashboard panel ++ "empty PromQL query in target '" ++ target.refId ++ "'"

/-- The message for a target whose panel is nowhere on the dashboard. -/
def danglingReference (dashboard : Dashboard) (panel : Panel) (target : Target) : String :=
  place dashboard panel ++ "invalid panel reference in target, reference panel id '" ++
    toString target.panelId ++ "'"

/-- Whether the dashboard is for a Prometheus data source. -/
def applies (dashboard : Dashboard) : Bool :=
  dashboard.datasource?.any Template.isPrometheusDatasource

/-- The verdict on a target without a query. -/
def checkReference (dashboard : Dashboard) (panel : Panel) (target : Target) : Verdict :=
  if target.panelId ≤ 0 then .error (emptyQuery dashboard panel target)
  else if (dashboard.findPanel? target.panelId).isSome then .success
  else .error (danglingReference dashboard panel target)

/-- The verdict on a target with a query. -/
def checkQuery (dashboard : Dashboard) (panel : Panel) (target : Target) : Except Abort Verdict :=
  match Query.parse dashboard.templating.list target.expr.toList with
  | .ok _ => .ok .success
  | .error (.invalid e) => .ok (.error (invalidQuery dashboard panel target e))
  | .error .aborted => .error .endlessDuration

/-- The verdict on a target. -/
def check (dashboard : Dashboard) (panel : Panel) (target : Target) : Except Abort Verdict :=
  if !applies dashboard || !panel.hasQueries then .ok .success
  else if Text.allBlank target.expr.toList then .ok (checkReference dashboard panel target)
  else checkQuery dashboard panel target

end ValidQuery

/-- The rule that targets have valid queries. -/
def validQueryRule : Rule where
  name := "target-promql-rule"
  description := "Checks that each target uses a valid PromQL query."
  check := ValidQuery.check

/-- Every rule there is. -/
def Rules.all : Rules := [validQueryRule]

end PanelLint
