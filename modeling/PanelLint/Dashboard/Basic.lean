import PanelLint.Json.Value
/-!
# Dashboards

The part of a Grafana dashboard that a rule looks at: its panels with their query targets, and the
template variables that the queries refer to. A panel may hold further panels, as a collapsed row
does, and old dashboards keep their panels in rows of their own.
-/

namespace PanelLint

/-- A query of a panel, or a reference to the queries of another panel. -/
structure Target where
  /-- The query as it was typed. -/
  expr : String := ""
  /-- The panel whose queries are shown instead, if positive. -/
  panelId : Int := 0
  /-- The letter of the query. -/
  refId : String := ""
  deriving DecidableEq, Repr, Inhabited

/-- A panel with the panels inside it. -/
structure Panel where
  id : Int := 0
  title : String := ""
  /-- The kind of visualisation. -/
  kind : String := ""
  targets : List Target := []
  panels : List Panel := []
  deriving Repr, Inhabited

/-- A row of an old dashboard. -/
structure Row where
  panels : List Panel := []
  deriving Repr, Inhabited

/-- What a template variable asks its data source. -/
inductive TemplateQuery
  /-- The query as a text, as older dashboards write it. -/
  | text (query : String)
  /-- The query as a member of an object, as newer dashboards write it. -/
  | structured (query : String)
  deriving DecidableEq, Repr, Inhabited

/-- The selected value of a template variable. -/
inductive CurrentValue
  | single (value : String)
  | multi (values : List String)
  /-- Anything but texts. -/
  | other (value : Json.Value)
  deriving Repr, Inhabited

/-- The selection of a template variable. -/
structure Current where
  value : Option CurrentValue := none
  deriving Repr, Inhabited

/-- A template variable. -/
structure Template where
  name : String := ""
  kind : String := ""
  query : Option TemplateQuery := none
  current : Option Current := none
  deriving Repr, Inhabited

/-- The template variables of a dashboard. -/
structure Templating where
  list : List Template := []
  deriving Repr, Inhabited

/-- A dashboard. -/
structure Dashboard where
  title : String := ""
  panels : List Panel := []
  rows : List Row := []
  templating : Templating := {}
  deriving Repr, Inhabited

/-! ## Templates -/

namespace Template

/-- The text of the variable's query, empty if there is none. -/
def queryText (t : Template) : String :=
  match t.query with
  | some (.text q) => q
  | some (.structured q) => q
  | none => ""

/-- Whether the variable chooses a data source. -/
def isDatasource (t : Template) : Bool := t.kind == "datasource"

/-- Whether the variable chooses among Prometheus data sources. -/
def isPrometheusDatasource (t : Template) : Bool :=
  t.isDatasource && t.queryText == "prometheus"

/-- The selected value, when exactly one is selected. -/
def currentValue (t : Template) : Option String :=
  match t.current with
  | some ⟨some (.single v)⟩ => some v
  | some ⟨some (.multi [v])⟩ => some v
  | _ => none

end Template

/-- The first template variable that chooses a data source. -/
def Dashboard.datasource? (d : Dashboard) : Option Template :=
  d.templating.list.find? Template.isDatasource

end PanelLint
