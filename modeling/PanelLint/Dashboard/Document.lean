import PanelLint.Dashboard.Schema
import PanelLint.Json.Reader
/-!
# Dashboards in documents

A document is a JSON text that holds a dashboard, either by itself or in the envelope in which the
web interface of Grafana delivers it: an object whose member `dashboard` is an object. Only one
envelope is taken off.
-/

namespace PanelLint

namespace Dashboard

/-- Why a text is no dashboard. -/
inductive DocumentError
  | notJson (error : Json.SyntaxError)
  | notDashboard (error : SchemaError)
  deriving Repr

/-- What is wrong in one line, without the details. -/
def DocumentError.summary : DocumentError → String
  | .notJson _ => "Dashboard is not valid JSON"
  | .notDashboard _ => "Unexpected dashboard structure"

/-- The details. -/
def DocumentError.details : DocumentError → String
  | .notJson e => e.message
  | .notDashboard e => e.message

/-- What is wrong, followed by the details. -/
def DocumentError.messages (e : DocumentError) : List String := [e.summary, e.details]

/-- The dashboard in a JSON value, which may be in an envelope. -/
def unwrap (v : Json.Value) : Json.Value :=
  match v.member? "dashboard" with
  | some d => if d.isObject then d else v
  | none => v

/-- The dashboard that a JSON value holds. -/
def ofDocument (v : Json.Value) : Except SchemaError Dashboard := ofJson (unwrap v.canonical)

/-- The dashboard that a text holds. -/
def read (text : List Char) : Except DocumentError Dashboard :=
  match Json.read text with
  | .error e => .error (.notJson e)
  | .ok v => (ofDocument v).mapError .notDashboard

end Dashboard

end PanelLint
