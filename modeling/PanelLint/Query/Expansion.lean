import PanelLint.Dashboard.Basic
import PanelLint.Query.Piece
import PanelLint.Query.Position
import PanelLint.Query.Shape
/-!
# Expansion of template variables

Before a query can be checked, each variable reference outside string literals is replaced by a text
that keeps the query well formed. A variable of Grafana's own has a fixed text. A variable of the
dashboard stands for its selected value where that has the shape its position asks for, and for a
plain substitute otherwise.

The pieces of the query are written one after another, so a substitute is never looked at again.
`expand` fails at the first reference that means nothing.
-/

namespace PanelLint.Query

/-- Why a query has no expansion. -/
inductive ExpansionError
  | unknownGlobal (name : String)
  | undeclaredVariable (name : String)
  deriving DecidableEq, Repr

/-- The text of an expansion error. -/
def ExpansionError.message : ExpansionError → String
  | .unknownGlobal name => "unknown global variable '" ++ name ++ "'"
  | .undeclaredVariable name =>
    "variable '" ++ name ++ "' is not declared in the dashboard templating"

/-! ## What a reference stands for -/

/-- Grafana's own variables, each with the text that stands in for it. -/
def globals : List (String × String) :=
  [("__interval", "1m"),
    ("__interval_ms", "60000"),
    ("__rate_interval", "5m"),
    ("__rate_interval_ms", "300000"),
    ("__range", "1d"),
    ("__range_s", "86400"),
    ("__range_ms", "86400000"),
    ("__from", "1700000000000"),
    ("__to", "1700086400000"),
    ("__org", "1"),
    ("__user", "1"),
    ("__dashboard", "dashboard"),
    ("__name", "name"),
    ("__timezone", "utc")]

/-- What the name of an automatic interval begins with. -/
def autoIntervalPrefix : List Char := "__auto_interval_".toList

/-- What the name of each of Grafana's own variables begins with. -/
def globalPrefix : List Char := "__".toList

/-- The first template variable with a name. -/
def findTemplate? (templates : List Template) (name : List Char) : Option Template :=
  templates.find? fun t => t.name.toList == name

/-- A name made fit to stand in a query. -/
def placeholder (name : List Char) : List Char :=
  if isIdentifier name then name else "var_".toList ++ name

/-- What a variable of the dashboard stands for at a position: its selected value if that has the
right shape, else a plain text of that shape. -/
def standIn (name : List Char) (current : Option (List Char)) : Position → List Char
  | .range | .offset => (current.filter isDuration).getD ("5m".toList)
  | .scalar => (current.filter isNumber).getD ("1".toList)
  | .expression => (current.filter fun v => isNumber v || isIdentifier v).getD (placeholder name)

/-- The text that a reference becomes. -/
def substitute (templates : List Template) (name : List Char) (position : Position) :
    Except ExpansionError (List Char) :=
  if autoIntervalPrefix.isPrefixOf name then .ok "1m".toList
  else if globalPrefix.isPrefixOf name then
    match globals.lookup (String.ofList name) with
    | some text => .ok text.toList
    | none => .error (.unknownGlobal (String.ofList name))
  else
    match findTemplate? templates name with
    | some t => .ok (standIn name (t.currentValue.map String.toList) position)
    | none => .error (.undeclaredVariable (String.ofList name))

/-! ## Writing the pieces -/

/-- What has been written of an expansion: the text, with its last character first, and the number
of square brackets open in its code. -/
structure Progress where
  before : List Char := []
  depth : Nat := 0
  deriving DecidableEq, Repr

/-- Writes one piece. Only characters of code open and close brackets. -/
def Progress.write (templates : List Template) (p : Progress) :
    Piece → Except ExpansionError Progress
  | .kept c => .ok ⟨c :: p.before, bracketDepth p.depth c⟩
  | .literal t => .ok ⟨t.reverse ++ p.before, p.depth⟩
  | .reference r =>
    (substitute templates r.name (Position.of p.before p.depth)).map fun t =>
      ⟨t.reverse ++ p.before, p.depth⟩

/-- The query with every reference replaced. -/
def expand (templates : List Template) (query : List Char) : Except ExpansionError (List Char) :=
  ((pieces query).foldlM (Progress.write templates) {}).map fun p => p.before.reverse

/-- `expand` on strings. -/
def expandText (templates : List Template) (query : String) : Except ExpansionError String :=
  (expand templates query.toList).map String.ofList

end PanelLint.Query
