import PanelLint.Dashboard.Basic
/-!
# The panels of a dashboard in document order

A panel comes right before the panels inside it. The trees of the dashboard's own panels come first,
then those of its rows. `Dashboard.allPanels` is that list, and a panel is found by its id as the
first one there that carries it.
-/

namespace PanelLint

mutual

/-- A panel and the panels inside it, at every depth. -/
def Panel.subtree : Panel → List Panel
  | ⟨id, title, kind, targets, panels⟩ =>
    ⟨id, title, kind, targets, panels⟩ :: Panel.subtrees panels

/-- The panels of several trees, tree after tree. -/
def Panel.subtrees : List Panel → List Panel
  | [] => []
  | p :: ps => p.subtree ++ Panel.subtrees ps

end

theorem Panel.subtree_eq (p : Panel) : p.subtree = p :: Panel.subtrees p.panels := by
  cases p
  rw [Panel.subtree]

theorem Panel.subtrees_eq_flatMap (ps : List Panel) :
    Panel.subtrees ps = ps.flatMap Panel.subtree := by
  induction ps with
  | nil => rw [Panel.subtrees, List.flatMap_nil]
  | cons p ps ih => rw [Panel.subtrees, ih, List.flatMap_cons]

theorem Panel.subtrees_append (ps qs : List Panel) :
    Panel.subtrees (ps ++ qs) = Panel.subtrees ps ++ Panel.subtrees qs := by
  rw [Panel.subtrees_eq_flatMap, Panel.subtrees_eq_flatMap, Panel.subtrees_eq_flatMap,
    List.flatMap_append]

namespace Dashboard

/-- Every panel, in document order. -/
def allPanels (d : Dashboard) : List Panel :=
  Panel.subtrees d.panels ++ d.rows.flatMap fun r => Panel.subtrees r.panels

/-- The first panel with an id. -/
def findPanel? (d : Dashboard) (id : Int) : Option Panel := d.allPanels.find? (·.id == id)

theorem findPanel?_eq_none_iff (d : Dashboard) (id : Int) :
    d.findPanel? id = none ↔ ∀ p ∈ d.allPanels, p.id ≠ id := by
  simp [findPanel?, List.find?_eq_none]

end Dashboard

/-- The kinds of panels that show the results of queries. -/
def queryKinds : List String :=
  ["singlestat", "graph", "table", "stat", "state-timeline", "timeseries"]

/-- Whether the panel shows the results of queries. -/
def Panel.hasQueries (p : Panel) : Bool := queryKinds.contains p.kind

end PanelLint
