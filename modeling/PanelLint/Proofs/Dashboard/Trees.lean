import Mathlib.Data.List.Forall2
import PanelLint.Dashboard.Panels
/-!
# The trees of a dashboard

The list of all panels is made for walking along it.  Here the trees are looked at by themselves:
`Panel.Inside` says that a panel stands somewhere in some trees, at any depth, and `Panel.Inserted`
that trees have become others by one new panel, put with all that is inside it between two panels at
any depth.

* `mem_subtrees_iff`, `mem_allPanels_iff`: the list holds just the panels of the trees;
* `Panel.Inserted.subtrees`, `Dashboard.Inserted.allPanels`: a new panel puts its own tree into the
  list, as one block.  Of the other panels only those change that are around it, which all come
  before it, and these only in what is inside them (`Panel.Alike`);
* `Dashboard.Inserted.holds_id_iff`: so the ids on the dashboard become those and the new ones.
-/

namespace PanelLint

/-! ## 1. Panels in trees -/

/-- **A panel that stands in some trees**, at any depth. -/
inductive Panel.Inside (q : Panel) : List Panel → Prop
  | root {ps : List Panel} : q ∈ ps → Inside q ps
  | child {p : Panel} {ps : List Panel} : p ∈ ps → Inside q p.panels → Inside q ps

/-- A panel that stands in the trees of a dashboard or of one of its rows. -/
def Dashboard.Holds (d : Dashboard) (q : Panel) : Prop :=
  q.Inside d.panels ∨ ∃ r ∈ d.rows, q.Inside r.panels

theorem Panel.mem_subtree_self (p : Panel) : p ∈ p.subtree := by
  rw [Panel.subtree_eq]
  exact List.mem_cons_self

mutual

theorem Panel.inside_of_mem_subtree {q : Panel} :
    ∀ p : Panel, q ∈ p.subtree → q = p ∨ q.Inside p.panels
  | ⟨_, _, _, _, panels⟩, h => by
    rw [Panel.subtree] at h
    rcases List.mem_cons.mp h with rfl | h
    · exact Or.inl rfl
    · exact Or.inr (Panel.inside_of_mem_subtrees panels h)

theorem Panel.inside_of_mem_subtrees {q : Panel} :
    ∀ ps : List Panel, q ∈ Panel.subtrees ps → q.Inside ps
  | [], h => by
    rw [Panel.subtrees] at h
    exact absurd h (by simp)
  | p :: ps, h => by
    rw [Panel.subtrees] at h
    rcases List.mem_append.mp h with h | h
    · rcases Panel.inside_of_mem_subtree p h with rfl | h
      · exact .root List.mem_cons_self
      · exact .child List.mem_cons_self h
    · cases Panel.inside_of_mem_subtrees ps h with
      | root hq => exact .root (List.mem_cons_of_mem p hq)
      | child hp hq => exact .child (List.mem_cons_of_mem p hp) hq

end

/-- **The panels of some trees are those that stand in them.** -/
theorem mem_subtrees_iff {q : Panel} {ps : List Panel} :
    q ∈ Panel.subtrees ps ↔ q.Inside ps := by
  constructor
  · exact Panel.inside_of_mem_subtrees ps
  · intro h
    induction h with
    | root hq =>
      rw [Panel.subtrees_eq_flatMap]
      exact List.mem_flatMap.mpr ⟨q, hq, q.mem_subtree_self⟩
    | @child p ps hp _ ih =>
      rw [Panel.subtrees_eq_flatMap]
      refine List.mem_flatMap.mpr ⟨p, hp, ?_⟩
      rw [Panel.subtree_eq]
      exact List.mem_cons_of_mem p ih

theorem mem_allPanels_iff {q : Panel} {d : Dashboard} : q ∈ d.allPanels ↔ d.Holds q := by
  simp only [Dashboard.allPanels, Dashboard.Holds, List.mem_append, List.mem_flatMap,
    mem_subtrees_iff]

/-- A panel is found by its id just when one with that id is on the dashboard. -/
theorem isSome_findPanel?_iff {d : Dashboard} {id : Int} :
    (d.findPanel? id).isSome = true ↔ ∃ q ∈ d.allPanels, q.id = id := by
  simp [Dashboard.findPanel?, List.find?_isSome]

/-! ## 2. A new panel -/

/-- **Trees with a new panel.**  It stands between two of the trees, or somewhere inside one. -/
inductive Panel.Inserted (new : Panel) : List Panel → List Panel → Prop
  | here (before after : List Panel) : Inserted new (before ++ after) (before ++ new :: after)
  | inside {p : Panel} {panels : List Panel} (before after : List Panel) :
      Inserted new p.panels panels →
      Inserted new (before ++ p :: after) (before ++ { p with panels := panels } :: after)

/-- **A dashboard with a new panel**, among its own panels or in one of its rows. -/
inductive Dashboard.Inserted (new : Panel) : Dashboard → Dashboard → Prop
  | panels {d : Dashboard} {panels : List Panel} : Panel.Inserted new d.panels panels →
      Inserted new d { d with panels := panels }
  | row {d : Dashboard} {r : Row} {panels : List Panel} (before after : List Row) :
      d.rows = before ++ r :: after → Panel.Inserted new r.panels panels →
      Inserted new d { d with rows := before ++ { r with panels := panels } :: after }

/-- Two panels that differ at most in what is inside them. -/
structure Panel.Alike (p q : Panel) : Prop where
  id_eq : q.id = p.id
  title_eq : q.title = p.title
  kind_eq : q.kind = p.kind
  targets_eq : q.targets = p.targets

theorem Panel.alike_self (p : Panel) : p.Alike p := ⟨rfl, rfl, rfl, rfl⟩

theorem forall₂_alike_self (ps : List Panel) : List.Forall₂ Panel.Alike ps ps :=
  List.forall₂_same.mpr fun p _ => p.alike_self

/-- In related lists each element has one that it is related to. -/
theorem exists_related {α β : Type} {R : α → β → Prop} {xs : List α} {ys : List β}
    (h : List.Forall₂ R xs ys) {x : α} (hx : x ∈ xs) : ∃ y ∈ ys, R x y := by
  induction h with
  | nil => cases hx
  | cons hxy _ ih =>
    rcases List.mem_cons.mp hx with rfl | hx
    · exact ⟨_, List.mem_cons_self, hxy⟩
    · obtain ⟨y, hy, hxy⟩ := ih hx
      exact ⟨y, List.mem_cons_of_mem _ hy, hxy⟩

/-- **A new panel puts its tree into the list of all panels, as one block.**  What comes after it
stays as it is, since the panels around it come before it. -/
theorem Panel.Inserted.subtrees {new : Panel} {ps qs : List Panel} (h : Panel.Inserted new ps qs) :
    ∃ before before' after, Panel.subtrees ps = before ++ after ∧
      Panel.subtrees qs = before' ++ new.subtree ++ after ∧
        List.Forall₂ Panel.Alike before before' := by
  induction h with
  | here before after =>
    refine ⟨Panel.subtrees before, Panel.subtrees before, Panel.subtrees after,
      Panel.subtrees_append before after, ?_, forall₂_alike_self _⟩
    rw [Panel.subtrees_append, Panel.subtrees, List.append_assoc]
  | @inside p panels before after _ ih =>
    -- the panel around the new one is walked before what is inside it
    obtain ⟨front, front', back, hold, hnew, halike⟩ := ih
    refine ⟨Panel.subtrees before ++ p :: front,
      Panel.subtrees before ++ { p with panels := panels } :: front',
      back ++ Panel.subtrees after, ?_, ?_, ?_⟩
    · rw [Panel.subtrees_append, Panel.subtrees, Panel.subtree_eq, hold]
      simp
    · rw [Panel.subtrees_append, Panel.subtrees, Panel.subtree, hnew]
      simp
    · exact List.rel_append (forall₂_alike_self _) (.cons ⟨rfl, rfl, rfl, rfl⟩ halike)

theorem Dashboard.Inserted.allPanels {new : Panel} {d d' : Dashboard}
    (h : Dashboard.Inserted new d d') :
    ∃ before before' after, d.allPanels = before ++ after ∧
      d'.allPanels = before' ++ new.subtree ++ after ∧
        List.Forall₂ Panel.Alike before before' := by
  cases h with
  | panels h =>
    obtain ⟨before, before', after, hold, hnew, halike⟩ := h.subtrees
    refine ⟨before, before', after ++ d.rows.flatMap fun r => Panel.subtrees r.panels, ?_, ?_,
      halike⟩
    · rw [Dashboard.allPanels, hold, List.append_assoc]
    · simp only [Dashboard.allPanels, hnew, List.append_assoc]
  | @row r panels rows rows' hrows h =>
    obtain ⟨before, before', after, hold, hnew, halike⟩ := h.subtrees
    have hfront := forall₂_alike_self
      (Panel.subtrees d.panels ++ rows.flatMap fun r => Panel.subtrees r.panels)
    refine ⟨_, _, after ++ rows'.flatMap fun r => Panel.subtrees r.panels, ?_, ?_,
      List.rel_append hfront halike⟩
    · simp [Dashboard.allPanels, hrows, hold]
    · simp [Dashboard.allPanels, hnew]

/-- The ids that are found on the dashboard are the old ones and those of the new tree. -/
theorem Dashboard.Inserted.holds_id_iff {new : Panel} {d d' : Dashboard}
    (h : Dashboard.Inserted new d d') {id : Int} :
    (∃ q, d'.Holds q ∧ q.id = id) ↔
      (∃ q, d.Holds q ∧ q.id = id) ∨ ∃ q ∈ new.subtree, q.id = id := by
  obtain ⟨before, before', after, hold, hnew, halike⟩ := h.allPanels
  have hids : before'.map Panel.id = before.map Panel.id := by
    clear hold hnew
    induction halike with
    | nil => rfl
    | cons hp _ ih => rw [List.map_cons, List.map_cons, hp.id_eq, ih]
  have hbefore : (∃ q ∈ before', q.id = id) ↔ ∃ q ∈ before, q.id = id := by
    rw [← List.mem_map, hids, List.mem_map]
  simp only [← mem_allPanels_iff, hold, hnew, List.mem_append, or_and_right, exists_or, hbefore]
  exact or_right_comm

/-- Every old panel is still there, up to what is inside it. -/
theorem Dashboard.Inserted.exists_alike {new p : Panel} {d d' : Dashboard}
    (h : Dashboard.Inserted new d d') (hp : d.Holds p) : ∃ p', d'.Holds p' ∧ p.Alike p' := by
  obtain ⟨before, before', after, hold, hnew, halike⟩ := h.allPanels
  simp only [← mem_allPanels_iff, hold, hnew, List.mem_append] at hp ⊢
  rcases hp with hp | hp
  · obtain ⟨p', hp', hpp'⟩ := exists_related halike hp
    exact ⟨p', Or.inl (Or.inl hp'), hpp'⟩
  · exact ⟨p, Or.inr hp, p.alike_self⟩

theorem Dashboard.Inserted.title_eq {new : Panel} {d d' : Dashboard}
    (h : Dashboard.Inserted new d d') : d'.title = d.title := by
  cases h <;> rfl

theorem Dashboard.Inserted.templating_eq {new : Panel} {d d' : Dashboard}
    (h : Dashboard.Inserted new d d') : d'.templating = d.templating := by
  cases h <;> rfl

end PanelLint
