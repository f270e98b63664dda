import Mathlib.Data.List.Lex
import Mathlib.Data.List.TakeWhile
import Mathlib.Data.Set.Card
import PanelLint.Proofs.Dashboard.Trees
/-!
# Walks

A loop over a list, and in it a loop over a list of each element, and so on, comes to things that
each stand at a place: a list of indices, one for each loop.  `Walk` says of a list that it has what
stands at some places, each thing once, and in the order of the places.  The order is that of the
first indices that differ, and a place comes before those that go on from it, so there is only one
such list.

* `exists_walk_behind`: the walks of a loop's rounds, one after the other, are a walk;
* `exists_block`: in a walk, a place and those that go on from it come in one block;
* `allPanels_walk`: the list of all panels is the walk through the trees of a dashboard.
-/

namespace PanelLint

/-! ## 1. Places and their order -/

section Places

variable {place q s : List Nat} {places : List (List Nat)}

/-- What comes after a place and does not go on from it comes after all that does. -/
theorem append_lt_of_not_prefix (h : place < q) (hp : ¬ place <+: q) : place ++ s < q := by
  induction place generalizing q with
  | nil => exact absurd List.nil_prefix hp
  | cons i place ih =>
    cases q with
    | nil => exact absurd h (List.not_lt_nil _)
    | cons j q =>
      rcases List.cons_lt_cons_iff.mp h with hij | ⟨rfl, hlt⟩
      · exact List.cons_lt_cons_iff.mpr (Or.inl hij)
      · refine List.cons_lt_cons_iff.mpr (Or.inr ⟨rfl, ih hlt fun hq => hp ?_⟩)
        exact List.cons_prefix_cons.mpr ⟨rfl, hq⟩

/-- A place comes before those that go on from it. -/
theorem not_lt_of_prefix (h : place <+: q) : ¬ q < place := by
  obtain ⟨s, rfl⟩ := h
  exact List.le_append_left

/-- **In ordered places those that go on from one of them come in one block**, right behind it. -/
theorem exists_block (hs : places.Pairwise (· < ·)) (h : place ∈ places) :
    ∃ before below after, places = before ++ place :: below ++ after ∧
      (∀ q ∈ below, place <+: q) ∧ ∀ q ∈ before ++ after, ¬ place <+: q := by
  obtain ⟨before, rest, rfl⟩ := List.append_of_mem h
  obtain ⟨-, hrest, hbefore⟩ := List.pairwise_append.mp hs
  obtain ⟨hlt, hrest⟩ := List.pairwise_cons.mp hrest
  refine ⟨before, rest.takeWhile (place.isPrefixOf ·), rest.dropWhile (place.isPrefixOf ·), ?_,
    fun q hq => ?_, fun q hq hprefix => ?_⟩
  · simp [List.takeWhile_append_dropWhile]
  · exact List.isPrefixOf_iff_prefix.mp (List.mem_takeWhile_imp hq)
  · rcases List.mem_append.mp hq with hq | hq
    · exact not_lt_of_prefix hprefix (hbefore q hq place List.mem_cons_self)
    · -- the first place behind the block comes after all that goes on from `place`
      obtain ⟨s, rfl⟩ := hprefix
      have hsub := List.dropWhile_sublist (l := rest) (place.isPrefixOf ·)
      have hend := List.head?_dropWhile_not (place.isPrefixOf ·) rest
      cases hafter : rest.dropWhile (place.isPrefixOf ·) with
      | nil => rw [hafter] at hq; cases hq
      | cons e after =>
        rw [hafter] at hq hend hsub
        have he : ¬ place <+: e := by simpa [← List.isPrefixOf_iff_prefix] using hend
        have hlast : place ++ s < e :=
          append_lt_of_not_prefix (hlt e (hsub.subset List.mem_cons_self)) he
        rcases List.mem_cons.mp hq with heq | hq
        · exact lt_irrefl _ (heq ▸ hlast)
        · exact lt_asymm hlast ((List.pairwise_cons.mp (hrest.sublist hsub)).1 _ hq)

end Places

/-! ## 2. Walks -/

section Walks

variable {α β : Type} {at? : List Nat → Option α} {places : List (List Nat)} {xs : List α}

/-- **A list is a walk along some places**: it has what stands there, in the order of the places, and
nothing stands anywhere else. -/
structure Walk (at? : List Nat → Option α) (places : List (List Nat)) (xs : List α) : Prop where
  sorted : places.Pairwise (· < ·)
  along : List.Forall₂ (fun place x => at? place = some x) places xs
  whole : ∀ place x, at? place = some x → place ∈ places

theorem Walk.mem_iff (h : Walk at? places xs) {place : List Nat} :
    place ∈ places ↔ ∃ x, at? place = some x := by
  constructor
  · intro hp
    obtain ⟨x, -, hx⟩ := exists_related h.along hp
    exact ⟨x, hx⟩
  · rintro ⟨x, hx⟩
    exact h.whole place x hx

/-- What is beside the list of a walk is beside its places. -/
theorem Walk.forall₂_iff (h : Walk at? places xs) {R : α → β → Prop} {ys : List β} :
    List.Forall₂ R xs ys ↔
      List.Forall₂ (fun place y => ∃ x, at? place = some x ∧ R x y) places ys := by
  have halong := h.along
  clear h
  induction halong generalizing ys with
  | nil => simp
  | @cons place x places xs hx _ ih =>
    constructor
    · rintro (_ | ⟨hxy, hys⟩)
      exact .cons ⟨x, hx, hxy⟩ (ih.mp hys)
    · rintro (_ | ⟨⟨x', hx', hxy⟩, hys⟩)
      exact .cons (Option.some.inj (hx.symm.trans hx') ▸ hxy) (ih.mpr hys)

theorem Walk.nodup (h : Walk at? places xs) : places.Nodup :=
  List.Pairwise.imp (fun hlt => ne_of_lt hlt) h.sorted

/-- Counting along a walk is counting places. -/
theorem Walk.countP_eq_ncard (h : Walk at? places xs) {P : List Nat → Prop} {p : β → Bool}
    {ys : List β} (hP : ∀ place, P place → place ∈ places)
    (hys : List.Forall₂ (fun place y => p y = true ↔ P place) places ys) :
    ys.countP p = {place | P place}.ncard := by
  classical
  have hset : {place | P place} = ((places.filter (P ·)).toFinset : Set (List Nat)) := by
    ext place
    simpa using hP place
  have hcount : ys.countP p = (places.filter (P ·)).length := by
    clear h hset hP
    induction hys with
    | nil => rfl
    | @cons place y places ys hy _ ih =>
      by_cases hplace : P place
      · rw [List.countP_cons_of_pos (hy.mpr hplace), ih, List.filter_cons_of_pos (by simpa),
          List.length_cons]
      · rw [List.countP_cons_of_neg (mt hy.mp hplace), ih, List.filter_cons_of_neg (by simpa)]
  rw [hset, Set.ncard_coe_finset, List.toFinset_card_of_nodup (h.nodup.filter _), hcount]

/-- A walk is as long as there are places where something stands. -/
theorem Walk.length_eq_ncard (h : Walk at? places xs) :
    xs.length = {place | ∃ x, at? place = some x}.ncard := by
  rw [← h.countP_eq_ncard (fun place => h.mem_iff.mpr)
    (h.along.imp fun place x hx => (iff_of_true rfl ⟨x, hx⟩ : true = true ↔ _))]
  simp

/-- A search along sorted places finds what stands at the first place of its kind. -/
theorem find?_along {p : α → Bool} {x : α} (hsorted : places.Pairwise (· < ·))
    (halong : List.Forall₂ (fun place x => at? place = some x) places xs) :
    xs.find? p = some x ↔ ∃ place ∈ places, at? place = some x ∧ p x = true ∧
      ∀ place' ∈ places, place' < place → ∀ y, at? place' = some y → p y = false := by
  induction halong with
  | nil => simp
  | @cons first z places xs hz _ ih =>
    obtain ⟨hfirst, hsorted⟩ := List.pairwise_cons.mp hsorted
    cases hpz : p z with
    | true =>
      rw [List.find?_cons_of_pos hpz, Option.some_inj]
      constructor
      · rintro rfl
        refine ⟨first, List.mem_cons_self, hz, hpz, fun place' hplace hlt => ?_⟩
        rcases List.mem_cons.mp hplace with rfl | hplace
        · exact absurd hlt (lt_irrefl _)
        · exact absurd hlt (lt_asymm (hfirst place' hplace))
      · rintro ⟨place, hplace, hx, -, hleast⟩
        rcases List.mem_cons.mp hplace with rfl | hplace
        · exact Option.some.inj (hz.symm.trans hx)
        · have hfalse := hleast first List.mem_cons_self (hfirst place hplace) z hz
          exact absurd (hpz.symm.trans hfalse) (by simp)
    | false =>
      rw [List.find?_cons_of_neg (by simp [hpz]), ih hsorted]
      constructor
      · rintro ⟨place, hplace, hx, hpx, hleast⟩
        refine ⟨place, List.mem_cons_of_mem first hplace, hx, hpx, fun place' hplace' hlt y hy => ?_⟩
        rcases List.mem_cons.mp hplace' with rfl | hplace'
        · exact Option.some.inj (hz.symm.trans hy) ▸ hpz
        · exact hleast place' hplace' hlt y hy
      · rintro ⟨place, hplace, hx, hpx, hleast⟩
        rcases List.mem_cons.mp hplace with rfl | hplace
        · rw [Option.some.inj (hx.symm.trans hz), hpz] at hpx
          cases hpx
        · exact ⟨place, hplace, hx, hpx, fun place' hplace' =>
            hleast place' (List.mem_cons_of_mem first hplace')⟩

/-- **What a search along a walk finds** stands at the first place of its kind. -/
theorem Walk.find?_eq_some_iff (h : Walk at? places xs) {p : α → Bool} {x : α} :
    xs.find? p = some x ↔ ∃ place, at? place = some x ∧ p x = true ∧
      ∀ place' < place, ∀ y, at? place' = some y → p y = false := by
  rw [find?_along h.sorted h.along]
  constructor
  · rintro ⟨place, -, hx, hpx, hleast⟩
    exact ⟨place, hx, hpx, fun place' hlt y hy => hleast place' (h.whole place' y hy) hlt y hy⟩
  · rintro ⟨place, hx, hpx, hleast⟩
    exact ⟨place, h.whole place x hx, hx, hpx, fun place' _ => hleast place'⟩

theorem Walk.find?_eq_none_iff (h : Walk at? places xs) {p : α → Bool} :
    xs.find? p = none ↔ ∀ place x, at? place = some x → p x = false := by
  rw [List.find?_eq_none]
  constructor
  · intro hnone place x hx
    obtain ⟨y, hy, hxy⟩ := exists_related h.along (h.whole place x hx)
    rw [Option.some.inj (hx.symm.trans hxy)]
    simpa using hnone y hy
  · intro hnone x hx
    obtain ⟨place, -, hplace⟩ := exists_related h.along.flip hx
    simp [hnone place x hplace]

/-! ## 3. Loops in loops -/

/-- What stands at a place behind its first index. -/
def behind (ys : List β) (at? : β → List Nat → Option α) : List Nat → Option α
  | [] => none
  | i :: place => ys[i]?.bind (at? · place)

variable {ys : List β} {y : β} {inner : β → List Nat → Option α} {place : List Nat} {x : α}

theorem behind_eq_some_iff : behind ys inner place = some x ↔
    ∃ i rest y, place = i :: rest ∧ ys[i]? = some y ∧ inner y rest = some x := by
  cases place with
  | nil => simp [behind]
  | cons i rest => simp [behind, Option.bind_eq_some_iff]

theorem getElem?_concat_eq_some_iff {i : Nat} {z : β} :
    (ys ++ [y])[i]? = some z ↔ ys[i]? = some z ∨ i = ys.length ∧ y = z := by
  rcases Nat.lt_trichotomy i ys.length with h | rfl | h
  · simp [List.getElem?_append_left h, h.ne]
  · simp
  · simp [h.ne', h, h.le]

/-- One more round of a loop comes last. -/
theorem behind_concat_eq_some_iff : behind (ys ++ [y]) inner place = some x ↔
    behind ys inner place = some x ∨
      ∃ rest, place = ys.length :: rest ∧ inner y rest = some x := by
  simp only [behind_eq_some_iff, getElem?_concat_eq_some_iff]
  constructor
  · rintro ⟨i, rest, z, rfl, hz | ⟨rfl, rfl⟩, hx⟩
    · exact Or.inl ⟨i, rest, z, rfl, hz, hx⟩
    · exact Or.inr ⟨rest, rfl, hx⟩
  · rintro (⟨i, rest, z, rfl, hz, hx⟩ | ⟨rest, rfl, hx⟩)
    · exact ⟨i, rest, z, rfl, Or.inl hz, hx⟩
    · exact ⟨_, rest, y, rfl, Or.inr ⟨rfl, rfl⟩, hx⟩

/-- **The walks of a loop's rounds, one after the other, are a walk.** -/
theorem exists_walk_behind {walk : β → List α}
    (h : ∀ y ∈ ys, ∃ places, Walk (inner y) places (walk y)) :
    ∃ places, Walk (behind ys inner) places (ys.flatMap walk) := by
  induction ys using List.reverseRecOn with
  | nil => exact ⟨[], .nil, .nil, fun place x hx => by simp [behind_eq_some_iff] at hx⟩
  | append_singleton ys y ih =>
    obtain ⟨front, hfront⟩ := ih fun z hz => h z (List.mem_append_left _ hz)
    obtain ⟨back, hback⟩ := h y (List.mem_append_right _ List.mem_cons_self)
    refine ⟨front ++ back.map (ys.length :: ·), List.pairwise_append.mpr ⟨hfront.sorted, ?_, ?_⟩,
      ?_, fun place x hx => ?_⟩
    · rw [List.pairwise_map]
      exact hback.sorted.imp fun hlt => List.cons_lt_cons_iff.mpr (Or.inr ⟨rfl, hlt⟩)
    · intro place hplace place' hplace'
      obtain ⟨x, hx⟩ := hfront.mem_iff.mp hplace
      obtain ⟨i, rest, z, rfl, hz, -⟩ := behind_eq_some_iff.mp hx
      obtain ⟨rest', -, rfl⟩ := List.mem_map.mp hplace'
      exact List.cons_lt_cons_iff.mpr (Or.inl (List.getElem?_eq_some_iff.mp hz).1)
    · rw [List.flatMap_append, List.flatMap_singleton]
      refine List.rel_append ?_ ?_
      · exact hfront.along.imp fun place x hx => behind_concat_eq_some_iff.mpr (Or.inl hx)
      · rw [List.forall₂_map_left_iff]
        exact hback.along.imp fun rest x hx =>
          behind_concat_eq_some_iff.mpr (Or.inr ⟨rest, rfl, hx⟩)
    · rcases behind_concat_eq_some_iff.mp hx with hx | ⟨rest, rfl, hrest⟩
      · exact List.mem_append_left _ (hfront.whole place x hx)
      · exact List.mem_append_right _ (List.mem_map_of_mem (hback.whole rest x hrest))

end Walks

/-! ## 4. Panels at their places -/

/-- The panel at the end of a path down a tree, each index choosing among the panels inside the one
before. -/
def Panel.below? : Panel → List Nat → Option Panel
  | p, [] => some p
  | p, i :: path => p.panels[i]?.bind (·.below? path)

/-- **The panel at a place of a dashboard.**  The first index is 0 for the dashboard's own panels and
`k + 1` for its row `k`, the second chooses one of the trees there, and the others are the path down
that tree. -/
def Dashboard.at? (d : Dashboard) : List Nat → Option Panel :=
  behind (d.panels :: d.rows.map Row.panels) fun ps => behind ps Panel.below?

/-- Panels are built from the inside to the outside. -/
theorem Panel.induction {P : Panel → Prop} (h : ∀ p : Panel, (∀ q ∈ p.panels, P q) → P p) :
    ∀ p, P p
  | ⟨id, title, kind, targets, panels⟩ =>
    h ⟨id, title, kind, targets, panels⟩ fun q _ => Panel.induction h q

/-- **A panel comes before the panels inside it**, and these are walked through in their order. -/
theorem Panel.exists_walk (p : Panel) : ∃ places, Walk p.below? places p.subtree := by
  induction p using Panel.induction with
  | h p ih =>
    obtain ⟨places, hwalk⟩ := exists_walk_behind ih
    have hbelow : ∀ place q, p.below? place = some q ↔
        place = [] ∧ q = p ∨ behind p.panels Panel.below? place = some q := by
      rintro (_ | ⟨i, path⟩) q
      · simp [Panel.below?, behind, eq_comm]
      · simp [Panel.below?, behind]
    rw [Panel.subtree_eq, Panel.subtrees_eq_flatMap]
    refine ⟨[] :: places, List.pairwise_cons.mpr ⟨fun place hplace => ?_, hwalk.sorted⟩,
      .cons rfl (hwalk.along.imp fun place q hq => (hbelow place q).mpr (Or.inr hq)),
      fun place q hq => ?_⟩
    · obtain ⟨q, hq⟩ := hwalk.mem_iff.mp hplace
      obtain ⟨i, rest, -, rfl, -⟩ := behind_eq_some_iff.mp hq
      exact List.nil_lt_cons i rest
    · rcases (hbelow place q).mp hq with ⟨rfl, -⟩ | hq
      · exact List.mem_cons_self
      · exact List.mem_cons_of_mem _ (hwalk.whole place q hq)

/-- The list of all panels is a walk through the trees. -/
theorem Dashboard.exists_walk (d : Dashboard) : ∃ places, Walk d.at? places d.allPanels := by
  have htrees : d.allPanels =
      (d.panels :: d.rows.map Row.panels).flatMap fun ps => ps.flatMap Panel.subtree := by
    simp [Dashboard.allPanels, Panel.subtrees_eq_flatMap, List.flatMap_map]
  rw [htrees]
  exact exists_walk_behind fun ps _ => exists_walk_behind fun p _ => p.exists_walk

/-- **The list of all panels is the walk through the trees of a dashboard.**  It has every panel once,
in the order of the places: those of the dashboard before those of its rows, a panel before those
inside it, and these in one block with it.  So it is as long as there are places of panels, and
looking for an id in it finds the panel at the first place with that id. -/
theorem allPanels_walk (d : Dashboard) :
    ∃ places, Walk d.at? places d.allPanels ∧
      (∀ place ∈ places, ∃ before below after, places = before ++ place :: below ++ after ∧
        (∀ q ∈ below, place <+: q) ∧ ∀ q ∈ before ++ after, ¬ place <+: q) ∧
      d.allPanels.length = {place | ∃ p, d.at? place = some p}.ncard ∧
      ∀ id, (∀ p, d.findPanel? id = some p ↔ ∃ place, d.at? place = some p ∧ p.id = id ∧
          ∀ place' < place, ∀ q, d.at? place' = some q → q.id ≠ id) ∧
        (d.findPanel? id = none ↔ ∀ place p, d.at? place = some p → p.id ≠ id) := by
  obtain ⟨places, hwalk⟩ := d.exists_walk
  refine ⟨places, hwalk, fun place => exists_block hwalk.sorted, hwalk.length_eq_ncard,
    fun id => ⟨fun p => ?_, ?_⟩⟩
  · rw [Dashboard.findPanel?, hwalk.find?_eq_some_iff]
    simp
  · rw [Dashboard.findPanel?, hwalk.find?_eq_none_iff]
    simp

end PanelLint
