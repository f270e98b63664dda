import PanelLint.Proofs.Query.Expansions
/-!
# The characters and references of a query

The pieces of a query are characters, references and whole literals.  Taken apart into its
characters, a literal says no more than its text, and what is left of a query is what expansion has
to replace and what it has to copy: the *atoms* of the query.

* `pieces_of_append`: behind any of its pieces a query falls into the pieces of the rest;
* `front_eq_of_texts`: the first pieces are known by their text;
* `exists_pieces_of_atoms`, `exists_record_of_atomize`: a reference among the atoms is a piece by
  itself, so that its place in a run can be found again;
* `written_atomize`: the same is written for the atoms of a record as for its pieces.
-/

namespace PanelLint.Query

open PanelLint.Text

variable {templates : List Template} {query : List Char} {ps qs front back : List Piece}
  {piece : Piece}

/-! ## 1. The pieces behind a piece -/

theorem texts_ofSegment {ss : List Segment} (hs : Segmented ss) :
    (ss.flatMap Piece.ofSegment).flatMap Piece.text = ss.flatMap Segment.text := by
  have htexts := pieces_texts (ss.flatMap Segment.text)
  rwa [pieces, hs.split_eq] at htexts

/-- **Behind a piece the others are the pieces of the rest.** -/
theorem pieces_of_cons (h : pieces query = piece :: ps) : pieces (ps.flatMap Piece.text) = ps := by
  have hsegmented := segmented_split query
  rw [pieces] at h
  generalize Segment.split query = ss at h hsegmented
  cases hsegmented with
  | nil => cases h
  | openLiteral _ _ =>
    obtain ⟨-, rfl⟩ := List.cons.inj h
    show pieces [] = []
    rw [pieces, Segment.split, List.flatMap_nil]
  | @literal quote body ss _ _ hs =>
    obtain ⟨-, rfl⟩ := List.cons.inj h
    show pieces ((ss.flatMap Piece.ofSegment).flatMap Piece.text) = ss.flatMap Piece.ofSegment
    rw [texts_ofSegment hs, pieces, hs.split_eq]
  | @code t ss ht hl hs =>
    -- the scan of the code goes on behind its first piece
    have hrest : ∃ t', (∀ d ∈ t', d ∈ t) ∧ ps = Piece.scan t' ++ ss.flatMap Piece.ofSegment := by
      rw [List.flatMap_cons, Piece.ofSegment] at h
      have hread := leftToRight_scan t
      generalize Piece.scan t = row at h hread
      cases hread with
      | nil => exact absurd rfl ht.1
      | @kept c cs row _ hread =>
        obtain ⟨-, rfl⟩ := List.cons.inj h
        exact ⟨cs, fun d hd => List.mem_cons_of_mem c hd, by rw [← hread.eq_scan]; rfl⟩
      | @reference _ rest r row hbegins hread =>
        obtain ⟨-, rfl⟩ := List.cons.inj h
        refine ⟨rest, fun d hd => ?_, by rw [← hread.eq_scan]; rfl⟩
        rw [hbegins.text_append]
        exact List.mem_append_right _ hd
    obtain ⟨t', ht', rfl⟩ := hrest
    rw [List.flatMap_append, Piece.scan_texts, texts_ofSegment hs,
      pieces_code_append (fun d hd => ht.2 d (ht' d hd)) hl hs]

/-- So it is behind several pieces. -/
theorem pieces_of_append (h : pieces query = ps ++ qs) : pieces (qs.flatMap Piece.text) = qs := by
  induction ps generalizing query with
  | nil =>
    rw [List.nil_append] at h
    rw [← h, pieces_texts]
  | cons piece ps ih => exact ih (pieces_of_cons h)

/-- What stands behind the first pieces has the other ones for its own. -/
theorem pieces_eq_of_append {a b : List Char} (h : pieces (a ++ b) = ps ++ qs)
    (ha : ps.flatMap Piece.text = a) : pieces b = qs := by
  have htexts := pieces_texts (a ++ b)
  rw [h, List.flatMap_append, ha] at htexts
  rw [← List.append_cancel_left htexts]
  exact pieces_of_append h

theorem text_ne_nil_of_mem_pieces (h : piece ∈ pieces query) : piece.text ≠ [] := by
  obtain ⟨front, back, hps⟩ := List.append_of_mem h
  cases piece with
  | kept c => exact List.cons_ne_nil c []
  | reference r =>
    obtain ⟨_, _, hbegins⟩ := begins_of_mem_pieces h
    cases hbegins <;> exact List.cons_ne_nil _ _
  | literal t =>
    obtain ⟨quote, body, rfl, -, -⟩ := literal_of_laid (laid_of_append (hps ▸ laid_pieces query))
    exact List.cons_ne_nil quote body

/-- The first pieces are known by their text. -/
theorem front_eq_of_texts {front' back' : List Piece} (h : pieces query = front ++ back)
    (h' : pieces query = front' ++ back')
    (htexts : front.flatMap Piece.text = front'.flatMap Piece.text) : front = front' := by
  have hempty : ∀ {ps : List Piece}, (∀ piece ∈ ps, piece ∈ pieces query) →
      ps.flatMap Piece.text = [] → ps = [] := by
    intro ps hmem hnil
    rw [List.flatMap_eq_nil_iff] at hnil
    exact List.eq_nil_iff_forall_not_mem.mpr fun piece hpiece =>
      text_ne_nil_of_mem_pieces (hmem piece hpiece) (hnil piece hpiece)
  rcases List.append_eq_append_iff.mp (h.symm.trans h') with ⟨mid, rfl, -⟩ | ⟨mid, rfl, -⟩
  · rw [List.flatMap_append, List.self_eq_append_right] at htexts
    rw [hempty (fun piece hpiece => by rw [h']; simp [hpiece]) htexts, List.append_nil]
  · rw [List.flatMap_append, List.append_right_eq_self] at htexts
    rw [hempty (fun piece hpiece => by rw [h]; simp [hpiece]) htexts, List.append_nil]

/-! ## 2. Characters and references -/

section Single

variable {α β : Type} {g : α → List β} {b : β}

/-- Something that is always written alone comes from one place. -/
theorem flatMap_eq_append_cons {l : List α} {xs ys : List β} (hb : ∀ a, b ∈ g a → g a = [b])
    (h : l.flatMap g = xs ++ b :: ys) :
    ∃ front a back, l = front ++ a :: back ∧ front.flatMap g = xs ∧ g a = [b] := by
  induction l generalizing xs with
  | nil => cases xs <;> cases h
  | cons a l ih =>
    rw [List.flatMap_cons] at h
    rcases List.append_eq_append_iff.mp h with ⟨mid, rfl, hmid⟩ | ⟨mid, hmid, hl⟩
    · obtain ⟨front, a', back, rfl, rfl, ha'⟩ := ih hmid
      exact ⟨a :: front, a', back, rfl, rfl, ha'⟩
    · cases mid with
      | nil =>
        obtain ⟨front, a', back, rfl, hfront, ha'⟩ := @ih [] hl.symm
        refine ⟨a :: front, a', back, rfl, ?_, ha'⟩
        rw [List.flatMap_cons, hfront, hmid]
        simp
      | cons b' mid =>
        obtain ⟨rfl, -⟩ := List.cons.inj hl
        have hsingle := hb a (by rw [hmid]; simp)
        rw [hsingle] at hmid
        cases xs with
        | nil => exact ⟨[], a, l, rfl, rfl, hsingle⟩
        | cons x xs => simp at hmid

end Single

/-- The characters and references of a piece. -/
def Piece.atoms : Piece → List Piece
  | .kept c => [.kept c]
  | .reference r => [.reference r]
  | .literal t => t.map .kept

/-- **The characters and references of a query**, with its literals taken apart. -/
def atoms (query : List Char) : List Piece := (pieces query).flatMap Piece.atoms

theorem Piece.atoms_texts (piece : Piece) : piece.atoms.flatMap Piece.text = piece.text := by
  cases piece with
  | literal t => simp [Piece.atoms, List.flatMap_map, Piece.text]
  | kept c => simp [Piece.atoms]
  | reference r => simp [Piece.atoms]

theorem texts_atoms (ps : List Piece) :
    (ps.flatMap Piece.atoms).flatMap Piece.text = ps.flatMap Piece.text := by
  rw [List.flatMap_assoc, funext Piece.atoms_texts]

theorem Piece.atoms_of_reference {r : Reference} (h : .reference r ∈ piece.atoms) :
    piece.atoms = [.reference r] := by
  cases piece with
  | literal t => simp [Piece.atoms] at h
  | kept c => simp [Piece.atoms] at h
  | reference r' =>
    rw [Piece.atoms, List.mem_singleton] at h
    rw [Piece.atoms, h]

/-- A reference among the atoms is a piece by itself. -/
theorem exists_pieces_of_atoms {r : Reference} {xs ys : List Piece}
    (h : ps.flatMap Piece.atoms = xs ++ .reference r :: ys) :
    ∃ front back, ps = front ++ .reference r :: back ∧ front.flatMap Piece.atoms = xs := by
  obtain ⟨front, piece, back, rfl, hfront, hpiece⟩ :=
    flatMap_eq_append_cons (fun _ => Piece.atoms_of_reference) h
  refine ⟨front, back, ?_, hfront⟩
  cases piece with
  | literal t => cases t <;> simp [Piece.atoms] at hpiece
  | kept c => simp [Piece.atoms] at hpiece
  | reference r' =>
    rw [Piece.atoms] at hpiece
    rw [(List.cons.inj hpiece).1]

theorem reference_mem_atoms_iff {r : Reference} :
    .reference r ∈ ps.flatMap Piece.atoms ↔ .reference r ∈ ps := by
  constructor
  · intro h
    obtain ⟨xs, ys, hsplit⟩ := List.append_of_mem h
    obtain ⟨front, back, rfl, -⟩ := exists_pieces_of_atoms hsplit
    simp
  · intro h
    exact List.mem_flatMap.mpr ⟨_, h, List.mem_singleton.mpr rfl⟩

/-! ## 3. The atoms of a record -/

variable {record : List (Piece × List Char)} {p : Progress}

/-- A piece with what is written for it, character by character if it is a literal. -/
def atomize : Piece × List Char → List (Piece × List Char)
  | (.kept c, t) => [(.kept c, t)]
  | (.reference r, t) => [(.reference r, t)]
  | (.literal l, _) => l.map fun c => (.kept c, [c])

theorem map_fst_atomize (record : List (Piece × List Char)) :
    (record.flatMap atomize).map Prod.fst = (record.map Prod.fst).flatMap Piece.atoms := by
  induction record with
  | nil => rfl
  | cons w record ih =>
    obtain ⟨piece, t⟩ := w
    rw [List.flatMap_cons, List.map_append, ih, List.map_cons, List.flatMap_cons]
    cases piece <;> simp [atomize, Piece.atoms]

/-- The same is written for the atoms of a record. -/
theorem written_atomize (hrec : ∀ w ∈ record, ∃ q, Placed templates q w) :
    (record.flatMap atomize).flatMap Prod.snd = record.flatMap Prod.snd := by
  rw [List.flatMap_assoc]
  have hwritten : ∀ w ∈ record, (atomize w).flatMap Prod.snd = w.2 := by
    rintro ⟨piece, t⟩ hw
    cases piece with
    | kept d => simp [atomize]
    | reference r => simp [atomize]
    | literal l =>
      obtain ⟨q, rfl⟩ := hrec _ hw
      simp [atomize, List.flatMap_map]
  rw [List.flatMap_def, List.map_congr_left hwritten, List.flatMap_def]

theorem kept_of_mem_atomize (hrec : ∀ w ∈ record, ∃ q, Placed templates q w) {d : Char}
    {t : List Char} (h : (.kept d, t) ∈ record.flatMap atomize) : t = [d] := by
  obtain ⟨⟨piece, u⟩, hw, hmem⟩ := List.mem_flatMap.mp h
  cases piece with
  | kept d' =>
    obtain ⟨q, hq⟩ := hrec _ hw
    simp only [atomize, List.mem_singleton, Prod.mk.injEq, Piece.kept.injEq] at hmem
    rw [hmem.2, hmem.1]
    exact hq
  | reference r => simp [atomize] at hmem
  | literal l =>
    simp only [atomize, List.mem_map, Prod.mk.injEq, Piece.kept.injEq] at hmem
    obtain ⟨e, -, rfl, rfl⟩ := hmem
    rfl

theorem not_literal_of_mem_atomize {l t : List Char} :
    (.literal l, t) ∉ record.flatMap atomize := by
  intro h
  obtain ⟨⟨piece, u⟩, -, hmem⟩ := List.mem_flatMap.mp h
  cases piece <;> simp [atomize] at hmem

/-- A reference among the atoms of a record is an entry by itself. -/
theorem exists_record_of_atomize {r : Reference} {t : List Char} {xs ys : List (Piece × List Char)}
    (h : record.flatMap atomize = xs ++ (.reference r, t) :: ys) :
    ∃ front back, record = front ++ (.reference r, t) :: back ∧ front.flatMap atomize = xs := by
  have hsingle : ∀ w, (.reference r, t) ∈ atomize w → atomize w = [(.reference r, t)] := by
    rintro ⟨piece, u⟩ hmem
    cases piece with
    | kept d => simp [atomize] at hmem
    | literal l => simp [atomize] at hmem
    | reference r' =>
      rw [atomize, List.mem_singleton] at hmem
      rw [atomize, hmem]
  obtain ⟨front, ⟨piece, u⟩, back, rfl, hfront, hw⟩ := flatMap_eq_append_cons hsingle h
  refine ⟨front, back, ?_, hfront⟩
  cases piece with
  | kept d => simp [atomize] at hw
  | literal l => cases l <;> simp [atomize] at hw
  | reference r' =>
    rw [atomize] at hw
    rw [(List.cons.inj hw).1]

end PanelLint.Query
