import Mathlib.Control.Monad.Basic
import Mathlib.Data.List.Forall2
import Mathlib.Data.List.Infix
import PanelLint.Proofs.Query.Forms
import PanelLint.Proofs.Query.Substitutes
/-!
# Expansion as a rewriting in one pass

An expansion writes one text for each piece of the query, from left to right.  A list of pieces,
each with the text written for it, is a *record* of a run; `Progress.after` is what has been written
at its end, and `Placed` says when a text is right for a piece at some point of a run.

* `write_eq_ok_iff`: one step writes a right text for its piece and nothing else;
* `foldlM_write_eq_ok_iff`: a run succeeds just when it has a record of right texts;
* `expand_rewrites_references`: what this says about a whole query.  Its pieces are factors of it,
  only references are replaced, and a text that was written is not looked at again.
-/

namespace PanelLint.Query

open PanelLint.Text

/-! ## 1. The factors of a query -/

/-- The factors of a segment: a literal is whole, code is read from left to right. -/
inductive Factors : Segment → List Piece → Prop
  | code {t : List Char} {ps : List Piece} : LeftToRight t ps → Factors (.code t) ps
  | literal {t : List Char} : Factors (.literal t) [.literal t]

/-- The factors of a query: those of its segments in a row. -/
def Factored (query : List Char) (ps : List Piece) : Prop :=
  ps.flatMap Piece.text = query ∧
    ∃ groups : List (List Piece),
      List.Forall₂ Factors (Segment.split query) groups ∧ ps = groups.flatten

theorem factors_ofSegment (s : Segment) : Factors s (Piece.ofSegment s) := by
  cases s with
  | code t => exact Factors.code (leftToRight_scan t)
  | literal t => exact Factors.literal

theorem factored_pieces (query : List Char) : Factored query (pieces query) := by
  refine ⟨pieces_texts query, (Segment.split query).map Piece.ofSegment, ?_, ?_⟩
  · rw [List.forall₂_map_right_iff]
    exact List.forall₂_same.mpr fun s _ => factors_ofSegment s
  · rw [pieces, List.flatMap_def]

/-- The names of the references of a query are words. -/
theorem name_isRun_of_mem_pieces {query : List Char} {r : Reference}
    (h : .reference r ∈ pieces query) : IsRun isWord r.name := by
  obtain ⟨s, -, hr⟩ := List.mem_flatMap.mp h
  cases s with
  | code t => exact name_isRun_of_mem_scan hr
  | literal t => exact absurd hr (by simp [Piece.ofSegment])

/-! ## 2. Records of a run -/

/-- The code that pieces keep. -/
def keptCode : List Piece → List Char
  | [] => []
  | .kept c :: ps => c :: keptCode ps
  | _ :: ps => keptCode ps

theorem keptCode_append (ps qs : List Piece) : keptCode (ps ++ qs) = keptCode ps ++ keptCode qs := by
  induction ps with
  | nil => rfl
  | cons p ps ih => cases p <;> simp [keptCode, ih]

/-- The number of brackets that code leaves open, when `depth` were open before it. -/
def openBrackets (depth : Nat) (code : List Char) : Nat := code.foldl bracketDepth depth

/-- What has been written after more pieces, each with its text. -/
def Progress.after (p : Progress) (record : List (Piece × List Char)) : Progress :=
  ⟨(record.flatMap Prod.snd).reverse ++ p.before,
    openBrackets p.depth (keptCode (record.map Prod.fst))⟩

/-- **The right text for a piece.**  Characters and literals stay as they are; a reference becomes
what it stands for at the place that has been reached. -/
def Placed (templates : List Template) (p : Progress) : Piece × List Char → Prop
  | (.kept c, t) => t = [c]
  | (.literal l, t) => t = l
  | (.reference r, t) => substitute templates r.name (Position.of p.before p.depth) = .ok t

@[simp] theorem Progress.after_nil (p : Progress) : p.after [] = p := rfl

theorem Progress.after_append (p : Progress) (ws vs : List (Piece × List Char)) :
    p.after (ws ++ vs) = (p.after ws).after vs := by
  simp [Progress.after, keptCode_append, openBrackets]

theorem Progress.after_cons (p : Progress) (w : Piece × List Char)
    (vs : List (Piece × List Char)) : p.after (w :: vs) = (p.after [w]).after vs :=
  Progress.after_append p [w] vs

variable {templates : List Template}

/-- One step writes the right text for its piece. -/
theorem write_eq_ok_iff {p p' : Progress} {piece : Piece} :
    p.write templates piece = .ok p' ↔
      ∃ t, Placed templates p (piece, t) ∧ p' = p.after [(piece, t)] := by
  cases piece with
  | kept c =>
    simp only [Progress.write, Placed, Except.ok.injEq, exists_eq_left]
    exact eq_comm
  | literal l =>
    simp only [Progress.write, Placed, Except.ok.injEq, exists_eq_left]
    rw [eq_comm]
    simp [Progress.after, keptCode, openBrackets]
  | reference r =>
    simp only [Progress.write, Placed]
    cases hs : substitute templates r.name (Position.of p.before p.depth) with
    | error e => simp [Except.map]
    | ok t =>
      simp only [Except.map, Except.ok.injEq, exists_eq_left']
      rw [eq_comm]
      simp [Progress.after, keptCode, openBrackets]

/-- The texts of a record are right at every point of the run. -/
def PlacedAll (templates : List Template) (p : Progress) (record : List (Piece × List Char)) :
    Prop :=
  ∀ pre w post, record = pre ++ w :: post → Placed templates (p.after pre) w

theorem placedAll_nil (p : Progress) : PlacedAll templates p [] := by
  intro pre w post h
  exact absurd h (by simp)

theorem placedAll_cons {p : Progress} {w : Piece × List Char} {ws : List (Piece × List Char)} :
    PlacedAll templates p (w :: ws) ↔
      Placed templates p w ∧ PlacedAll templates (p.after [w]) ws := by
  constructor
  · intro h
    refine ⟨h [] w ws rfl, fun pre v post hv => ?_⟩
    have hpre := h (w :: pre) v post (by rw [hv, List.cons_append])
    rwa [Progress.after_cons] at hpre
  · rintro ⟨hw, hws⟩ pre v post hv
    cases pre with
    | nil =>
      obtain ⟨rfl, -⟩ := List.cons.inj hv
      exact hw
    | cons u pre =>
      obtain ⟨rfl, htail⟩ := List.cons.inj hv
      rw [Progress.after_cons]
      exact hws pre v post htail

theorem placedAll_of_append {p : Progress} {ws vs : List (Piece × List Char)}
    (h : PlacedAll templates p (ws ++ vs)) : PlacedAll templates p ws := by
  intro pre w post hws
  exact h pre w (post ++ vs) (by rw [hws, List.append_assoc]; rfl)

theorem exists_placed_of_mem {p : Progress} {ws : List (Piece × List Char)}
    (h : PlacedAll templates p ws) : ∀ w ∈ ws, ∃ q, Placed templates q w := by
  intro w hw
  obtain ⟨pre, post, hsplit⟩ := List.append_of_mem hw
  exact ⟨_, h pre w post hsplit⟩

/-- A run succeeds just when it has a record of right texts. -/
theorem foldlM_write_eq_ok_iff {ps : List Piece} {p p' : Progress} :
    ps.foldlM (Progress.write templates) p = .ok p' ↔
      ∃ record : List (Piece × List Char),
        record.map Prod.fst = ps ∧ p' = p.after record ∧ PlacedAll templates p record := by
  induction ps generalizing p with
  | nil =>
    constructor
    · intro h
      exact ⟨[], rfl, (Except.ok.inj h).symm, placedAll_nil p⟩
    · rintro ⟨record, hps, rfl, -⟩
      rw [List.map_eq_nil_iff.mp hps]
      rfl
  | cons piece ps ih =>
    rw [List.foldlM_cons]
    constructor
    · intro h
      cases hw : p.write templates piece with
      | error e => rw [hw] at h; exact absurd h (by simp [bind, Except.bind])
      | ok q =>
        rw [hw] at h
        obtain ⟨t, ht, rfl⟩ := write_eq_ok_iff.mp hw
        obtain ⟨record, rfl, rfl, hrec⟩ := ih.mp h
        exact ⟨(piece, t) :: record, rfl, (Progress.after_cons _ _ _).symm,
          placedAll_cons.mpr ⟨ht, hrec⟩⟩
    · rintro ⟨record, hps, rfl, hrec⟩
      obtain ⟨⟨piece', t⟩, record, rfl, rfl, rfl⟩ := List.map_eq_cons_iff.mp hps
      obtain ⟨ht, hrec⟩ := placedAll_cons.mp hrec
      rw [write_eq_ok_iff.mpr ⟨t, ht, rfl⟩]
      exact ih.mpr ⟨record, rfl, Progress.after_cons _ _ _, hrec⟩

/-- Kept code is copied. -/
theorem foldlM_kept {w : List Char} (p : Progress) :
    (w.map Piece.kept).foldlM (Progress.write templates) p =
      .ok ⟨w.reverse ++ p.before, openBrackets p.depth w⟩ := by
  induction w generalizing p with
  | nil => rfl
  | cons d w ih =>
    rw [List.map_cons, List.foldlM_cons]
    refine (ih _).trans ?_
    rw [List.reverse_cons, List.append_assoc]
    rfl

/-- An expansion is the text of a record of right texts. -/
theorem expand_eq_ok_iff {query out : List Char} :
    expand templates query = .ok out ↔
      ∃ record : List (Piece × List Char),
        record.map Prod.fst = pieces query ∧ out = record.flatMap Prod.snd ∧
          PlacedAll templates {} record := by
  unfold expand
  constructor
  · intro h
    cases hf : (pieces query).foldlM (Progress.write templates) {} with
    | error e => rw [hf] at h; exact absurd h (by simp [Except.map])
    | ok p =>
      rw [hf] at h
      obtain ⟨record, hps, rfl, hrec⟩ := foldlM_write_eq_ok_iff.mp hf
      refine ⟨record, hps, ?_, hrec⟩
      rw [← Except.ok.inj h]
      simp [Progress.after]
  · rintro ⟨record, hps, rfl, hrec⟩
    rw [foldlM_write_eq_ok_iff.mpr ⟨record, hps, rfl, hrec⟩]
    simp [Except.map, Progress.after]

/-- The text written for a reference of a query is inert. -/
theorem inert_of_placedAll {query : List Char} {record : List (Piece × List Char)}
    (hps : record.map Prod.fst = pieces query) (hrec : PlacedAll templates {} record)
    {r : Reference} {t : List Char} (h : (.reference r, t) ∈ record) : Inert t := by
  obtain ⟨q, hplaced⟩ := exists_placed_of_mem hrec _ h
  have hr : .reference r ∈ pieces query := by
    rw [← hps]
    exact List.mem_map_of_mem h
  exact inert_substitute (name_isRun_of_mem_pieces hr).2 hplaced

/-! ## 3. The rewriting of a query -/

/-- A query without references in its code falls into single characters and literals. -/
theorem pieces_of_no_reference {query : List Char}
    (h : ∀ t, .code t ∈ Segment.split query → ∀ tail, tail <:+ t → ∀ r rest,
      ¬ Reference.Begins tail r rest) :
    ∀ piece ∈ pieces query, ∀ r, piece ≠ .reference r := by
  rintro piece hp r rfl
  obtain ⟨s, hs, hr⟩ := List.mem_flatMap.mp hp
  cases s with
  | literal t => exact absurd hr (by simp [Piece.ofSegment])
  | code t =>
    rw [Piece.ofSegment, scan_of_no_reference (h t hs)] at hr
    exact absurd hr (by simp)

/-- Without references every piece is written as it stands. -/
theorem placedAll_texts {ps : List Piece} (h : ∀ piece ∈ ps, ∀ r, piece ≠ .reference r)
    (p : Progress) : PlacedAll templates p (ps.map fun piece => (piece, piece.text)) := by
  induction ps generalizing p with
  | nil => exact placedAll_nil p
  | cons piece ps ih =>
    refine placedAll_cons.mpr ⟨?_, ih (fun q hq => h q (List.mem_cons_of_mem piece hq)) _⟩
    cases piece with
    | kept c => rfl
    | literal l => rfl
    | reference r => exact absurd rfl (h _ List.mem_cons_self r)

/-- **Expansion rewrites references and nothing else.**  A query that has an expansion is a row of
factors, and the expansion is the row of the texts for them: characters of code outside references
and whole literals as they stand, and for each reference one text that is not empty, the one its
name stands for at its place.  A query with no reference in its code is its own expansion. -/
theorem expand_rewrites_references (templates : List Template) (query : List Char) :
    (∀ out, expand templates query = .ok out →
      ∃ record : List (Piece × List Char),
        Factored query (record.map Prod.fst) ∧ out = record.flatMap Prod.snd ∧
          PlacedAll templates {} record ∧ ∀ r t, (.reference r, t) ∈ record → t ≠ []) ∧
    ((∀ t, .code t ∈ Segment.split query → ∀ tail, tail <:+ t → ∀ r rest,
      ¬ Reference.Begins tail r rest) → expand templates query = .ok query) := by
  constructor
  · intro out h
    obtain ⟨record, hps, hout, hrec⟩ := expand_eq_ok_iff.mp h
    exact ⟨record, hps ▸ factored_pieces query, hout, hrec,
      fun r t hw => (inert_of_placedAll hps hrec hw).1⟩
  · intro h
    refine expand_eq_ok_iff.mpr ⟨(pieces query).map fun piece => (piece, piece.text), ?_, ?_,
      placedAll_texts (pieces_of_no_reference h) {}⟩
    · rw [List.map_map]
      exact List.map_id _
    · rw [List.flatMap_map]
      exact (pieces_texts query).symm

/-- A reference in the code of a query is replaced, one in a string literal stays. -/
theorem expand_rewrites_references_topk :
    (expand [{ name := "n", current := some ⟨some (.single "5")⟩ }]
        "topk($n, f('$n'))".toList = .ok "topk(5, f('$n'))".toList ∧
      ∃ record : List (Piece × List Char),
        Factored "topk($n, f('$n'))".toList (record.map Prod.fst) ∧
          "topk(5, f('$n'))".toList = record.flatMap Prod.snd ∧
            PlacedAll [{ name := "n", current := some ⟨some (.single "5")⟩ }] {} record ∧
              ∀ r t, (.reference r, t) ∈ record → t ≠ []) ∧
    expand [] "f('$n')".toList = .ok "f('$n')".toList := by
  refine ⟨⟨by decide +kernel, (expand_rewrites_references _ _).1 _ (by decide +kernel)⟩,
    (expand_rewrites_references _ _).2 fun t ht tail htail r rest hb => ?_⟩
  have hsplit : Segment.split "f('$n')".toList =
      [.code "f(".toList, .literal "'$n'".toList, .code ")".toList] := by decide +kernel
  have hread : Reference.read? tail = none := by
    rw [hsplit] at ht
    simp only [List.mem_cons, Segment.code.injEq, List.not_mem_nil, or_false, reduceCtorEq,
      false_or] at ht
    have hnone : ∀ tail ∈ "f(".toList.tails ++ ")".toList.tails,
        Reference.read? tail = none := by decide +kernel
    refine hnone tail (List.mem_append.mpr ?_)
    rcases ht with rfl | rfl
    · exact Or.inl ((List.mem_tails _ _).mpr htail)
    · exact Or.inr ((List.mem_tails _ _).mpr htail)
  exact Reference.read?_eq_none_iff.mp hread r rest hb

end PanelLint.Query
