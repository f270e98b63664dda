import PanelLint.Proofs.Query.Seams
import PanelLint.Proofs.Query.Shadows
/-!
# What string literals say about the code behind them

Nothing in a literal is replaced, but a literal can say something about the places behind it.  Expansion
notices that, and nothing else of a literal.

* `concur_segments`: a run over the same code, between literals that say the same, writes the same code;
* `expand_eq_error_of_codeSegments`: whether a query has an expansion is a matter of its code;
* `expand_sees_verdicts`: both for whole queries, and no two literals that say different things can stand
  for each other everywhere.
-/

namespace PanelLint.Query

open PanelLint.Text PanelLint.Promql

variable {templates : List Template} {l l' t query : List Char} {ps : List Piece}
  {ss ss' : List Segment} {p p' : Progress}

/-! ## 1. Writing behind other literals -/

/-- The code of a segment, if it is no literal. -/
def Segment.code? : Segment → Option (List Char)
  | .code t => some t
  | .literal _ => none

/-- What a segment says about a grouping, if it is a literal. -/
def Segment.verdict : Segment → Option Bool
  | .code _ => none
  | .literal l => Query.verdict l.reverse

theorem eq_code_of_code? {s : Segment} (h : s.code? = some t) : s = .code t := by
  cases s with
  | code u => rw [Option.some.inj h]
  | literal l => cases h

theorem exists_literal_of_code? {s : Segment} (h : s.code? = none) : ∃ l, s = .literal l := by
  cases s with
  | code u => cases h
  | literal l => exact ⟨l, rfl⟩

/-- **The same code has been written behind two texts.** -/
structure Wrote (t : List Char) (p p' q q' : Progress) : Prop where
  code : ∀ c ∈ t, isQuote c = false
  left : q.before = t.reverse ++ p.before
  right : q'.before = t.reverse ++ p'.before
  depth : q'.depth = q.depth

theorem Wrote.shadowed {q q' : Progress} (h : Wrote t p p' q q')
    (hp : Shadowed p.before p'.before) : Shadowed q.before q'.before := by
  rw [h.left, h.right]
  exact hp.append_code fun c hc => h.code c (List.mem_reverse.mp hc)

theorem Wrote.trans {u : List Char} {q q' r r' : Progress} (h : Wrote t p p' q q')
    (h' : Wrote u q q' r r') : Wrote (t ++ u) p p' r r' where
  code c hc := (List.mem_append.mp hc).elim (h.code c) (h'.code c)
  left := by rw [h'.left, h.left, List.reverse_append, List.append_assoc]
  right := by rw [h'.right, h.right, List.reverse_append, List.append_assoc]
  depth := h'.depth

/-- A piece of code is written behind both texts or behind none, and it becomes the same. -/
theorem concur_write_code {piece : Piece} (hpiece : IsCodePiece piece)
    (hname : ∀ r, piece = .reference r → IsRun isWord r.name) (h : Shadowed p.before p'.before)
    (hdepth : p'.depth = p.depth) : Concur (fun q q' => ∃ t, t ≠ [] ∧ Wrote t p p' q q')
      (p.write templates piece) (p'.write templates piece) := by
  cases piece with
  | literal l => exact hpiece.elim
  | kept c =>
    refine Concur.ok ⟨[c], List.cons_ne_nil c [], List.forall_mem_singleton.mpr hpiece, rfl, rfl, ?_⟩
    show bracketDepth p'.depth c = bracketDepth p.depth c
    rw [hdepth]
  | reference r =>
    simp only [Progress.write, hdepth, h.position]
    cases hsub : substitute templates r.name (Position.of p'.before p.depth) with
    | error e => exact Concur.error e e
    | ok t =>
      obtain ⟨hne, hinert⟩ := inert_substitute (hname r rfl).2 hsub
      exact Concur.ok ⟨t, hne, fun c hc => not_isQuote_of_isInert (hinert c hc), rfl, rfl, rfl⟩

/-- **So is a run over code.** -/
theorem concur_code (hps : ∀ piece ∈ ps, IsCodePiece piece)
    (hnames : ∀ r, .reference r ∈ ps → IsRun isWord r.name) (h : Shadowed p.before p'.before)
    (hdepth : p'.depth = p.depth) :
    Concur (fun q q' => ∃ t, (ps ≠ [] → t ≠ []) ∧ Wrote t p p' q q')
      (ps.foldlM (Progress.write templates) p) (ps.foldlM (Progress.write templates) p') := by
  induction ps generalizing p p' with
  | nil => exact Concur.ok ⟨[], fun hne => absurd rfl hne, by simp, rfl, rfl, hdepth⟩
  | cons piece ps ih =>
    obtain ⟨hpiece, hps⟩ := List.forall_mem_cons.mp hps
    have hname : ∀ r, piece = .reference r → IsRun isWord r.name := fun r hr =>
      hnames r (hr ▸ List.mem_cons_self)
    rw [List.foldlM_cons, List.foldlM_cons]
    refine (concur_write_code hpiece hname h hdepth).bind fun q q' ⟨t, hne, hwrote⟩ => ?_
    refine (ih hps (fun r hr => hnames r (List.mem_cons_of_mem _ hr)) (hwrote.shadowed h)
      hwrote.depth).mono fun o o' ⟨u, _, hrest⟩ => ?_
    exact ⟨t ++ u, fun _ => by simp [hne], hwrote.trans hrest⟩

/-! ## 2. Queries with other literals -/

/-- **The code segments of a text**, with a mark for each literal between them. -/
def codeSegments (text : List Char) : List (Option (List Char)) :=
  (Segment.split text).map Segment.code?

/-- What has been written for the segments of two queries: segments with the same code. -/
def WroteSegments (ss ss' : List Segment) (p p' q q' : Progress) : Prop :=
  ∃ us us', List.Forall₂ Segment.Recoded ss us ∧ List.Forall₂ Segment.Recoded ss' us' ∧
    us.map Segment.code? = us'.map Segment.code? ∧
      q.before = (us.flatMap Segment.text).reverse ++ p.before ∧
        q'.before = (us'.flatMap Segment.text).reverse ++ p'.before

/-- Code with the same segments behind it. -/
theorem WroteSegments.cons_code {o o' q q' : Progress} (ht : t ≠ []) (hwrote : Wrote t p p' q q')
    {u : List Char} (h : WroteSegments ss ss' q q' o o') :
    WroteSegments (.code u :: ss) (.code u :: ss') p p' o o' := by
  obtain ⟨us, us', hus, hus', hcode, hleft, hright⟩ := h
  refine ⟨.code t :: us, .code t :: us', .cons (.code ⟨ht, hwrote.code⟩) hus,
    .cons (.code ⟨ht, hwrote.code⟩) hus', ?_, ?_, ?_⟩
  · rw [List.map_cons, List.map_cons, hcode]
  · rw [hleft, hwrote.left, List.flatMap_cons, List.reverse_append, List.append_assoc]
    rfl
  · rw [hright, hwrote.right, List.flatMap_cons, List.reverse_append, List.append_assoc]
    rfl

/-- Literals with the same segments behind them. -/
theorem WroteSegments.cons_literal {o o' : Progress}
    (h : WroteSegments ss ss' ⟨l.reverse ++ p.before, p.depth⟩ ⟨l'.reverse ++ p'.before, p'.depth⟩
      o o') : WroteSegments (.literal l :: ss) (.literal l' :: ss') p p' o o' := by
  obtain ⟨us, us', hus, hus', hcode, hleft, hright⟩ := h
  refine ⟨.literal l :: us, .literal l' :: us', .cons .literal hus, .cons .literal hus', ?_, ?_, ?_⟩
  · rw [List.map_cons, List.map_cons, hcode]
    rfl
  · rw [hleft, List.flatMap_cons, List.reverse_append, List.append_assoc]
    rfl
  · rw [hright, List.flatMap_cons, List.reverse_append, List.append_assoc]
    rfl

theorem wroteSegments_nil : WroteSegments [] [] p p' p p' := ⟨[], [], .nil, .nil, rfl, rfl, rfl⟩

/-- A literal with something behind it is closed. -/
theorem Segmented.isLiteral (h : Segmented (.literal l :: ss)) (hne : ss ≠ []) : IsLiteral l := by
  cases h with
  | literal hq hcloses _ => exact .mk hq hcloses
  | openLiteral _ _ => exact absurd rfl hne

/-- What is asked of all segments but the last is asked of those behind the first. -/
theorem map_dropLast_cons {s s' : Segment} (hcode : ss'.map Segment.code? = ss.map Segment.code?)
    (h : (s :: ss).dropLast.map Segment.verdict = (s' :: ss').dropLast.map Segment.verdict) :
    ss.dropLast.map Segment.verdict = ss'.dropLast.map Segment.verdict ∧
      (ss ≠ [] → s.verdict = s'.verdict) := by
  cases ss with
  | nil =>
    obtain rfl := List.map_eq_nil_iff.mp hcode
    exact ⟨rfl, fun hne => absurd rfl hne⟩
  | cons u ss =>
    obtain ⟨u', ss', rfl, -, -⟩ := List.map_eq_cons_iff.mp hcode
    obtain ⟨hhead, htail⟩ := List.cons.inj h
    exact ⟨htail, fun _ => hhead⟩

/-- **A run over segments with the same code.**  If the literals say the same, those at the end aside,
it succeeds over both or over none, and writes the same code. -/
theorem concur_segments (hs : Segmented ss) (hs' : Segmented ss')
    (hcode : ss'.map Segment.code? = ss.map Segment.code?)
    (hverdict : ss.dropLast.map Segment.verdict = ss'.dropLast.map Segment.verdict)
    (h : Shadowed p.before p'.before) (hdepth : p'.depth = p.depth) :
    Concur (WroteSegments ss ss' p p')
      ((ss.flatMap Piece.ofSegment).foldlM (Progress.write templates) p)
      ((ss'.flatMap Piece.ofSegment).foldlM (Progress.write templates) p') := by
  induction hs generalizing ss' p p' with
  | nil =>
    obtain rfl := List.map_eq_nil_iff.mp hcode
    exact Concur.ok wroteSegments_nil
  | @code t ss ht _ hs ih =>
    obtain ⟨s', ss', rfl, hhead, htail⟩ := List.map_eq_cons_iff.mp hcode
    obtain rfl := eq_code_of_code? hhead
    rw [List.flatMap_cons, List.flatMap_cons, List.foldlM_append, List.foldlM_append]
    have hscan : Piece.scan t ≠ [] := by
      intro hnil
      have htexts := Piece.scan_texts t
      rw [hnil] at htexts
      exact ht.1 htexts.symm
    refine (concur_code (isCodePiece_of_mem_scan ht.2) (fun r => name_isRun_of_mem_scan) h
      hdepth).bind fun q q' ⟨w, hne, hwrote⟩ => ?_
    exact (ih hs'.tail htail (map_dropLast_cons htail hverdict).1 (hwrote.shadowed h)
      hwrote.depth).mono fun _ _ => .cons_code (hne hscan) hwrote
  | @literal quote body ss hq hcloses hs ih =>
    obtain ⟨s', ss', rfl, hhead, htail⟩ := List.map_eq_cons_iff.mp hcode
    obtain ⟨l', rfl⟩ := exists_literal_of_code? hhead
    obtain ⟨hverdict, hsame⟩ := map_dropLast_cons htail hverdict
    refine Concur.mono ?_ fun _ _ => WroteSegments.cons_literal
    by_cases hne : ss = []
    · subst hne
      obtain rfl := List.map_eq_nil_iff.mp htail
      exact Concur.ok wroteSegments_nil
    · have hne' : ss' ≠ [] := by
        rintro rfl
        exact hne (List.map_eq_nil_iff.mp htail.symm)
      exact ih hs'.tail htail hverdict
        (.literal (.mk hq hcloses) (hs'.isLiteral hne') (hsame hne) h) hdepth
  | @openLiteral quote body hq hcloses =>
    obtain ⟨s', ss', rfl, hhead, htail⟩ := List.map_eq_cons_iff.mp hcode
    obtain ⟨l', rfl⟩ := exists_literal_of_code? hhead
    obtain rfl := List.map_eq_nil_iff.mp htail
    exact Concur.ok wroteSegments_nil.cons_literal

/-- References come in the same order in segments with the same code. -/
theorem firstUnresolvable_congr {r : Reference}
    (hcode : ss'.map Segment.code? = ss.map Segment.code?) :
    FirstUnresolvable templates (ss.flatMap Piece.ofSegment) r ↔
      FirstUnresolvable templates (ss'.flatMap Piece.ofSegment) r := by
  have happ : ∀ (front : List Piece) {ps ps' : List Piece},
      (FirstUnresolvable templates ps r ↔ FirstUnresolvable templates ps' r) →
      (FirstUnresolvable templates (front ++ ps) r ↔
        FirstUnresolvable templates (front ++ ps') r) := by
    intro front ps ps' hps
    induction front with
    | nil => exact hps
    | cons piece front ih => simp only [List.cons_append, firstUnresolvable_cons, ih]
  induction ss generalizing ss' with
  | nil =>
    obtain rfl := List.map_eq_nil_iff.mp hcode
    rfl
  | cons s ss ih =>
    obtain ⟨s', ss', rfl, hhead, htail⟩ := List.map_eq_cons_iff.mp hcode
    rw [List.flatMap_cons, List.flatMap_cons]
    cases s with
    | code t =>
      obtain rfl := eq_code_of_code? hhead
      exact happ _ (ih htail)
    | literal l =>
      obtain ⟨l', rfl⟩ := exists_literal_of_code? hhead
      simpa [Piece.ofSegment, firstUnresolvable_cons] using ih htail

/-- **Queries with the same code have an expansion, or fail with the same error.** -/
theorem expand_eq_error_of_codeSegments {query' : List Char} {e : ExpansionError}
    (hcode : codeSegments query = codeSegments query') :
    expand templates query = .error e ↔ expand templates query' = .error e := by
  rw [expand_eq_error_iff, expand_eq_error_iff]
  exact exists_congr fun r => and_congr_left fun _ => firstUnresolvable_congr hcode.symm

/-- **What is written for the code of two queries is the same**, if the literals say the same. -/
theorem codeSegments_of_expand {query' out out' : List Char}
    (hcode : codeSegments query = codeSegments query')
    (hverdict : (Segment.split query).dropLast.map Segment.verdict =
      (Segment.split query').dropLast.map Segment.verdict)
    (hout : expand templates query = .ok out) (hout' : expand templates query' = .ok out') :
    codeSegments out = codeSegments out' := by
  have hs := segmented_split query
  have hs' := segmented_split query'
  have hrun : Concur (WroteSegments (Segment.split query) (Segment.split query') {} {})
      ((pieces query).foldlM (Progress.write templates) {})
      ((pieces query').foldlM (Progress.write templates) {}) :=
    concur_segments hs hs' hcode.symm hverdict .nil rfl
  rw [expand] at hout hout'
  cases hx : (pieces query).foldlM (Progress.write templates) {} with
  | error e =>
    rw [hx] at hout
    cases hout
  | ok q =>
    cases hx' : (pieces query').foldlM (Progress.write templates) {} with
    | error e =>
      rw [hx'] at hout'
      cases hout'
    | ok q' =>
      obtain ⟨us, us', hus, hus', hcodes, hleft, hright⟩ := hrun.related hx hx'
      rw [hx] at hout
      rw [hx'] at hout'
      cases hout
      cases hout'
      show codeSegments q.before.reverse = codeSegments q'.before.reverse
      rw [hleft, hright, codeSegments, codeSegments, List.append_nil, List.append_nil,
        List.reverse_reverse, List.reverse_reverse, (hs.recoded hus).split_eq,
        (hs'.recoded hus').split_eq, hcodes]

/-! ## 3. What literals say is noticed -/

/-- What stands before a literal in the queries that tell literals apart: nothing, or a grouping that is
open. -/
def fronts : List (List Char) := [[], "topk by (".toList]

/-- With code behind it a literal is a segment by itself. -/
theorem exists_codeSegments (front : List Char) (hfront : ∀ c ∈ front, isQuote c = false) :
    ∃ head, ∀ l t, IsLiteral l → IsCode t →
      codeSegments (front ++ (l ++ t)) = head ++ [none, some t] := by
  have hback : ∀ {l t}, IsLiteral l → IsCode t → Segmented [.literal l, .code t] := fun ⟨hq, hc⟩ ht =>
    .literal hq hc (.code ht (by simp) .nil)
  by_cases hne : front = []
  · subst hne
    refine ⟨[], fun l t hl ht => ?_⟩
    rw [show [] ++ (l ++ t) = [Segment.literal l, .code t].flatMap Segment.text by simp [Segment.text],
      codeSegments, (hback hl ht).split_eq]
    rfl
  · refine ⟨[some front], fun l t hl ht => ?_⟩
    have hsegmented : Segmented [.code front, .literal l, .code t] :=
      .code ⟨hne, hfront⟩ (by simp [Segment.isLiteral]) (hback hl ht)
    rw [show front ++ (l ++ t) = [Segment.code front, .literal l, .code t].flatMap Segment.text by
      simp [Segment.text], codeSegments, hsegmented.split_eq]
    rfl

/-- What a variable without a value becomes behind a literal and a parenthesis. -/
def behindLiteral (grouping : Bool) : List Char :=
  if grouping then ") (1".toList else ") (v".toList

theorem isCode_behindLiteral (grouping : Bool) : IsCode (behindLiteral grouping) := by
  cases grouping <;> exact ⟨by decide, not_isQuote_of_all (by decide)⟩

/-- A query with a literal in it that shows whether a grouping is open behind the literal. -/
theorem expand_behind_literal {front : List Char} (hfront : front ∈ fronts) (hl : IsLiteral l) :
    expand [{ name := "v" }] (front ++ (l ++ ") ($v".toList)) =
      .ok (front ++ (l ++ behindLiteral (opensGrouping (l.reverse ++ front.reverse)))) := by
  have hplain : front.all isPlain = true ∧ openBrackets 0 front = 0 := by
    simp only [fronts, List.mem_cons, List.not_mem_nil, or_false] at hfront
    rcases hfront with rfl | rfl <;> exact ⟨by decide, by decide⟩
  have hpieces : pieces (front ++ (l ++ ") ($v".toList)) = front.map .kept ++
      .literal l :: (") (".toList.map .kept ++ [.reference ⟨"$v".toList, "v".toList⟩]) := by
    obtain ⟨hq, hcloses⟩ := hl
    have hback : pieces ") ($v".toList =
        ") (".toList.map .kept ++ [.reference ⟨"$v".toList, "v".toList⟩] := by decide +kernel
    rw [pieces_kept hplain.1, List.cons_append, pieces_of_quote hq, closeLiteral_of_closes _ hcloses,
      hback]
  have hplace : ∀ x, Position.of (") (".toList.reverse ++ x) 0 =
      if opensGrouping x then .scalar else .expression := fun _ => rfl
  have hliteral : ∀ (ps : List Piece) (p : Progress),
      (Piece.literal l :: ps).foldlM (Progress.write [{ name := "v" }]) p =
        ps.foldlM (Progress.write [{ name := "v" }]) ⟨l.reverse ++ p.before, p.depth⟩ := fun _ _ => rfl
  rw [expand, hpieces, List.foldlM_append, foldlM_kept, hplain.2, List.append_nil]
  show Except.map _ (List.foldlM (Progress.write [{ name := "v" }]) ⟨front.reverse, 0⟩ _) = _
  rw [hliteral, List.foldlM_append, foldlM_kept]
  show Except.map _ (List.foldlM (Progress.write [{ name := "v" }])
    ⟨") (".toList.reverse ++ (l.reverse ++ front.reverse), 0⟩ _) = _
  rw [List.foldlM_cons, Progress.write, hplace]
  have hscalar : substitute [{ name := "v" }] "v".toList .scalar = .ok "1".toList := by decide +kernel
  have hexpression : substitute [{ name := "v" }] "v".toList .expression = .ok "v".toList := by
    decide +kernel
  cases opensGrouping (l.reverse ++ front.reverse) with
  | true =>
    rw [if_pos rfl, hscalar]
    show Except.ok _ = Except.ok _
    simp [behindLiteral]
  | false =>
    rw [if_neg Bool.false_ne_true, hexpression]
    show Except.ok _ = Except.ok _
    simp [behindLiteral]

/-- **Literals that say different things are told apart** by a query. -/
theorem exists_front (hl : IsLiteral l) (hl' : IsLiteral l')
    (h : verdict l.reverse ≠ verdict l'.reverse) : ∃ front ∈ fronts,
      opensGrouping (l.reverse ++ front.reverse) ≠ opensGrouping (l'.reverse ++ front.reverse) := by
  simp only [opensGrouping_literal hl, opensGrouping_literal hl']
  by_contra hsame
  simp only [fronts, List.mem_cons, List.not_mem_nil, or_false, exists_eq_or_imp, exists_eq_left,
    not_or, not_not] at hsame
  obtain ⟨hnone, hopen⟩ := hsame
  rw [show opensGrouping "topk by (".toList.reverse = true by decide] at hopen
  rw [show opensGrouping [].reverse = false by rfl] at hnone
  refine h ?_
  generalize verdict l.reverse = v at hnone hopen
  generalize verdict l'.reverse = v' at hnone hopen
  cases v <;> cases v' <;> simp_all

/-- So there are queries with the same code that become different code. -/
theorem exists_query_apart (hl : IsLiteral l) (hl' : IsLiteral l')
    (h : verdict l.reverse ≠ verdict l'.reverse) :
    ∃ (templates : List Template) (front back out out' : List Char),
      codeSegments (front ++ (l ++ back)) = codeSegments (front ++ (l' ++ back)) ∧
      expand templates (front ++ (l ++ back)) = .ok out ∧
      expand templates (front ++ (l' ++ back)) = .ok out' ∧
      codeSegments out ≠ codeSegments out' := by
  obtain ⟨front, hfront, hne⟩ := exists_front hl hl' h
  obtain ⟨head, hhead⟩ := exists_codeSegments front (by
    simp only [fronts, List.mem_cons, List.not_mem_nil, or_false] at hfront
    rcases hfront with rfl | rfl <;> exact not_isQuote_of_all (by decide))
  have hback : IsCode ") ($v".toList := ⟨by decide, not_isQuote_of_all (by decide)⟩
  refine ⟨_, front, ") ($v".toList, _, _, (hhead l _ hl hback).trans (hhead l' _ hl' hback).symm,
    expand_behind_literal hfront hl, expand_behind_literal hfront hl', ?_⟩
  rw [hhead _ _ hl (isCode_behindLiteral _), hhead _ _ hl' (isCode_behindLiteral _)]
  revert hne
  generalize opensGrouping (l.reverse ++ front.reverse) = grouping
  generalize opensGrouping (l'.reverse ++ front.reverse) = grouping'
  intro hne heq
  have htext : behindLiteral grouping = behindLiteral grouping' := by
    simpa using List.append_cancel_left heq
  cases grouping <;> cases grouping' <;> first | exact hne rfl | cases htext

/-- **Of the literals in a query nothing is noticed but what they say about groupings.**  Two queries
with the same code segments, between any literals, both fail with the same error, or both have an
expansion; and the code segments of the expansions are the same if each literal of the one says what
the literal in its place says, the end of the query aside.  More than that cannot be said: two literals
that say different things are told apart by some query. -/
theorem expand_sees_verdicts (templates : List Template) (query query' : List Char)
    (hcode : codeSegments query = codeSegments query') :
    ((∃ e, expand templates query = .error e ∧ expand templates query' = .error e) ∨
      ∃ out out', expand templates query = .ok out ∧ expand templates query' = .ok out' ∧
        ((Segment.split query).dropLast.map Segment.verdict =
            (Segment.split query').dropLast.map Segment.verdict →
          codeSegments out = codeSegments out')) ∧
    ∀ l l' : List Char, IsLiteral l → IsLiteral l' → verdict l.reverse ≠ verdict l'.reverse →
      ∃ (templates : List Template) (front back out out' : List Char),
        codeSegments (front ++ (l ++ back)) = codeSegments (front ++ (l' ++ back)) ∧
        expand templates (front ++ (l ++ back)) = .ok out ∧
        expand templates (front ++ (l' ++ back)) = .ok out' ∧
        codeSegments out ≠ codeSegments out' := by
  refine ⟨?_, fun l l' hl hl' hverdict => ?_⟩
  · cases hout : expand templates query with
    | error e => exact Or.inl ⟨e, rfl, (expand_eq_error_of_codeSegments hcode).mp hout⟩
    | ok out =>
      cases hout' : expand templates query' with
      | error e =>
        rw [(expand_eq_error_of_codeSegments hcode).mpr hout'] at hout
        cases hout
      | ok out' =>
        exact Or.inr ⟨out, out', rfl, rfl, fun hverdict =>
          codeSegments_of_expand hcode hverdict hout hout'⟩
  · exact exists_query_apart hl hl' hverdict

/-- A parenthesis in a literal does not matter by itself, but behind `topk by` it does. -/
theorem expand_sees_verdicts_topk :
    (codeSegments "up\x7ba=\"topk by\"\x7d * on (x) ($v\x7b\x7d)".toList =
        codeSegments "up\x7ba='('\x7d * on (x) ($v\x7b\x7d)".toList ∧
      expand [{ name := "v" }] "up\x7ba=\"topk by\"\x7d * on (x) ($v\x7b\x7d)".toList =
        .ok "up\x7ba=\"topk by\"\x7d * on (x) (v\x7b\x7d)".toList ∧
      ∃ out, expand [{ name := "v" }] "up\x7ba='('\x7d * on (x) ($v\x7b\x7d)".toList = .ok out ∧
        codeSegments out = codeSegments "up\x7ba=\"topk by\"\x7d * on (x) (v\x7b\x7d)".toList) ∧
    verdict "\"topk by (\"".toList.reverse ≠ verdict "\"topk by\"".toList.reverse ∧
      expand [{ name := "v" }] "up\x7ba=\"topk by (\"\x7d * on (x) ($v\x7b\x7d)".toList =
        .ok "up\x7ba=\"topk by (\"\x7d * on (x) (1\x7b\x7d)".toList ∧
      ∃ (templates : List Template) (front back out out' : List Char),
        codeSegments (front ++ ("\"topk by (\"".toList ++ back)) =
          codeSegments (front ++ ("\"topk by\"".toList ++ back)) ∧
        expand templates (front ++ ("\"topk by (\"".toList ++ back)) = .ok out ∧
        expand templates (front ++ ("\"topk by\"".toList ++ back)) = .ok out' ∧
        codeSegments out ≠ codeSegments out' := by
  have hcode : codeSegments "up\x7ba=\"topk by\"\x7d * on (x) ($v\x7b\x7d)".toList =
      codeSegments "up\x7ba='('\x7d * on (x) ($v\x7b\x7d)".toList := by decide +kernel
  have hexpand : expand [{ name := "v" }] "up\x7ba=\"topk by\"\x7d * on (x) ($v\x7b\x7d)".toList =
      .ok "up\x7ba=\"topk by\"\x7d * on (x) (v\x7b\x7d)".toList := by decide +kernel
  have hliteral : IsLiteral "\"topk by (\"".toList :=
    .mk (show isQuote '"' = true by decide)
      (show closes '"' "topk by (\"".toList = true by decide +kernel)
  have hliteral' : IsLiteral "\"topk by\"".toList :=
    .mk (show isQuote '"' = true by decide)
      (show closes '"' "topk by\"".toList = true by decide +kernel)
  have hverdict : verdict "\"topk by (\"".toList.reverse ≠ verdict "\"topk by\"".toList.reverse := by
    decide +kernel
  obtain ⟨halike, happart⟩ := expand_sees_verdicts [{ name := "v" }] _ _ hcode
  refine ⟨⟨hcode, hexpand, ?_⟩, hverdict, by decide +kernel,
    happart _ _ hliteral hliteral' hverdict⟩
  rcases halike with ⟨e, he, -⟩ | ⟨out, out', hout, hout', hcodes⟩
  · exact absurd (hexpand.symm.trans he) (by simp)
  · obtain rfl := Except.ok.inj (hexpand.symm.trans hout)
    exact ⟨out', hout', (hcodes (by decide +kernel)).symm⟩

end PanelLint.Query
