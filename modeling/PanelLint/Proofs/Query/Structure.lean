import PanelLint.Proofs.Query.Rewriting
import PanelLint.Proofs.Query.Segmentation
/-!
# What expansion keeps of the structure of a query

Everything an expansion puts in place of a reference is inert, so it can move neither the border of
a string literal nor that of a bracket.

* `split_of_record`: the segments of the text written so far are those of the query, recoded;
* `depth_after`: the bracket depth that a run carries along is the depth of the text it has written,
  counted anew over the code of that text;
* `expand_keeps_structure`: both, for a whole expansion and for every reference in it.
-/

namespace PanelLint.Query

open PanelLint.Text

/-! ## 1. The code of a text and its brackets -/

/-- The code of segments, without the literals between. -/
def codeOf : List Segment → List Char
  | [] => []
  | .code t :: ss => t ++ codeOf ss
  | .literal _ :: ss => codeOf ss

theorem codeOf_append (ss ss' : List Segment) : codeOf (ss ++ ss') = codeOf ss ++ codeOf ss' := by
  induction ss with
  | nil => rfl
  | cons s ss ih => cases s <;> simp [codeOf, ih]

theorem openBrackets_append (depth : Nat) (a b : List Char) :
    openBrackets depth (a ++ b) = openBrackets (openBrackets depth a) b := List.foldl_append

theorem openBrackets_of_inert {t : List Char} (h : ∀ c ∈ t, isInert c = true) (depth : Nat) :
    openBrackets depth t = depth := by
  induction t with
  | nil => rfl
  | cons c t ih =>
    show openBrackets (bracketDepth depth c) t = depth
    rw [bracketDepth_of_isInert (h c List.mem_cons_self),
      ih fun d hd => h d (List.mem_cons_of_mem c hd)]

/-- A tail of a text with one more character is empty or a tail with that character. -/
theorem exists_suffix_concat_iff {code : List Char} {c : Char} {P : List Char → Prop} :
    (∃ tail, tail <:+ code ++ [c] ∧ P tail) ↔
      P [] ∨ ∃ front, front <:+ code ∧ P (front ++ [c]) := by
  simp only [List.suffix_concat_iff]
  constructor
  · rintro ⟨tail, rfl | ⟨front, rfl, hf⟩, ht⟩
    · exact Or.inl ht
    · exact Or.inr ⟨front, hf, ht⟩
  · rintro (h | ⟨front, hf, h⟩)
    · exact ⟨[], Or.inl rfl, h⟩
    · exact ⟨front ++ [c], Or.inr ⟨front, rfl, hf⟩, h⟩

/-- **Brackets that are open, without counting from the left.**  More than `n` are open just when
some tail of the code opens more than `n` beyond those it closes. -/
theorem lt_openBrackets_iff (code : List Char) (n : Nat) :
    n < openBrackets 0 code ↔
      ∃ tail, tail <:+ code ∧ tail.count ']' + n < tail.count '[' := by
  induction code using List.reverseRecOn generalizing n with
  | nil => simp [openBrackets]
  | append_singleton code c ih =>
    have hlast : openBrackets 0 (code ++ [c]) = bracketDepth (openBrackets 0 code) c := by
      simp [openBrackets]
    rw [hlast, exists_suffix_concat_iff]
    by_cases ho : c = '['
    · subst ho
      cases n with
      | zero =>
        have hempty : ([] : List Char).count ']' + 0 < ([] ++ ['[']).count '[' := by decide
        have hdepth : bracketDepth (openBrackets 0 code) '[' = openBrackets 0 code + 1 := rfl
        exact ⟨fun _ => Or.inr ⟨[], List.nil_suffix, hempty⟩, fun _ => by omega⟩
      | succ n => simpa [bracketDepth, ← Nat.add_assoc] using ih n
    by_cases hc : c = ']'
    · subst hc
      have hdepth : n < bracketDepth (openBrackets 0 code) ']' ↔ n + 1 < openBrackets 0 code := by
        show n < openBrackets 0 code - 1 ↔ _
        omega
      rw [hdepth, ih (n + 1)]
      simp [Nat.add_assoc, Nat.add_comm 1 n]
    · have hdepth : bracketDepth (openBrackets 0 code) c = openBrackets 0 code := by
        simp [bracketDepth, ho, hc]
      rw [hdepth, ih n]
      simp [ho, hc]

/-! ## 2. Code written from a record -/

/-- What a text may be for a piece, whatever the place: the piece itself, or something inert for a
reference. -/
def Faithful : Piece × List Char → Prop
  | (.kept c, t) => t = [c]
  | (.literal l, t) => t = l
  | (.reference _, t) => Inert t

theorem faithful_of_placedAll {templates : List Template} {query : List Char}
    {record : List (Piece × List Char)} (hps : record.map Prod.fst = pieces query)
    (hrec : PlacedAll templates {} record) : ∀ w ∈ record, Faithful w := by
  rintro ⟨piece, t⟩ hw
  obtain ⟨q, hplaced⟩ := exists_placed_of_mem hrec _ hw
  cases piece with
  | kept c => exact hplaced
  | literal l => exact hplaced
  | reference r => exact inert_of_placedAll hps hrec hw

/-- A piece of code: a reference, or a character that is no quote. -/
def IsCodePiece : Piece → Prop
  | .kept c => isQuote c = false
  | .literal _ => False
  | .reference _ => True

theorem isCodePiece_of_mem_scan {t : List Char} (ht : ∀ c ∈ t, isQuote c = false) :
    ∀ p ∈ Piece.scan t, IsCodePiece p := by
  fun_induction Piece.scan t with
  | case1 => exact fun p hp => absurd hp (by simp)
  | case2 c cs r rest h _ ih =>
    intro p hp
    rcases List.mem_cons.mp hp with rfl | hp
    · trivial
    · refine ih (fun d hd => ht d ?_) p hp
      rw [← (Reference.read?_text h).2]
      exact List.mem_append_right _ hd
  | case3 c cs h ih =>
    intro p hp
    rcases List.mem_cons.mp hp with rfl | hp
    · exact ht c List.mem_cons_self
    · exact ih (fun d hd => ht d (List.mem_cons_of_mem c hd)) p hp

variable {record : List (Piece × List Char)}

/-- What is written for pieces of code is code again, with the brackets of what was kept. -/
theorem code_of_record (hcode : ∀ w ∈ record, IsCodePiece w.1) (hf : ∀ w ∈ record, Faithful w) :
    (∀ c ∈ record.flatMap Prod.snd, isQuote c = false) ∧
      (record ≠ [] → record.flatMap Prod.snd ≠ []) ∧
        ∀ depth, openBrackets depth (record.flatMap Prod.snd) =
          openBrackets depth (keptCode (record.map Prod.fst)) := by
  induction record with
  | nil => exact ⟨by simp, fun h => absurd rfl h, fun _ => rfl⟩
  | cons w record ih =>
    obtain ⟨hq, -, hdepth⟩ := ih (fun v hv => hcode v (List.mem_cons_of_mem w hv))
      (fun v hv => hf v (List.mem_cons_of_mem w hv))
    obtain ⟨piece, t⟩ := w
    have hpiece := hcode _ List.mem_cons_self
    have ht := hf _ List.mem_cons_self
    simp only [List.flatMap_cons, List.map_cons, List.mem_append]
    cases piece with
    | literal l => exact hpiece.elim
    | kept c =>
      obtain rfl : t = [c] := ht
      refine ⟨?_, fun _ => by simp, fun depth => hdepth (bracketDepth depth c)⟩
      rintro d (hd | hd)
      · rw [List.mem_singleton.mp hd]
        exact hpiece
      · exact hq d hd
    | reference r =>
      obtain ⟨hne, hinert⟩ : Inert t := ht
      refine ⟨?_, fun _ => by simp [hne], fun depth => ?_⟩
      · rintro d (hd | hd)
        · exact not_isQuote_of_isInert (hinert d hd)
        · exact hq d hd
      · rw [openBrackets_append, openBrackets_of_inert hinert]
        exact hdepth depth

/-! ## 3. Segments written from a record -/

/-- **What is written for whole segments** are these segments, recoded. -/
theorem recoded_of_record {ss : List Segment} (hss : ∀ t, .code t ∈ ss → IsCode t)
    (hps : record.map Prod.fst = ss.flatMap Piece.ofSegment) (hf : ∀ w ∈ record, Faithful w) :
    ∃ ss', List.Forall₂ Segment.Recoded ss ss' ∧
      record.flatMap Prod.snd = ss'.flatMap Segment.text ∧
        ∀ depth, openBrackets depth (codeOf ss') =
          openBrackets depth (keptCode (record.map Prod.fst)) := by
  induction ss generalizing record with
  | nil =>
    obtain rfl := List.map_eq_nil_iff.mp hps
    exact ⟨[], .nil, rfl, fun _ => rfl⟩
  | cons s ss ih =>
    rw [List.flatMap_cons] at hps
    obtain ⟨front, rest, rfl, hfront, hrest⟩ := List.map_eq_append_iff.mp hps
    obtain ⟨ss', hrecoded, htext, hdepth⟩ := ih (fun t ht => hss t (List.mem_cons_of_mem s ht))
      hrest (fun w hw => hf w (List.mem_append_right _ hw))
    have hff : ∀ w ∈ front, Faithful w := fun w hw => hf w (List.mem_append_left _ hw)
    cases s with
    | literal t =>
      obtain ⟨⟨piece, t'⟩, tail, rfl, hpiece, htail⟩ := List.map_eq_cons_iff.mp hfront
      obtain rfl := List.map_eq_nil_iff.mp htail
      obtain rfl : piece = .literal t := hpiece
      obtain rfl : t' = t := hff _ List.mem_cons_self
      exact ⟨.literal t' :: ss', .cons .literal hrecoded, by simp [htext, Segment.text], hdepth⟩
    | code t =>
      have ht : IsCode t := hss t List.mem_cons_self
      have hscan : Piece.scan t = front.map Prod.fst := hfront.symm
      have hcode : ∀ w ∈ front, IsCodePiece w.1 := fun w hw =>
        isCodePiece_of_mem_scan ht.2 w.1 (hscan ▸ List.mem_map_of_mem hw)
      obtain ⟨hq, hne, hopen⟩ := code_of_record hcode hff
      have hfront' : front ≠ [] := by
        rintro rfl
        have htexts := Piece.scan_texts t
        rw [hscan] at htexts
        exact ht.1 htexts.symm
      refine ⟨.code (front.flatMap Prod.snd) :: ss', .cons (.code ⟨hne hfront', hq⟩) hrecoded,
        by simp [htext, Segment.text], fun depth => ?_⟩
      rw [codeOf, openBrackets_append, hopen, hdepth, List.map_append, keptCode_append,
        openBrackets_append]

/-- The segments of a text with code before it, which may be none. -/
theorem pieces_code_append {ss : List Segment} {t : List Char} (ht : ∀ c ∈ t, isQuote c = false)
    (hl : ∀ s ∈ ss.head?, s.isLiteral = true) (hs : Segmented ss) :
    pieces (t ++ ss.flatMap Segment.text) = Piece.scan t ++ ss.flatMap Piece.ofSegment := by
  cases t with
  | nil => rw [List.nil_append, pieces, hs.split_eq, Piece.scan_nil, List.nil_append]
  | cons c t =>
    have heq := (Segmented.code ⟨List.cons_ne_nil c t, ht⟩ hl hs).split_eq
    rw [List.flatMap_cons, Segment.text] at heq
    rw [pieces, heq, List.flatMap_cons, Piece.ofSegment]

/-- A reference among the pieces of a query stands in one of its code segments. -/
theorem exists_segment_of_pieces {ss : List Segment} {pre post : List Piece} {r : Reference}
    (h : ss.flatMap Piece.ofSegment = pre ++ .reference r :: post) :
    ∃ front t rest inner outer, ss = front ++ .code t :: rest ∧
      Piece.scan t = inner ++ .reference r :: outer ∧
        pre = front.flatMap Piece.ofSegment ++ inner := by
  induction ss generalizing pre with
  | nil => exact absurd h (by simp)
  | cons s ss ih =>
    rw [List.flatMap_cons] at h
    rcases List.append_eq_append_iff.mp h with ⟨mid, hpre, hmid⟩ | ⟨mid, hs, hmid⟩
    · obtain ⟨front, t, rest, inner, outer, rfl, hscan, rfl⟩ := ih hmid
      exact ⟨s :: front, t, rest, inner, outer, rfl, hscan, by simp [hpre]⟩
    · cases mid with
      | nil =>
        obtain ⟨front, t, rest, inner, outer, rfl, hscan, hnil⟩ := @ih [] hmid.symm
        exact ⟨s :: front, t, rest, inner, outer, rfl, hscan, by
          simp only [List.flatMap_cons, List.append_assoc, ← hnil]
          simpa using hs.symm⟩
      | cons q mid =>
        obtain ⟨rfl, rfl⟩ := List.cons.inj hmid
        cases s with
        | literal l =>
          cases pre with
          | nil => exact absurd hs (by simp [Piece.ofSegment])
          | cons p pre => exact absurd hs (by simp [Piece.ofSegment])
        | code t => exact ⟨[], t, ss, pre, mid, rfl, hs, rfl⟩

/-- The segments of an expansion are those of the query, recoded. -/
theorem split_of_record {query : List Char} (hps : record.map Prod.fst = pieces query)
    (hf : ∀ w ∈ record, Faithful w) :
    List.Forall₂ Segment.Recoded (Segment.split query)
      (Segment.split (record.flatMap Prod.snd)) := by
  have hsegmented := segmented_split query
  obtain ⟨ss', hrecoded, htext, -⟩ :=
    recoded_of_record (fun t ht => hsegmented.isCode_of_mem ht) hps hf
  rw [htext, (hsegmented.recoded hrecoded).split_eq]
  exact hrecoded

/-- **The depth carried along is the depth of what has been written**, at every reference. -/
theorem depth_after {query : List Char} {pre post : List (Piece × List Char)} {r : Reference}
    {t : List Char} (hps : (pre ++ (.reference r, t) :: post).map Prod.fst = pieces query)
    (hf : ∀ w ∈ pre, Faithful w) :
    openBrackets 0 (codeOf (Segment.split (pre.flatMap Prod.snd))) =
      openBrackets 0 (keptCode (pre.map Prod.fst)) := by
  rw [List.map_append, List.map_cons] at hps
  obtain ⟨front, code, rest, inner, outer, hss, hscan, hpre⟩ :=
    exists_segment_of_pieces hps.symm
  obtain ⟨first, last, rfl, hfirst, hlast⟩ := List.map_eq_append_iff.mp hpre
  have hsegmented := segmented_split query
  rw [hss] at hsegmented
  have hcode : IsCode code := hsegmented.isCode_of_mem (by simp)
  obtain ⟨ss', hrecoded, htext, hdepth⟩ := recoded_of_record
    (fun u hu => hsegmented.of_append.1.isCode_of_mem hu) hfirst
    (fun w hw => hf w (List.mem_append_left _ hw))
  have hlastCode : ∀ w ∈ last, IsCodePiece w.1 := fun w hw =>
    isCodePiece_of_mem_scan hcode.2 w.1 (by
      rw [hscan, ← hlast]
      exact List.mem_append_left _ (List.mem_map_of_mem hw))
  obtain ⟨hq, hne, hopen⟩ :=
    code_of_record hlastCode (fun w hw => hf w (List.mem_append_right _ hw))
  have hmoved : Segmented (ss' ++ .code code :: rest) := hsegmented.recoded
    (List.rel_append hrecoded (List.Forall₂.cons (.code hcode) (forall₂_recoded_self fun u hu =>
      hsegmented.of_append.2.isCode_of_mem (List.mem_cons_of_mem _ hu))))
  rw [List.flatMap_append, htext, List.map_append, keptCode_append, openBrackets_append,
    ← hdepth, ← hopen]
  by_cases hnil : last = []
  · subst hnil
    rw [List.flatMap_nil, List.append_nil, hmoved.of_append.1.split_eq]
    rfl
  · have hlastText : Segmented (ss' ++ [.code (last.flatMap Prod.snd)]) :=
      hmoved.append_code ⟨hne hnil, hq⟩
    have heq := hlastText.split_eq
    rw [List.flatMap_append, List.flatMap_singleton, Segment.text] at heq
    rw [heq, codeOf_append, openBrackets_append]
    simp [codeOf]

/-! ## 4. The structure of an expansion -/

/-- What does not change of a segment: its kind and, for a literal, its text. -/
def Segment.outline : Segment → Option (List Char)
  | .code _ => none
  | .literal t => some t

theorem map_outline_of_recoded {ss ss' : List Segment}
    (h : List.Forall₂ Segment.Recoded ss ss') :
    ss'.map Segment.outline = ss.map Segment.outline := by
  induction h with
  | nil => rfl
  | cons hs _ ih =>
    rw [List.map_cons, List.map_cons, ih]
    cases hs <;> rfl

/-- A reference is in a range just when a bracket is open. -/
theorem position_eq_range_iff (before : List Char) (depth : Nat) :
    Position.of before depth = .range ↔ 0 < depth := by
  unfold Position.of
  constructor
  · intro h
    by_contra hd
    rw [if_neg hd] at h
    split at h
    · exact absurd h (by simp)
    · split at h <;> exact absurd h (by simp)
  · intro h
    rw [if_pos h]

/-- **Expansion keeps the structure of a query.**  Its segments stay in number, kind and order, and
each literal stays as it is.  At each reference, the depth that decides on its position is the depth
of the code written so far, counted anew; and the position is a range just when some tail of that
code opens more square brackets than it closes. -/
theorem expand_keeps_structure (templates : List Template) (query out : List Char)
    (h : expand templates query = .ok out) :
    (Segment.split out).map Segment.outline = (Segment.split query).map Segment.outline ∧
    ∀ pre r post, pieces query = pre ++ .reference r :: post →
      ∃ (p : Progress) (t rest : List Char),
        pre.foldlM (Progress.write templates) {} = .ok p ∧
        substitute templates r.name (Position.of p.before p.depth) = .ok t ∧
        out = p.before.reverse ++ t ++ rest ∧
        p.depth = openBrackets 0 (codeOf (Segment.split p.before.reverse)) ∧
        (Position.of p.before p.depth = .range ↔
          ∃ tail, tail <:+ codeOf (Segment.split p.before.reverse) ∧
            tail.count ']' < tail.count '[') := by
  obtain ⟨record, hps, rfl, hrec⟩ := expand_eq_ok_iff.mp h
  have hf := faithful_of_placedAll hps hrec
  refine ⟨map_outline_of_recoded (split_of_record hps hf), ?_⟩
  intro pre r post hpieces
  obtain ⟨front, tail, rfl, hfront, htail⟩ := List.map_eq_append_iff.mp (hps.trans hpieces)
  obtain ⟨⟨piece, t⟩, rest, rfl, hpiece, -⟩ := List.map_eq_cons_iff.mp htail
  obtain rfl : piece = .reference r := hpiece
  have hdepth := depth_after hps (fun w hw => hf w (List.mem_append_left _ hw))
  refine ⟨Progress.after {} front, t, rest.flatMap Prod.snd, ?_, hrec front _ rest rfl, ?_, ?_, ?_⟩
  · exact foldlM_write_eq_ok_iff.mpr ⟨front, hfront, rfl, fun a w b hab =>
      hrec a w (b ++ (.reference r, t) :: rest) (by simp [hab])⟩
  · simp [Progress.after]
  · simpa [Progress.after] using hdepth.symm
  · rw [position_eq_range_iff]
    have hlt := lt_openBrackets_iff (codeOf (Segment.split (front.flatMap Prod.snd))) 0
    rw [hdepth] at hlt
    simpa [Progress.after] using hlt

/-- The brackets of `[[v]]` do not count: its reference stands behind one open bracket. -/
theorem expand_keeps_structure_nested :
    expand [{ name := "v", current := some ⟨some (.single "7m")⟩ }] "x[[[v]]]".toList =
      .ok "x[7m]".toList ∧
    (Segment.split "x[7m]".toList).map Segment.outline =
      (Segment.split "x[[[v]]]".toList).map Segment.outline ∧
    pieces "x[[[v]]]".toList =
      [.kept 'x', .kept '['] ++ .reference ⟨"[[v]]".toList, "v".toList⟩ :: [.kept ']'] ∧
    ∃ (p : Progress) (t rest : List Char),
      [.kept 'x', .kept '['].foldlM
        (Progress.write [{ name := "v", current := some ⟨some (.single "7m")⟩ }]) {} = .ok p ∧
      substitute [{ name := "v", current := some ⟨some (.single "7m")⟩ }] "v".toList
        (Position.of p.before p.depth) = .ok t ∧
      "x[7m]".toList = p.before.reverse ++ t ++ rest ∧
      p.depth = openBrackets 0 (codeOf (Segment.split p.before.reverse)) ∧
      (Position.of p.before p.depth = .range ↔
        ∃ tail, tail <:+ codeOf (Segment.split p.before.reverse) ∧
          tail.count ']' < tail.count '[') := by
  have hpieces : pieces "x[[[v]]]".toList =
      [.kept 'x', .kept '['] ++ .reference ⟨"[[v]]".toList, "v".toList⟩ :: [.kept ']'] := by
    decide +kernel
  have hexpand : expand [{ name := "v", current := some ⟨some (.single "7m")⟩ }]
      "x[[[v]]]".toList = .ok "x[7m]".toList := by decide +kernel
  obtain ⟨hsegments, hreferences⟩ := expand_keeps_structure _ _ _ hexpand
  exact ⟨hexpand, hsegments, hpieces, hreferences _ _ _ hpieces⟩

end PanelLint.Query
