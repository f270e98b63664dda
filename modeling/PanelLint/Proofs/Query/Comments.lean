import PanelLint.Proofs.Query.Atoms
import PanelLint.Proofs.Query.Idle
/-!
# Comments above a query

A comment is nothing to the lexer of PromQL, which skips the rest of its line.  Expansion knows no
comments and reads one as it reads the query: a quote in it opens a literal, a reference in it needs
a meaning, and a bracket or a function name at its end gives the references below it other places.

* `exists_comment_of_atoms`: what is written of a comment is a comment again;
* `atoms_of_keepsPlaces`: references that keep their places below a comment become what they become
  without it;
* `standsAside_of_endsIdle`: they keep them below a line with nothing begun at its end;
* `parse_below_comment`: a comment that stands aside of the query below it does not matter;
* `comments_matter`: others do.
-/

namespace PanelLint.Query

open PanelLint.Text PanelLint.Promql PanelLint.Promql.Lexer

variable {templates : List Template} {query : List Char} {ps qs front back : List Piece}
  {piece : Piece} {record : List (Piece × List Char)} {c : List Char} {p : Progress}

/-! ## 1. What is written of a comment -/

/-- A line with a comment. -/
def comment (c : List Char) : List Char := '#' :: (c ++ ['\n'])

/-- **An atom of a query with what is written for it**: a character as it is, and for a reference
what it stands for somewhere. -/
inductive IsAtom (templates : List Template) (query : List Char) : Piece × List Char → Prop
  | kept (d : Char) : IsAtom templates query (.kept d, [d])
  | reference {r : Reference} {t : List Char} {q : Position} : .reference r ∈ pieces query →
      substitute templates r.name q = .ok t → IsAtom templates query (.reference r, t)

/-- The atoms of a record of a query. -/
theorem isAtom_of_record (hps : ∀ w ∈ record, w.1 ∈ pieces query)
    (hplaced : ∀ w ∈ record, ∃ q, Placed templates q w) : ∀ w ∈ record.flatMap atomize,
      IsAtom templates query w := by
  rintro ⟨piece, t⟩ hw
  cases piece with
  | kept d =>
    rw [kept_of_mem_atomize hplaced hw]
    exact .kept d
  | literal l => exact absurd hw not_literal_of_mem_atomize
  | reference r =>
    obtain ⟨xs, ys, hsplit⟩ := List.append_of_mem hw
    obtain ⟨front, back, hrecord, -⟩ := exists_record_of_atomize hsplit
    have hmem : (.reference r, t) ∈ record := by simp [hrecord]
    obtain ⟨q, hq⟩ := hplaced _ hmem
    exact .reference (hps _ hmem) hq

/-- What is written for atoms without line breaks has none. -/
theorem not_isBreak_of_atoms (h : ∀ w ∈ record, IsAtom templates query w)
    (hbreak : ∀ d ∈ (record.map Prod.fst).flatMap Piece.text, isBreak d = false) :
    ∀ d ∈ record.flatMap Prod.snd, isBreak d = false := by
  intro d hd
  obtain ⟨⟨piece, t⟩, hw, hd⟩ := List.mem_flatMap.mp hd
  cases h _ hw with
  | kept e => exact hbreak d (List.mem_flatMap.mpr ⟨.kept e, List.mem_map_of_mem hw, hd⟩)
  | reference hr ht =>
    exact not_isBreak_of_isValueChar
      ((isValue_substitute (name_isRun_of_mem_pieces hr).2 ht).2 d hd)

/-- **What is written of a comment is a comment.** -/
theorem exists_comment_of_atoms (h : ∀ w ∈ record, IsAtom templates query w)
    (hline : (record.map Prod.fst).flatMap Piece.text = comment c)
    (hc : ∀ d ∈ c, isBreak d = false) :
    ∃ c', record.flatMap Prod.snd = comment c' ∧ ∀ d ∈ c', isBreak d = false := by
  cases record with
  | nil => cases hline
  | cons mark rest =>
    obtain ⟨hmark, hrest⟩ := List.forall_mem_cons.mp h
    cases hmark with
    | reference hr _ =>
      obtain ⟨_, _, hbegins⟩ := begins_of_mem_pieces hr
      cases hbegins <;> exact absurd (List.cons.inj hline).1 (by decide)
    | kept d =>
      obtain rfl := (List.cons.inj hline).1
      have hbody : (rest.map Prod.fst).flatMap Piece.text = c ++ ['\n'] := (List.cons.inj hline).2
      obtain rfl | ⟨front, last, rfl⟩ := List.eq_nil_or_concat rest
      · exact absurd hbody (by simp)
      rw [List.concat_eq_append] at hrest hbody ⊢
      rw [List.map_append, List.flatMap_append, List.map_singleton, List.flatMap_singleton] at hbody
      cases hrest last (by simp) with
      | reference hr _ =>
        -- no reference ends with the line
        obtain ⟨_, _, hbegins⟩ := begins_of_mem_pieces hr
        obtain ⟨d, hd, hopens⟩ := last_of_begins hbegins
        have hlast := congrArg List.getLast? hbody
        rw [List.getLast?_append, List.getLast?_concat, Piece.text, hd] at hlast
        obtain rfl := Option.some.inj hlast
        exact absurd hopens (by decide)
      | kept d =>
        obtain ⟨hfront, hd⟩ := List.append_inj' hbody rfl
        obtain rfl := (List.cons.inj hd).1
        refine ⟨front.flatMap Prod.snd, by simp [comment], ?_⟩
        exact not_isBreak_of_atoms (fun w hw => hrest w (List.mem_append_left _ hw)) (hfront ▸ hc)

/-! ## 2. Comments that the lexer skips -/

/-- **A comment above a text is no token of it.** -/
theorem tokens_comment (hc : ∀ d ∈ c, isBreak d = false) (text : List Char) :
    tokens (comment c ++ text) = tokens text := by
  have hrest : dropComment (c ++ ['\n'] ++ text) = '\n' :: text := by
    rw [List.append_assoc, dropComment_append hc]
    rfl
  have hcomment : step {} '#' (c ++ ['\n'] ++ text) = .ok (none, {}, '\n' :: text) := by
    rw [← hrest]
    rfl
  have hrun : Lexer.Run {} (comment c ++ text) [] {} text :=
    Run.step hcomment (Run.step (step_blank (by decide)) Run.done)
  rw [tokens, hrun.tokensFrom_eq]
  cases htokens : tokensFrom {} text with
  | error e => rw [tokens, htokens]; rfl
  | ok ts => rw [tokens, htokens]; rfl

theorem parse_comment (hc : ∀ d ∈ c, isBreak d = false) (text : List Char) :
    Promql.parse (comment c ++ text) = Promql.parse text := by
  rw [Promql.parse, Promql.parse, tokens_comment hc]

/-! ## 3. The references below a comment -/

/-- **The references of a query keep their places below a comment**: at each one that is not of
Grafana's own, the position is what it is without the comment. -/
def KeepsPlaces (templates : List Template) (c query : List Char) : Prop :=
  ∀ r front p back front' p' back', ComesTo templates (comment c ++ query) front p r back →
    ComesTo templates query front' p' r back' →
      front.flatMap Piece.text = comment c ++ front'.flatMap Piece.text →
        ¬ globalPrefix <+: r.name →
          Position.of p.before p.depth = Position.of p'.before p'.depth

/-- Nothing is asked of a query without references. -/
theorem keepsPlaces_of_no_reference (h : ∀ r, .reference r ∉ pieces query) :
    KeepsPlaces templates c query := by
  intro r _ _ _ front' _ back' _ hquery
  exact absurd (by rw [hquery.pieces]; simp) (h r)

/-- Lists of pairs with the same first parts are the same if they never part ways. -/
theorem eq_of_fronts {α β : Type} {l l' : List (α × β)} (hfst : l.map Prod.fst = l'.map Prod.fst)
    (h : ∀ front w back w' back', l = front ++ w :: back → l' = front ++ w' :: back' →
      w.1 = w'.1 → w = w') : l = l' := by
  induction l generalizing l' with
  | nil => exact (List.map_eq_nil_iff.mp hfst.symm).symm
  | cons w l ih =>
    obtain ⟨w', l', rfl, hw, hl⟩ := List.map_eq_cons_iff.mp hfst.symm
    obtain rfl := h [] w l w' l' rfl rfl hw.symm
    refine congrArg (w :: ·) (ih hl.symm fun front v back v' back' hv hv' heq => ?_)
    exact h (w :: front) v back v' back' (by rw [hv]; rfl) (by rw [hv']; rfl) heq

/-- A run that comes to an entry of its record. -/
theorem comesTo_of_record {r : Reference} {t : List Char} {front back : List (Piece × List Char)}
    (hps : (front ++ (.reference r, t) :: back).map Prod.fst = pieces query)
    (hrec : PlacedAll templates {} (front ++ (.reference r, t) :: back)) :
    ComesTo templates query (front.map Prod.fst) (({} : Progress).after front) r
      (back.map Prod.fst) where
  pieces := by
    rw [← hps]
    simp
  written := foldlM_write_eq_ok_iff.mpr ⟨front, rfl, rfl, placedAll_of_append hrec⟩

/-- **Below a comment that they keep their places under, references become what they become without
it.** -/
theorem atoms_of_keepsPlaces {recW recQ recL recM : List (Piece × List Char)}
    (hplaces : KeepsPlaces templates c query)
    (hpsW : recW.map Prod.fst = pieces (comment c ++ query)) (hW : PlacedAll templates {} recW)
    (hpsQ : recQ.map Prod.fst = pieces query) (hQ : PlacedAll templates {} recQ)
    (hsplit : recW.flatMap atomize = recL ++ recM)
    (hline : (recL.map Prod.fst).flatMap Piece.text = comment c)
    (hrest : recM.map Prod.fst = (recQ.flatMap atomize).map Prod.fst) :
    recM = recQ.flatMap atomize := by
  have htexts : ∀ record : List (Piece × List Char), (record.map Prod.fst).flatMap Piece.text =
      ((record.flatMap atomize).map Prod.fst).flatMap Piece.text := fun record => by
    rw [map_fst_atomize, texts_atoms]
  refine eq_of_fronts hrest ?_
  rintro front ⟨piece, t⟩ back ⟨piece', t'⟩ back' hM hM' rfl
  rw [hM, ← List.append_assoc] at hsplit
  have hmem : (piece, t) ∈ recW.flatMap atomize := by simp [hsplit]
  have hmem' : (piece, t') ∈ recQ.flatMap atomize := by simp [hM']
  cases piece with
  | kept d =>
    rw [kept_of_mem_atomize (exists_placed_of_mem hW) hmem,
      kept_of_mem_atomize (exists_placed_of_mem hQ) hmem']
  | literal l => exact absurd hmem not_literal_of_mem_atomize
  | reference r =>
    obtain ⟨frontW, backW, rfl, hfrontW⟩ := exists_record_of_atomize hsplit
    obtain ⟨frontQ, backQ, rfl, hfrontQ⟩ := exists_record_of_atomize hM'
    have ht := hW frontW _ backW rfl
    have ht' := hQ frontQ _ backQ rfl
    have heq : substitute templates r.name (Position.of (({} : Progress).after frontW).before
        (({} : Progress).after frontW).depth) = .ok t' := by
      by_cases hglobal : globalPrefix <+: r.name
      · exact (substitute_of_global (List.isPrefixOf_iff_prefix.mpr hglobal) _ _).trans ht'
      · have hfronts : (frontW.map Prod.fst).flatMap Piece.text =
            comment c ++ (frontQ.map Prod.fst).flatMap Piece.text := by
          rw [htexts frontW, htexts frontQ, hfrontW, hfrontQ, List.map_append, List.flatMap_append,
            hline]
        rw [hplaces r _ _ _ _ _ _ (comesTo_of_record hpsW hW) (comesTo_of_record hpsQ hQ) hfronts
          hglobal]
        exact ht'
    rw [Except.ok.inj (ht.symm.trans heq)]

/-! ## 4. Queries below a comment -/

/-- **A comment that stands aside of the query below it.**  Behind its line there are the references
of the query alone, whatever literals the comment leaves open; what its own references stand for is
known; and those of the query keep their places. -/
structure StandsAside (templates : List Template) (c query : List Char) : Prop where
  tokens : ∃ ps, atoms (comment c ++ query) = ps ++ atoms query ∧
    ∀ r, .reference r ∈ ps → Resolvable templates r.name
  places : KeepsPlaces templates c query

/-- The first reference without a meaning is the same one with the comment. -/
theorem expand_error_below_comment {e : ExpansionError}
    (hatoms : atoms (comment c ++ query) = ps ++ atoms query)
    (hresolved : ∀ r, .reference r ∈ ps → Resolvable templates r.name)
    (h : expand templates query = .error e) :
    expand templates (comment c ++ query) = .error e := by
  obtain ⟨r, ⟨pre, post, hps, hpre, hr⟩, rfl⟩ := expand_eq_error_iff.mp h
  have hsplit : (pieces (comment c ++ query)).flatMap Piece.atoms =
      (ps ++ pre.flatMap Piece.atoms) ++ .reference r :: post.flatMap Piece.atoms := by
    rw [show (pieces (comment c ++ query)).flatMap _ = _ from hatoms, atoms, hps,
      List.flatMap_append, List.append_assoc]
    rfl
  obtain ⟨front, back, hwhole, hfront⟩ := exists_pieces_of_atoms hsplit
  refine expand_eq_error_iff.mpr ⟨r, ⟨front, back, hwhole, fun r' hr' => ?_, hr⟩, rfl⟩
  rw [← reference_mem_atoms_iff, hfront, List.mem_append, reference_mem_atoms_iff] at hr'
  exact hr'.elim (hresolved r') (hpre r')

/-- What is written of the query is written below what is written of the comment. -/
theorem written_below_comment {recW recQ : List (Piece × List Char)}
    (hatoms : atoms (comment c ++ query) = ps ++ atoms query)
    (hpsW : recW.map Prod.fst = pieces (comment c ++ query)) (hW : PlacedAll templates {} recW)
    (hpsQ : recQ.map Prod.fst = pieces query) (hQ : PlacedAll templates {} recQ)
    (hplaces : KeepsPlaces templates c query) (hc : ∀ d ∈ c, isBreak d = false) :
    ∃ c', (∀ d ∈ c', isBreak d = false) ∧
      recW.flatMap Prod.snd = comment c' ++ recQ.flatMap Prod.snd := by
  have hfst : (recW.flatMap atomize).map Prod.fst =
      ps ++ (recQ.flatMap atomize).map Prod.fst := by
    rw [map_fst_atomize, map_fst_atomize, hpsW, hpsQ]
    exact hatoms
  obtain ⟨recL, recM, hsplit, hL, hM⟩ := List.map_eq_append_iff.mp hfst
  have hline : (recL.map Prod.fst).flatMap Piece.text = comment c := by
    have htexts := congrArg (List.flatMap Piece.text) hatoms
    rw [List.flatMap_append, atoms, atoms, texts_atoms, texts_atoms, pieces_texts,
      pieces_texts] at htexts
    rw [hL]
    exact (List.append_cancel_right htexts).symm
  have hatom := isAtom_of_record (fun w hw => hpsW ▸ List.mem_map_of_mem hw)
    (exists_placed_of_mem hW)
  obtain ⟨c', hc', hbreak⟩ := exists_comment_of_atoms
    (fun w hw => hatom w (hsplit ▸ List.mem_append_left _ hw)) hline hc
  refine ⟨c', hbreak, ?_⟩
  rw [← written_atomize (exists_placed_of_mem hW), ← written_atomize (exists_placed_of_mem hQ),
    hsplit, atoms_of_keepsPlaces hplaces hpsW hW hpsQ hQ hsplit hline hM, List.flatMap_append, hc']

/-- **Below a comment that stands aside a query has the expansion that it has alone**, behind a
comment. -/
theorem expand_below_comment (hc : ∀ d ∈ c, isBreak d = false) (h : StandsAside templates c query) :
    ∃ c', (∀ d ∈ c', isBreak d = false) ∧
      expand templates (comment c ++ query) = (expand templates query).map (comment c' ++ ·) := by
  obtain ⟨ps, hatoms, hresolved⟩ := h.tokens
  cases hquery : expand templates query with
  | error e => exact ⟨[], by simp, expand_error_below_comment hatoms hresolved hquery⟩
  | ok out =>
    obtain ⟨whole, hwhole⟩ : ∃ whole, expand templates (comment c ++ query) = .ok whole := by
      refine exists_expand_eq_ok_iff.mpr fun r hr => ?_
      rw [← reference_mem_atoms_iff, show (pieces (comment c ++ query)).flatMap _ = _ from hatoms,
        List.mem_append, atoms, reference_mem_atoms_iff] at hr
      exact hr.elim (hresolved r) (exists_expand_eq_ok_iff.mp ⟨out, hquery⟩ r)
    obtain ⟨recW, hpsW, rfl, hW⟩ := expand_eq_ok_iff.mp hwhole
    obtain ⟨recQ, hpsQ, rfl, hQ⟩ := expand_eq_ok_iff.mp hquery
    obtain ⟨c', hc', hwritten⟩ := written_below_comment hatoms hpsW hW hpsQ hQ h.places hc
    exact ⟨c', hc', by rw [hwhole, hwritten]; rfl⟩

/-! ## 5. Comments with nothing begun at their end -/

/-- **Pieces with nothing begun at their end**: no bracket is open and the text is idle. -/
def EndsIdle (templates : List Template) (ps : List Piece) : Prop :=
  ∀ p, ps.foldlM (Progress.write templates) {} = .ok p → p.depth = 0 ∧ isIdle p.before = true

/-- **Behind an idle line references keep their places.** -/
theorem keepsPlaces_of_endsIdle (h : EndsIdle templates ps)
    (hps : pieces (comment c ++ query) = ps ++ pieces query)
    (hline : ps.flatMap Piece.text = comment c)
    (hp : ps.foldlM (Progress.write templates) {} = .ok p)
    (hbefore : ∃ line, p.before = '\n' :: line) : KeepsPlaces templates c query := by
  obtain ⟨line, hbefore⟩ := hbefore
  obtain ⟨hdepth, hidle⟩ := h p hp
  rw [hbefore] at hidle
  intro r front q back front' q' back' hq hq' htexts _
  have hsplit : pieces (comment c ++ query) = (ps ++ front') ++ .reference r :: back' := by
    rw [hps, hq'.pieces, List.append_assoc]
  have hfront : front = ps ++ front' := by
    refine front_eq_of_texts hq.pieces hsplit ?_
    rw [htexts, List.flatMap_append, hline]
  have hstart : p = ⟨({} : Progress).before ++ '\n' :: line, ({} : Progress).depth⟩ := by
    rw [← hdepth, List.nil_append, ← hbefore]
  have hwritten := hq.written
  rw [hfront, List.foldlM_append, hp] at hwritten
  replace hwritten : front'.foldlM (Progress.write templates) p = .ok q := hwritten
  rw [hstart, foldlM_behind (by decide) hidle, hq'.written] at hwritten
  rw [← Except.ok.inj hwritten]
  exact (position_behind_iff (by decide)).mp hidle _ _

/-- **A comment stands aside if nothing goes on behind its line**: no literal and no reference runs
over its end, no bracket is open there, and the line is idle. -/
theorem standsAside_of_endsIdle (hc : ∀ d ∈ c, isBreak d = false)
    (hps : pieces (comment c ++ query) = ps ++ qs) (hline : ps.flatMap Piece.text = comment c)
    (hresolved : ∀ r, .reference r ∈ ps → Resolvable templates r.name)
    (hidle : EndsIdle templates ps) : StandsAside templates c query := by
  obtain rfl := pieces_eq_of_append hps hline
  refine ⟨⟨ps.flatMap Piece.atoms, ?_, fun r hr => hresolved r (reference_mem_atoms_iff.mp hr)⟩, ?_⟩
  · rw [atoms, hps, List.flatMap_append]
    rfl
  · cases hp : ps.foldlM (Progress.write templates) {} with
    | error e =>
      obtain ⟨r, ⟨pre, post, rfl, -, hr⟩, -⟩ := foldlM_write_eq_error_iff.mp hp
      exact absurd (hresolved r (by simp)) hr
    | ok p =>
      refine keepsPlaces_of_endsIdle hidle hps hline hp ?_
      obtain ⟨record, rfl, rfl, hrec⟩ := foldlM_write_eq_ok_iff.mp hp
      have hplaced := exists_placed_of_mem hrec
      have hatom := isAtom_of_record (fun w hw => by
        rw [hps]
        exact List.mem_append_left _ (List.mem_map_of_mem hw)) hplaced
      rw [← texts_atoms, ← map_fst_atomize] at hline
      obtain ⟨c', hc', -⟩ := exists_comment_of_atoms hatom hline hc
      rw [written_atomize hplaced] at hc'
      exact ⟨('#' :: c').reverse, by simp [Progress.after, hc', comment]⟩

/-! ## 6. What comments do -/

/-- **A comment that stands aside does not matter**: the query below it has the same expression, or
fails in the same way. -/
theorem parse_below_comment (templates : List Template) (c query : List Char)
    (hc : ∀ d ∈ c, isBreak d = false) (h : StandsAside templates c query) :
    parse templates (comment c ++ query) = parse templates query := by
  obtain ⟨c', hc', hexpand⟩ := expand_below_comment hc h
  rw [parse, parse, hexpand]
  cases expand templates query with
  | error e => rfl
  | ok out =>
    simp only [Except.map]
    rw [parse_comment hc']

/-- A literal and a variable in a comment above a query with a variable; and an apostrophe, which
opens a literal that does not end, above a query without. -/
theorem parse_below_comment_apostrophe :
    ((∀ d ∈ " '$v' or $w[5m]".toList, isBreak d = false) ∧
      StandsAside [{ name := "w" }] " '$v' or $w[5m]".toList "up[$w]".toList ∧
      parse [{ name := "w" }] (comment " '$v' or $w[5m]".toList ++ "up[$w]".toList) =
        parse [{ name := "w" }] "up[$w]".toList) ∧
    (∀ d ∈ " it's".toList, isBreak d = false) ∧ StandsAside [] " it's".toList "up".toList ∧
      parse [] (comment " it's".toList ++ "up".toList) = parse [] "up".toList := by
  have hvariable : ∀ d ∈ " '$v' or $w[5m]".toList, isBreak d = false := by
    have hall : " '$v' or $w[5m]".toList.all (!isBreak ·) = true := by decide
    simpa using List.all_eq_true.mp hall
  have hasideVariable : StandsAside [{ name := "w" }] " '$v' or $w[5m]".toList "up[$w]".toList := by
    have hexpand : expand [{ name := "w" }] (comment " '$v' or $w[5m]".toList) =
        .ok "# '$v' or w[5m]\n".toList := by decide +kernel
    have hcut : pieces (comment " '$v' or $w[5m]".toList ++ "up[$w]".toList) =
        pieces (comment " '$v' or $w[5m]".toList) ++ pieces "up[$w]".toList := by decide +kernel
    refine standsAside_of_endsIdle hvariable hcut (pieces_texts _)
      (exists_expand_eq_ok_iff.mp ⟨_, hexpand⟩) fun p hp => ?_
    have hend : (((pieces (comment " '$v' or $w[5m]".toList)).foldlM
        (Progress.write [{ name := "w" }]) {}).map fun p => (p.depth, isIdle p.before)) =
          .ok (0, true) := by decide +kernel
    rw [hp] at hend
    exact Prod.mk.inj (Except.ok.inj hend)
  have hapostrophe : ∀ d ∈ " it's".toList, isBreak d = false := by
    have hall : " it's".toList.all (!isBreak ·) = true := by decide
    simpa using List.all_eq_true.mp hall
  have hasideApostrophe : StandsAside [] " it's".toList "up".toList := by
    have hatoms : atoms (comment " it's".toList ++ "up".toList) =
        (comment " it's".toList).map .kept ++ atoms "up".toList := by decide +kernel
    have hpieces : pieces "up".toList = "up".toList.map .kept := by decide +kernel
    refine ⟨⟨_, hatoms, by simp⟩, keepsPlaces_of_no_reference fun r hr => ?_⟩
    rw [hpieces] at hr
    simp at hr
  exact ⟨⟨hvariable, hasideVariable, parse_below_comment _ _ _ hvariable hasideVariable⟩,
    hapostrophe, hasideApostrophe, parse_below_comment _ _ _ hapostrophe hasideApostrophe⟩

/-- Comments, each with a query that is refused below it. -/
def disturbances : List (String × String) :=
  -- a literal and a reference that run on, and a reference to nothing
  [(" it's", "up[$w]"), (" $\x7bw.", "sum by (x) (up\x7b\x7d)"), (" $nope", "up"),
    -- a bracket, an offset and a time
    (" [", "sum by ($w) (up)"), (" offset", "$w\x7b\x7d"), (" @", "$w\x7b\x7d"),
    -- a function that takes a scalar, at every stage
    (" topk", "($w\x7b\x7d) and up"), (" topk(", "$w\x7b\x7d"),
    (" topk by", "( # )\n ($w\x7b\x7d))"), (" topk by (", "# )\n($w\x7b\x7d)"),
    (" topk by (x)", "($w\x7b\x7d)"), (" topk by (x) (", "$w\x7b\x7d")]

/-- **Comments matter.**  A query that is accepted by itself may be refused below a comment: if the
comment has a literal or a reference that goes on behind it, a reference without a meaning, an open
bracket, or an end that gives a reference of the query another place. -/
theorem comments_matter :
    (disturbances.all fun d => (parse [{ name := "w" }] d.2.toList).isOk &&
      !(parse [{ name := "w" }] (comment d.1.toList ++ d.2.toList)).isOk &&
      d.1.toList.all (!isBreak ·)) = true ∧
    ¬ ∀ (templates : List Template) (c query : List Char), (∀ d ∈ c, isBreak d = false) →
      ((parse templates (comment c ++ query)).isOk = true ↔
        (parse templates query).isOk = true) := by
  have hall : (disturbances.all fun d => (parse [{ name := "w" }] d.2.toList).isOk &&
      !(parse [{ name := "w" }] (comment d.1.toList ++ d.2.toList)).isOk &&
      d.1.toList.all (!isBreak ·)) = true := by decide +kernel
  refine ⟨hall, fun h => ?_⟩
  have hfirst := List.all_eq_true.mp hall (" it's", "up[$w]") List.mem_cons_self
  simp only [Bool.and_eq_true, Bool.not_eq_true', List.all_eq_true] at hfirst
  obtain ⟨⟨halone, hbelow⟩, hc⟩ := hfirst
  rw [(h _ _ _ hc).mpr halone] at hbelow
  cases hbelow

end PanelLint.Query
