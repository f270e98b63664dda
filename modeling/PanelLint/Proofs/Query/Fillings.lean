import PanelLint.Proofs.Query.Rewriting
import PanelLint.Proofs.Query.Twins
import PanelLint.Query.Parse
/-!
# Fillings of a query

A query with references is made into one without by putting a text in for each of them.  Expansion is
one way to do so; a dashboard that sends its selected values is another.  A filling is accepted or
not by itself, and the question is what that says about the expansion.

* `Filling`: a query with any texts in the place of its references;
* `FitsAll`: when the texts fit, so that what expansion writes is the same or may come for it, part by
  part;
* `parse_of_filling`: if the texts fit and the filling is accepted, so is the query.
-/

namespace PanelLint.Query

open PanelLint.Text PanelLint.Promql PanelLint.Promql.Lexer

/-! ## 1. Fillings -/

/-- **A query with its references filled in**, as a row of pieces with the text for each.  What is no
reference stays as it is. -/
structure Filling (query : List Char) (record : List (Piece × List Char)) : Prop where
  pieces : record.map Prod.fst = pieces query
  kept : ∀ w ∈ record, (∀ r, w.1 ≠ .reference r) → w.2 = w.1.text

/-- The text of a filling. -/
def filled (record : List (Piece × List Char)) : List Char := record.flatMap Prod.snd

/-- Whether a row begins with code, or is empty. -/
def beginsWithCode : List (Piece × List Char) → Bool
  | [] => true
  | (.kept c, u) :: _ => u == [c]
  | _ => false

/-- **The texts of a filling fit**, from a point of the expansion on.  Expansion writes the same text for
a piece; or the piece is a reference in a comment, with a text of one line; or a part of the query, of one
reference or of more and what is around them, is filled in with a text that gives way to what expansion
writes there, and that ends in a comment only if the query goes on with code or ends. -/
inductive FitsAll (renamed : Prop) (templates : List Template) (whole : List Char) :
    Progress → List (Piece × List Char) → Prop
  | nil {p : Progress} : FitsAll renamed templates whole p []
  | same {p : Progress} {piece : Piece} {u : List Char} {record : List (Piece × List Char)} :
      (∀ q, p.write templates piece = .ok q → q.before = u.reverse ++ p.before) →
      (∀ q, p.write templates piece = .ok q → FitsAll renamed templates whole q record) →
      FitsAll renamed templates whole p ((piece, u) :: record)
  | comment {p : Progress} {r : Reference} {u : List Char} {record : List (Piece × List Char)} :
      InComment whole (u ++ filled record) → (∀ c ∈ u, isBreak c = false) →
      (∀ q, p.write templates (.reference r) = .ok q → FitsAll renamed templates whole q record) →
      FitsAll renamed templates whole p ((.reference r, u) :: record)
  | part {p : Progress} {row record : List (Piece × List Char)} :
      (∀ q v, (row.map Prod.fst).foldlM (Progress.write templates) p = .ok q →
        q.before = v.reverse ++ p.before →
        GivesWay renamed whole p.before (filled row) v (filled record)) →
      (InComment whole (filled record) → beginsWithCode record = true) →
      (∀ q, (row.map Prod.fst).foldlM (Progress.write templates) p = .ok q →
        FitsAll renamed templates whole q record) →
      FitsAll renamed templates whole p (row ++ record)

/-- Expansion writes the text of a reference, or else a stand-in, wherever it comes to it. -/
def Writes (templates : List Template) (record : List (Piece × List Char)) : Prop :=
  ∀ r u, (.reference r, u) ∈ record → ∀ position,
    substitute templates r.name position = .ok u ∨
      substitute templates r.name position = .ok (standIn r.name none position)

/-- The filling with one text for every reference. -/
def filledWith (u query : List Char) : List (Piece × List Char) :=
  (pieces query).map fun
    | .reference r => (.reference r, u)
    | piece => (piece, piece.text)

theorem filling_filledWith (u query : List Char) : Filling query (filledWith u query) where
  pieces := by
    unfold filledWith
    rw [List.map_map]
    refine (List.map_congr_left fun piece _ => ?_).trans (List.map_id _)
    cases piece <;> rfl
  kept := by
    intro w hw hne
    obtain ⟨piece, -, rfl⟩ := List.mem_map.mp hw
    cases piece with
    | reference r => exact absurd rfl (hne r)
    | _ => rfl

theorem eq_of_mem_filledWith {u query v : List Char} {r : Reference}
    (h : (.reference r, v) ∈ filledWith u query) : .reference r ∈ pieces query ∧ v = u := by
  obtain ⟨piece, hpiece, heq⟩ := List.mem_map.mp h
  cases piece with
  | reference r' =>
    cases heq
    exact ⟨hpiece, rfl⟩
  | _ => cases heq

/-- Code that stays as it is. -/
def keptAll (cs : List Char) : List (Piece × List Char) := cs.map fun c => (.kept c, [c])

/-- A part of a query with one reference in it. -/
def single (front : List Char) (r : Reference) (u back : List Char) : List (Piece × List Char) :=
  keptAll front ++ (.reference r, u) :: keptAll back

theorem filled_keptAll (cs : List Char) : filled (keptAll cs) = cs := by
  simp [filled, keptAll, List.flatMap_map]

theorem filled_single (front : List Char) (r : Reference) (u back : List Char) :
    filled (single front r u back) = front ++ (u ++ back) := by
  have hfront := filled_keptAll front
  have hback := filled_keptAll back
  unfold filled at hfront hback
  simp [filled, single, List.flatMap_append, hfront, hback]

section Parts

variable {renamed : Prop} {templates : List Template} {whole : List Char}
  {row record : List (Piece × List Char)} {p q : Progress}

theorem fitsAll_keptAll_append (cs : List Char)
    (h : FitsAll renamed templates whole ⟨cs.reverse ++ p.before, openBrackets p.depth cs⟩ record) :
    FitsAll renamed templates whole p (keptAll cs ++ record) := by
  induction cs generalizing p with
  | nil => exact h
  | cons c cs ih =>
    refine .same (fun q hq => ?_) fun q hq => ?_
    · cases hq
      rfl
    · cases hq
      refine ih ?_
      rw [List.reverse_cons, List.append_assoc] at h
      exact h

theorem fitsAll_keptAll (cs : List Char) : FitsAll renamed templates whole p (keptAll cs) := by
  rw [← List.append_nil (keptAll cs)]
  exact fitsAll_keptAll_append cs .nil

/-- A part of which expansion writes `v`. -/
theorem fitsAll_part {v : List Char}
    (hrun : (row.map Prod.fst).foldlM (Progress.write templates) p = .ok q)
    (htext : q.before = v.reverse ++ p.before)
    (hgives : GivesWay renamed whole p.before (filled row) v (filled record))
    (hcode : InComment whole (filled record) → beginsWithCode record = true)
    (htail : FitsAll renamed templates whole q record) :
    FitsAll renamed templates whole p (row ++ record) := by
  refine .part (fun q' v' hq' hv' => ?_) hcode fun q' hq' => ?_
  · obtain rfl := Except.ok.inj (hrun.symm.trans hq')
    obtain rfl := List.reverse_injective (List.append_cancel_right (htext.symm.trans hv'))
    exact hgives
  · obtain rfl := Except.ok.inj (hrun.symm.trans hq')
    exact htail

/-- A query of code with one part that gives way to `v`. -/
theorem fitsAll_single (renamed : Prop) (templates : List Template) (front a u b back v : List Char)
    (r : Reference)
    (hwrite : (((single a r u b).map Prod.fst).foldlM (Progress.write templates)
      ⟨front.reverse, openBrackets 0 front⟩).toOption.map Progress.before =
        some (v.reverse ++ front.reverse))
    (hgives : GivesWay renamed whole front.reverse (a ++ (u ++ b)) v back) :
    FitsAll renamed templates whole {} (keptAll front ++ (single a r u b ++ keptAll back)) := by
  obtain ⟨q, hrun, htext⟩ := toOption_map_eq_some_iff.mp hwrite
  refine fitsAll_keptAll_append front ?_
  rw [List.append_nil]
  refine fitsAll_part hrun htext ?_ (fun _ => ?_) (fitsAll_keptAll back)
  · rwa [filled_single, filled_keptAll]
  · cases back <;> simp [keptAll, beginsWithCode]

end Parts

/-! ## 2. Expansions beside fillings -/

variable {renamed : Prop} {templates : List Template} {query whole : List Char}
  {record : List (Piece × List Char)} {p : Progress}

/-- Text that is written as it is is the same in a twin. -/
theorem Twin.append_kept {before cs cs' : List Char} (u : List Char)
    (h : Twin renamed whole (u.reverse ++ before) cs cs') :
    Twin renamed whole before (u ++ cs) (u ++ cs') := by
  induction u generalizing before with
  | nil => exact h
  | cons c u ih =>
    refine Twin.kept (ih ?_)
    rwa [List.reverse_cons, List.append_assoc] at h

/-- What expansion has written of a row of pieces, beside a filling of them. -/
structure Beside (renamed : Prop) (templates : List Template) (whole : List Char)
    (p : Progress) (record : List (Piece × List Char)) (q : Progress) (out : List Char) : Prop where
  run : (record.map Prod.fst).foldlM (Progress.write templates) p = .ok q
  text : q.before = out.reverse ++ p.before
  twin : Twin renamed whole p.before (filled record) out

theorem Beside.append {row : List (Piece × List Char)} {v out : List Char} {p₁ q : Progress}
    (h : Beside renamed templates whole p₁ record q out)
    (hrun : (row.map Prod.fst).foldlM (Progress.write templates) p = .ok p₁)
    (hbefore : p₁.before = v.reverse ++ p.before)
    (htwin : Twin renamed whole (v.reverse ++ p.before) (filled record) out →
      Twin renamed whole p.before (filled row ++ filled record) (v ++ out)) :
    Beside renamed templates whole p (row ++ record) q (v ++ out) where
  run := by
    rw [List.map_append, List.foldlM_append, hrun]
    exact h.run
  text := by rw [h.text, hbefore, List.reverse_append, List.append_assoc]
  twin := by
    rw [filled, List.flatMap_append]
    exact htwin (hbefore ▸ h.twin)

/-- Expansion writes something for every piece. -/
theorem exists_write (hwrites : Writes templates record) {w : Piece × List Char} (hw : w ∈ record)
    (p : Progress) : ∃ q, ∃ v : List Char, p.write templates w.1 = .ok q ∧
      q.before = v.reverse ++ p.before ∧
      ∀ r, w.1 = .reference r → v = w.2 ∨ v = standIn r.name none (Position.of p.before p.depth) := by
  obtain ⟨piece, u⟩ := w
  cases piece with
  | kept c => exact ⟨_, [c], rfl, rfl, by simp⟩
  | literal t => exact ⟨_, t, rfl, rfl, by simp⟩
  | reference r =>
    have hwrite : ∀ {v}, substitute templates r.name (Position.of p.before p.depth) = .ok v →
        p.write templates (.reference r) = .ok ⟨v.reverse ++ p.before, p.depth⟩ := fun hsub => by
      simp [Progress.write, hsub, Except.map]
    rcases hwrites r u hw (Position.of p.before p.depth) with hsub | hsub
    · exact ⟨_, u, hwrite hsub, rfl, fun r' hr' => by cases hr'; exact Or.inl rfl⟩
    · exact ⟨_, _, hwrite hsub, rfl, fun r' hr' => by cases hr'; exact Or.inr rfl⟩

theorem exists_writes (hwrites : Writes templates record) (p : Progress) :
    ∃ q, ∃ v : List Char, (record.map Prod.fst).foldlM (Progress.write templates) p = .ok q ∧
      q.before = v.reverse ++ p.before := by
  induction record generalizing p with
  | nil => exact ⟨p, [], rfl, rfl⟩
  | cons w record ih =>
    obtain ⟨q, v, hq, hv, -⟩ := exists_write hwrites List.mem_cons_self p
    obtain ⟨q', v', hq', hv'⟩ := ih (fun r u hr => hwrites r u (List.mem_cons_of_mem w hr)) q
    refine ⟨q', v ++ v', ?_, by rw [hv', hv, List.reverse_append, List.append_assoc]⟩
    rw [List.map_cons, List.foldlM_cons, hq]
    exact hq'

/-- Code stands in the expansion as it does in the filling. -/
theorem Beside.head?_eq {q : Progress} {out : List Char} (hwrites : Writes templates record)
    (hcode : beginsWithCode record = true) (h : Beside renamed templates whole p record q out) :
    (filled record).head? = out.head? := by
  obtain ⟨hrun, htext, -⟩ := h
  unfold beginsWithCode at hcode
  split at hcode
  · obtain rfl := Except.ok.inj hrun
    obtain rfl : out = [] := List.reverse_eq_nil_iff.mp (List.append_left_eq_self.mp htext.symm)
    rfl
  · next c u rest =>
    obtain rfl := eq_of_beq hcode
    obtain ⟨q', v, hrun', hv⟩ := exists_writes (fun r u hr => hwrites r u (List.mem_cons_of_mem _ hr))
      (⟨c :: p.before, openBrackets p.depth [c]⟩ : Progress)
    obtain rfl : q' = q := Except.ok.inj (hrun'.symm.trans hrun)
    obtain rfl : out = c :: v := by
      refine List.reverse_injective (List.append_cancel_right (htext.symm.trans ?_))
      rw [hv, List.reverse_cons, List.append_assoc]
      rfl
    rfl
  · cases hcode

/-- **The expansion of a query is a twin of each filling that fits.** -/
theorem exists_beside (hnames : ∀ r, .reference r ∈ record.map Prod.fst → ∀ c ∈ r.name, isWord c = true)
    (hwrites : Writes templates record) (hfits : FitsAll renamed templates whole p record) :
    ∃ q out, Beside renamed templates whole p record q out := by
  induction hfits with
  | @nil p => exact ⟨p, [], rfl, rfl, Twin.nil⟩
  | @same p piece u record hsame _ ih =>
    obtain ⟨p₁, v, hw, -, -⟩ := exists_write hwrites List.mem_cons_self p
    obtain ⟨q, out, h⟩ := ih p₁ hw (fun r hr => hnames r (List.mem_cons_of_mem _ hr))
      fun r v hv => hwrites r v (List.mem_cons_of_mem _ hv)
    have hone : ([(piece, u)].map Prod.fst).foldlM (Progress.write templates) p = .ok p₁ := by
      simpa using hw
    refine ⟨q, _, h.append hone (hsame p₁ hw) fun htwin => ?_⟩
    simpa [filled] using htwin.append_kept u
  | @comment p r u record hcomment hbreak _ ih =>
    obtain ⟨p₁, v, hw, hv, hcases⟩ := exists_write hwrites List.mem_cons_self p
    obtain ⟨q, out, h⟩ := ih p₁ hw (fun r hr => hnames r (List.mem_cons_of_mem _ hr))
      fun r v hv => hwrites r v (List.mem_cons_of_mem _ hv)
    have hone : ([(Piece.reference r, u)].map Prod.fst).foldlM (Progress.write templates) p = .ok p₁ := by
      simpa using hw
    refine ⟨q, _, h.append hone hv fun htwin => ?_⟩
    rcases hcases r rfl with rfl | rfl
    · simpa [filled] using htwin.append_kept v
    · -- a stand-in in a comment is of one line too
      obtain ⟨hne, hvalue⟩ := isValue_standIn (hnames r List.mem_cons_self) none _
      refine Twin.comment (by simpa [filled] using hcomment) (by simpa [filled] using hbreak) hne ?_ htwin
      exact fun c hc => not_isBreak_of_isValueChar (hvalue c hc)
  | @part p row record hgives hcode _ ih =>
    obtain ⟨p₁, v, hrun, hv⟩ :=
      exists_writes (fun r u hr => hwrites r u (List.mem_append_left record hr)) p
    obtain ⟨q, out, h⟩ := ih p₁ hrun
      (fun r hr => hnames r (by rw [List.map_append]; exact List.mem_append_right _ hr))
      fun r v hv => hwrites r v (List.mem_append_right row hv)
    exact ⟨q, _, h.append hrun hv (Twin.swap (hgives p₁ v hrun hv) fun hcomment =>
      h.head?_eq (fun r u hr => hwrites r u (List.mem_append_right row hr)) (hcode hcomment))⟩

/-! ## 3. Acceptance -/

/-- A text that is accepted has a phrase that passes the checks. -/
theorem exists_phrase_of_parse {text : List Char} {e : Expr} (h : Promql.parse text = .ok e) :
    ∃ ts phrase, tokens text = .ok ts ∧ Phrase.ofTokens ts = .ok (some phrase) ∧
      phrase.check = .ok e := by
  unfold Promql.parse at h
  split at h
  · cases h
  next ts hts =>
  split at h
  · cases h
  · cases h
  · cases h
  next phrase hphrase =>
  split at h
  · cases h
  next e' hcheck =>
  cases h
  exact ⟨ts, phrase, hts, hphrase, hcheck⟩

/-- A twin of a text that is accepted is accepted. -/
theorem exists_parse_of_twin {out : List Char} {e : Expr} (htwin : Twin renamed whole [] whole out)
    (hlabels : renamed → ∀ ts, tokens out = .ok ts → LabelsApart ts)
    (hparse : Promql.parse whole = .ok e) : ∃ e', Promql.parse out = .ok e' := by
  obtain ⟨ts, phrase, hts, hphrase, hcheck⟩ := exists_phrase_of_parse hparse
  have haccept : Accepted ts := ⟨phrase, hphrase, e, hcheck⟩
  obtain ⟨mid, ts', hts', hgrafted, hex⟩ := htwin.counterpart hts haccept hlabels
  obtain ⟨phrase', hphrase', e', he'⟩ := accepted_of_grafted hgrafted haccept
  obtain ⟨phrase'', e'', hphrase'', he''⟩ := Phrase.check_of_exchange hex hphrase' he'
  exact ⟨e'', by simp [Promql.parse, hts', hphrase'', he'']⟩

/-- **If a filling is accepted and all its texts fit, the query is accepted.**  If other names may come
for names, no label may stand on both sides of a match then. -/
theorem parse_of_filling {e : Expr} (hfilling : Filling query record)
    (hwrites : Writes templates record)
    (hfits : FitsAll renamed templates (filled record) {} record)
    (hlabels : renamed → ∀ out ts, expand templates query = .ok out → tokens out = .ok ts →
      LabelsApart ts)
    (hparse : Promql.parse (filled record) = .ok e) : ∃ e', parse templates query = .ok e' := by
  obtain ⟨q, out, hrun, htext, htwin⟩ := exists_beside (p := {})
    (fun r hr => (name_isRun_of_mem_pieces (hfilling.pieces ▸ hr)).2) hwrites hfits
  have hexpand : expand templates query = .ok out := by
    rw [hfilling.pieces] at hrun
    simp [expand, hrun, htext, Except.map]
  obtain ⟨e', he'⟩ := exists_parse_of_twin htwin (fun hr ts => hlabels hr out ts hexpand) hparse
  exact ⟨e', by simp [parse, hexpand, he']⟩

end PanelLint.Query
