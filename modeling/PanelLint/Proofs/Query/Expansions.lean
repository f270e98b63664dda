import PanelLint.Proofs.Query.Acceptance
import PanelLint.Proofs.Query.Failures
import PanelLint.Proofs.Query.Relevance
import PanelLint.Proofs.Query.Variations
/-!
# Expansion under two lists of variables

A variable that only ever stands in brackets or behind `offset` is an interval.  Here expansion is
followed under two lists of variables that declare the same names, with durations for the intervals
that the parser accepts.

* `Retimed`: texts written so far that differ in such durations;
* `Retimed.position`: behind both a range is a range and an offset an offset, since no duration ends
  with what these are read off;
* `concur_run`: expansion stops under both lists or under none, and what it has written differs in
  durations at most.
-/

namespace PanelLint.Query

open PanelLint.Text PanelLint.Promql PanelLint.Promql.Lexer

/-! ## 1. Texts written with other durations -/

/-- **Texts written so far that differ in durations**, both with their last character first; `Q` is
about the text before such a duration.  A duration comes last only where what follows may close it,
which `closing` says. -/
inductive Retimed (Q : List Char → Prop) : (closing : Bool) → List Char → List Char → Prop
  | nil {closing : Bool} : Retimed Q closing [] []
  | kept {closing : Bool} {c : Char} {cs cs' : List Char} : Retimed Q (closesTime c) cs cs' →
      Retimed Q closing (c :: cs) (c :: cs')
  | time {c : Char} {v v' cs cs' : List Char} : opensTime c = true → IsTime v → IsTime v' →
      Q (c :: cs) → Retimed Q (closesTime c) cs cs' →
      Retimed Q true (v.reverse ++ c :: cs) (v'.reverse ++ c :: cs')

variable {Q P : List Char → Prop} {closing : Bool} {c : Char} {cs cs' rest before before' : List Char}

/-- Where no duration may come last, anything may follow. -/
theorem Retimed.of_false (h : Retimed Q false cs cs') : Retimed Q closing cs cs' := by
  cases h with
  | nil => exact Retimed.nil
  | kept htail => exact Retimed.kept htail

theorem Retimed.append (h : Retimed Q false cs cs') (w : List Char) :
    Retimed Q false (w ++ cs) (w ++ cs') := by
  induction w with
  | nil => exact h
  | cons c w ih => exact Retimed.kept ih.of_false

/-- Whether a text goes on with what may come right behind a duration, if it goes on. -/
def headCloses (cs : List Char) : Bool := cs.head?.all closesTime

theorem headCloses_iff : headCloses cs = true ↔ ∀ c ∈ cs.head?, closesTime c = true := by
  cases cs <;> simp [headCloses]

theorem Varied.of_none {last : Option Char} (h : Varied P none cs cs') : Varied P last cs cs' := by
  cases h with
  | nil => exact Varied.nil
  | kept htail => exact Varied.kept htail

/-- **What has been written is the front of two texts that differ in durations.** -/
theorem Retimed.varied {whole : List Char} (h : Retimed Q closing before before')
    (hclosing : closing = true → headCloses cs = true) (hwhole : before.reverse ++ cs = whole)
    (hQ : ∀ front back, Q front → front.reverse ++ back = whole → P back)
    (htail : Varied P none cs cs') :
    Varied P none (before.reverse ++ cs) (before'.reverse ++ cs') := by
  induction h generalizing cs cs' with
  | nil => exact htail
  | @kept _ c _ _ _ ih =>
    simp only [List.reverse_cons, List.append_assoc, List.singleton_append] at hwhole ⊢
    exact ih id hwhole (Varied.kept htail.of_none)
  | @time c v v' _ _ hopens htime htime' hplace _ ih =>
    simp only [List.reverse_append, List.reverse_reverse, List.reverse_cons, List.append_assoc,
      List.singleton_append] at hwhole ⊢
    refine ih id hwhole (Varied.kept (Varied.time hopens htime htime'
      (headCloses_iff.mp (hclosing rfl)) (hQ (c :: _) (v ++ cs) hplace ?_) htail))
    simpa using hwhole

/-! ## 2. The position behind them -/

/-- The last character of a duration is a letter that no blank, no sign and no `offset` ends with. -/
theorem IsTime.reverse {v : List Char} (h : IsTime v) : ∃ u w, v.reverse = u :: w ∧ u ∈ unitLetters := by
  obtain ⟨u, hlast, hu⟩ := last_of_isDuration h.shape
  rw [← List.head?_reverse] at hlast
  obtain ⟨w, hw⟩ := List.head?_eq_some_iff.mp hlast
  exact ⟨u, w, hw, hu⟩

/-- A character that no duration ends with is last in both texts. -/
theorem Retimed.eq_cons (h : Retimed Q closing (c :: cs) before') (hc : c ∉ unitLetters) :
    ∃ cs', before' = c :: cs' ∧ Retimed Q (closesTime c) cs cs' := by
  generalize hbefore : c :: cs = before at h
  cases h with
  | nil => cases hbefore
  | kept htail =>
    obtain ⟨rfl, rfl⟩ := List.cons.inj hbefore
    exact ⟨_, rfl, htail⟩
  | time _ htime _ _ _ =>
    obtain ⟨u, w, hrev, hu⟩ := htime.reverse
    rw [hrev] at hbefore
    obtain ⟨rfl, -⟩ := List.cons.inj hbefore
    exact absurd hu hc

theorem Retimed.dropBlanks (h : Retimed Q closing cs cs') :
    ∃ closing', Retimed Q closing' (dropBlanks cs) (dropBlanks cs') := by
  have hunit : ∀ {u : Char}, u ∈ unitLetters → isBlank u = false := by
    have hall : unitLetters.all (fun u => !isBlank u) = true := by decide
    intro u hu
    simpa using List.all_eq_true.mp hall u hu
  induction h with
  | nil => exact ⟨true, Retimed.nil⟩
  | @kept closing c cs cs' htail ih =>
    simp only [Text.dropBlanks, List.dropWhile_cons]
    split
    · exact ih
    · exact ⟨closing, Retimed.kept htail⟩
  | @time c v v' cs cs' hopens htime htime' hplace htail _ =>
    have hboth := Retimed.time hopens htime htime' hplace htail
    obtain ⟨u, w, hrev, hu⟩ := htime.reverse
    obtain ⟨u', w', hrev', hu'⟩ := htime'.reverse
    rw [hrev, hrev', List.cons_append, List.cons_append] at hboth ⊢
    rw [dropBlanks_cons (hunit hu), dropBlanks_cons (hunit hu')]
    exact ⟨true, hboth⟩

/-- A character that is a letter without regard to case goes on words, two of them aside. -/
theorem isWordRest_of_fold (h : (fold c).isLower = true) :
    c = 'ſ' ∨ c = '\u212a' ∨ isWordRest c = true := by
  unfold fold at h
  split at h
  · next hc => exact Or.inl hc
  split at h
  · next hc => exact Or.inr (Or.inl hc)
  · refine Or.inr (Or.inr ?_)
    have halpha : c.isAlpha = true := by
      show (c.isUpper || c.isLower) = true
      unfold Char.toLower at h
      split at h
      · next hupper =>
        have hc : c.isUpper = true := decide_eq_true hupper
        rw [hc, Bool.true_or]
      · rw [h, Bool.or_true]
    simp [isWordRest, Char.isAlphanum, halpha]

/-- No letter closes a duration. -/
theorem not_closesTime_of_fold (h : (fold c).isLower = true) : closesTime c = false := by
  rcases isWordRest_of_fold h with rfl | rfl | hrest
  · decide
  · decide
  · cases hc : closesTime c with
    | false => rfl
    | true => exact absurd hrest (by simp [not_isWordRest_of_closesTime hc])

/-- A word is found in both texts or in none. -/
theorem Retimed.dropWord? {word : List Char} (h : Retimed Q false cs cs')
    (hword : ∀ w ∈ word, w.isLower = true) (hdrop : dropWord? word cs = some rest) :
    ∃ rest', Text.dropWord? word cs' = some rest' ∧ Retimed Q false rest rest' := by
  induction word generalizing cs cs' with
  | nil =>
    cases hdrop
    exact ⟨cs', rfl, h⟩
  | cons w word ih =>
    cases h with
    | nil => cases hdrop
    | @kept _ c cs cs' htail =>
      simp only [Text.dropWord?] at hdrop ⊢
      split at hdrop
      · next hfold =>
        have hlower := hword w List.mem_cons_self
        rw [not_closesTime_of_fold (hfold ▸ hlower)] at htail
        rw [if_pos hfold]
        exact ih htail (fun w' hw' => hword w' (List.mem_cons_of_mem w hw')) hdrop
      · cases hdrop

theorem Retimed.atWordStart (h : Retimed Q false cs cs') : atWordStart cs = atWordStart cs' := by
  cases h <;> rfl

/-- **Both texts end with `offset`**, since no duration ends with its last letter. -/
theorem Retimed.endsWithWord_offset (h : Retimed Q closing before before')
    (hoffset : endsWithWord ["offset"] before = true) : endsWithWord ["offset"] before' = true := by
  have hword : "offset".toList.reverse = ['t', 'e', 's', 'f', 'f', 'o'] := by decide
  simp only [endsWithWord, List.any_cons, List.any_nil, Bool.or_false, Option.any_eq_true,
    beforeWord?, hword] at hoffset ⊢
  obtain ⟨rest, hdrop, hstart⟩ := hoffset
  cases before with
  | nil => cases hdrop
  | cons c cs =>
    have hfold : fold c = 't' := by
      by_contra hne
      rw [Text.dropWord?, if_neg hne] at hdrop
      cases hdrop
    have hunit : c ∉ unitLetters := by
      intro hmem
      have hall : unitLetters.all (fun u => fold u != 't') = true := by decide
      exact absurd hfold (by simpa using List.all_eq_true.mp hall c hmem)
    obtain ⟨cs', rfl, htail⟩ := h.eq_cons hunit
    rw [not_closesTime_of_fold (by rw [hfold]; decide)] at htail
    rw [Text.dropWord?, if_pos hfold] at hdrop
    have hlower : ['e', 's', 'f', 'f', 'o'].all Char.isLower = true := by decide
    obtain ⟨rest', hdrop', hrest⟩ := htail.dropWord? (List.all_eq_true.mp hlower) hdrop
    refine ⟨rest', ?_, hrest.atWordStart ▸ hstart⟩
    rw [Text.dropWord?, if_pos hfold, hdrop']

theorem Retimed.endsWithOffset (h : Retimed Q closing before before')
    (hoffset : endsWithOffset before = true) : endsWithOffset before' = true := by
  obtain ⟨closing', hblanks⟩ := h.dropBlanks
  unfold Query.endsWithOffset at hoffset ⊢
  split at hoffset
  · next rest hminus =>
    rw [hminus] at hblanks
    obtain ⟨rest', hminus', hrest⟩ := hblanks.eq_cons (by decide)
    obtain ⟨closing'', hrest⟩ := hrest.dropBlanks
    rw [hminus']
    exact hrest.endsWithWord_offset hoffset
  · have hoffset' := hblanks.endsWithWord_offset hoffset
    split
    · next hminus =>
      rw [hminus, endsWithWord_cons (by decide)] at hoffset'
      cases hoffset'
    · exact hoffset'

/-- **A range stays a range and an offset stays an offset.** -/
theorem Retimed.position (h : Retimed Q closing before before') {depth : Nat}
    (hposition : Position.of before depth = .range ∨ Position.of before depth = .offset) :
    Position.of before' depth = Position.of before depth := by
  by_cases hdepth : 0 < depth
  · rw [position_eq_range hdepth, position_eq_range hdepth]
  · have hoffset : Query.endsWithOffset before = true := by
      by_contra hno
      simp only [Position.of, if_neg hdepth, if_neg hno] at hposition
      split at hposition <;> simp at hposition
    simp only [Position.of, if_neg hdepth, if_pos hoffset, if_pos (h.endsWithOffset hoffset)]

/-! ## 3. What stands around a reference -/

theorem not_has_of_disjoint {ranges ranges' : CodePoints}
    (h : ranges.all (fun r => ranges'.all fun r' => decide (r.2 < r'.1) || decide (r'.2 < r.1)) = true)
    (hc : ranges.has c = true) : ranges'.has c = false := by
  obtain ⟨r, hr, hlow, hhigh⟩ := (CodePoints.has_iff ranges c).mp hc
  rw [Bool.eq_false_iff, Ne, CodePoints.has_iff]
  rintro ⟨r', hr', hlow', hhigh'⟩
  have := List.all_eq_true.mp (List.all_eq_true.mp h r hr) r' hr'
  simp only [Bool.or_eq_true, decide_eq_true_eq] at this
  omega

/-- White space belongs to no word. -/
theorem not_isWord_of_isBlank (h : isBlank c = true) : isWord c = false := by
  unfold isWord
  split
  · cases hw : (c.isAlphanum || c == '_') with
    | false => rfl
    | true => rw [not_isBlank_of_isNameRest (by simp [isNameRest, isWordRest, hw])] at h; cases h
  · rw [not_has_of_disjoint (by decide +kernel) h, not_has_of_disjoint (by decide +kernel) h,
      not_has_of_disjoint (by decide +kernel) h]
    rfl

/-- No duration ends with what opens one. -/
theorem not_mem_unitLetters_of_opensTime (h : opensTime c = true) : c ∉ unitLetters := by
  have hall : unitLetters.all (fun u => !opensTime u) = true := by decide
  intro hmem
  have := List.all_eq_true.mp hall c hmem
  simp [h] at this

theorem not_opensTime_of_isWord (h : isWord c = true) : opensTime c = false := by
  cases ho : opensTime c with
  | false => rfl
  | true =>
    simp only [opensTime, Bool.or_eq_true, beq_iff_eq] at ho
    rcases ho with ((rfl | rfl) | rfl) | hblank
    · exact absurd h (by decide)
    · exact absurd h (by decide)
    · exact absurd h (by decide)
    · rw [not_isWord_of_isBlank hblank] at h
      cases h

/-- The references of a query are written in one of the forms. -/
theorem begins_of_mem_pieces {query : List Char} {r : Reference} (h : .reference r ∈ pieces query) :
    ∃ cs rest, Reference.Begins cs r rest := by
  obtain ⟨s, -, hr⟩ := List.mem_flatMap.mp h
  cases s with
  | literal t => exact absurd hr (by simp [Piece.ofSegment])
  | code t =>
    have hscan := leftToRight_scan t
    simp only [Piece.ofSegment] at hr
    generalize Piece.scan t = ps at hscan hr
    induction hscan with
    | nil => cases hr
    | kept _ _ ih =>
      refine ih ?_
      simpa using hr
    | reference hbegins _ ih =>
      rcases List.mem_cons.mp hr with heq | hr
      · cases heq
        exact ⟨_, _, hbegins⟩
      · exact ih hr

/-- **The pieces of some text.**  Characters of code are no quotes, names are words, and a literal is
closed where it ends, unless it is the last piece. -/
inductive Laid : List Piece → Prop
  | nil : Laid []
  | kept {c : Char} {ps : List Piece} : isQuote c = false → Laid ps → Laid (.kept c :: ps)
  | reference {r : Reference} {ps : List Piece} : (∀ c ∈ r.name, isWord c = true) → Laid ps →
      Laid (.reference r :: ps)
  | literal {quote : Char} {body : List Char} {ps : List Piece} : isQuote quote = true →
      closes quote body = true → Laid ps → Laid (.literal (quote :: body) :: ps)
  | openLiteral {quote : Char} {body : List Char} : isQuote quote = true →
      closeLiteral quote body = (body, []) → Laid [.literal (quote :: body)]

theorem laid_scan_append {cs : List Char} {ps : List Piece} (hcs : ∀ c ∈ cs, isQuote c = false)
    (h : Laid ps) : Laid (Piece.scan cs ++ ps) := by
  fun_induction Piece.scan cs with
  | case1 => exact h
  | case2 c cs r rest hr _ ih =>
    have hbegins := Reference.read?_eq_some_iff.mp hr
    refine Laid.reference hbegins.name_isRun.2 (ih fun d hd => hcs d ?_)
    rw [hbegins.text_append]
    exact List.mem_append_right _ hd
  | case3 c cs _ ih =>
    exact Laid.kept (hcs c List.mem_cons_self) (ih fun d hd => hcs d (List.mem_cons_of_mem c hd))

theorem laid_pieces (query : List Char) : Laid (pieces query) := by
  have h := segmented_split query
  unfold pieces
  generalize Segment.split query = ss at h ⊢
  induction h with
  | nil => exact Laid.nil
  | code ht _ _ ih =>
    rw [List.flatMap_cons]
    exact laid_scan_append ht.2 ih
  | literal hq hc _ ih =>
    rw [List.flatMap_cons]
    exact Laid.literal hq hc ih
  | openLiteral hq hc => exact Laid.openLiteral hq hc

theorem laid_of_append {ps qs : List Piece} (h : Laid (ps ++ qs)) : Laid qs := by
  induction ps with
  | nil => exact h
  | cons piece ps ih =>
    rw [List.cons_append] at h
    generalize hrow : ps ++ qs = row at h
    cases h with
    | kept _ hl => exact ih (hrow ▸ hl)
    | reference _ hl => exact ih (hrow ▸ hl)
    | literal _ _ hl => exact ih (hrow ▸ hl)
    | openLiteral _ _ =>
      obtain ⟨rfl, rfl⟩ := List.append_eq_nil_iff.mp hrow
      exact Laid.nil

/-- A literal of a query has its quotes, the last one unless it is the last piece. -/
theorem literal_of_laid {back : List Piece} {t : List Char} (h : Laid (.literal t :: back)) :
    ∃ quote body, t = quote :: body ∧ isQuote quote = true ∧
      (back ≠ [] → closes quote body = true) := by
  cases h with
  | literal hq hc _ => exact ⟨_, _, rfl, hq, fun _ => hc⟩
  | openLiteral hq _ => exact ⟨_, _, rfl, hq, fun hne => absurd rfl hne⟩

theorem getLast?_of_closes {quote : Char} {body : List Char} (h : closes quote body = true) :
    (quote :: body).getLast? = some quote := by
  have hlast : body.getLast? = some quote := by
    fun_induction closes quote body with
    | case1 => cases h
    | case2 c hc => cases h
    | case3 c hc d ds ih =>
      rw [List.getLast?_cons, List.getLast?_cons, ih h]
      rfl
    | case4 cs hc =>
      rw [List.isEmpty_iff.mp h]
      rfl
    | case5 c cs hc hq ih =>
      rw [List.getLast?_cons, ih h]
      rfl
  rw [List.getLast?_cons, hlast]
  rfl

variable {query : List Char} {front back : List Piece} {piece : Piece}

/-- **Beside references no duration is written**: a reference or a literal does not begin with what
closes a duration. -/
theorem head_of_piece (hps : pieces query = front ++ piece :: back) (hkept : ∀ c, piece ≠ .kept c)
    (cs : List Char) : headCloses (piece.text ++ cs) = false := by
  cases piece with
  | kept c => exact absurd rfl (hkept c)
  | reference r =>
    have hmem : .reference r ∈ pieces query := by simp [hps]
    obtain ⟨_, _, hbegins⟩ := begins_of_mem_pieces hmem
    cases hbegins <;> rfl
  | literal t =>
    obtain ⟨quote, body, rfl, hq, -⟩ := literal_of_laid (laid_of_append (hps ▸ laid_pieces query))
    rcases isQuote_iff.mp hq with rfl | rfl | rfl <;> rfl

/-- A reference does not end with what opens a duration. -/
theorem last_of_begins {cs rest : List Char} {r : Reference} (h : Reference.Begins cs r rest) :
    ∃ c ∈ r.text.getLast?, opensTime c = false := by
  cases h with
  | @plain name _ hname _ =>
    obtain ⟨w, c, rfl⟩ := List.eq_nil_or_concat name |>.resolve_left hname.1
    exact ⟨c, by simp [List.getLast?_cons], not_opensTime_of_isWord (hname.2 c (by simp))⟩
  | bracketed _ _ => exact ⟨']', by simp [List.getLast?_cons], by decide⟩
  | braced _ _ _ => exact ⟨'\x7d', by simp [List.getLast?_cons], by decide⟩

/-- Neither does it end with what opens one. -/
theorem last_of_piece (hps : pieces query = front ++ piece :: back) (hkept : ∀ c, piece ≠ .kept c)
    (hback : back ≠ []) : ∃ c ∈ piece.text.getLast?, opensTime c = false := by
  cases piece with
  | kept c => exact absurd rfl (hkept c)
  | reference r =>
    have hmem : .reference r ∈ pieces query := by simp [hps]
    obtain ⟨_, _, hbegins⟩ := begins_of_mem_pieces hmem
    exact last_of_begins hbegins
  | literal t =>
    obtain ⟨quote, body, rfl, hq, hclosed⟩ := literal_of_laid (laid_of_append (hps ▸ laid_pieces query))
    refine ⟨quote, getLast?_of_closes (hclosed hback), ?_⟩
    rcases isQuote_iff.mp hq with rfl | rfl | rfl <;> decide

/-- What opens a duration is a character that stays. -/
theorem exists_kept_of_opened (hps : pieces query = front ++ piece :: back)
    (h : ∃ c ∈ (front.flatMap Piece.text).getLast?, opensTime c = true) :
    ∃ front₀ c, front = front₀ ++ [.kept c] ∧ opensTime c = true := by
  obtain ⟨c, hlast, hopens⟩ := h
  obtain rfl | ⟨front₀, q, rfl⟩ := List.eq_nil_or_concat front
  · cases hlast
  · rw [List.concat_eq_append, List.flatMap_append, List.flatMap_singleton] at hlast
    by_cases hkept : ∃ d, q = .kept d
    · obtain ⟨d, rfl⟩ := hkept
      obtain rfl : d = c := by simpa [Piece.text] using hlast
      exact ⟨front₀, d, by simp, hopens⟩
    · have hq : pieces query = front₀ ++ q :: piece :: back := by simpa using hps
      obtain ⟨d, hd, hno⟩ := last_of_piece hq (fun d hd => hkept ⟨d, hd⟩) (by simp)
      rw [List.getLast?_append, hd] at hlast
      obtain rfl : d = c := by simpa using hlast
      rw [hno] at hopens
      cases hopens

/-! ## 4. References to intervals -/

/-- **Expansion comes to a reference** of a query: `p` has been written of the pieces before it. -/
structure ComesTo (templates : List Template) (query : List Char) (front : List Piece) (p : Progress)
    (r : Reference) (back : List Piece) : Prop where
  pieces : Query.pieces query = front ++ .reference r :: back
  written : front.foldlM (Progress.write templates) {} = .ok p

/-- **A reference that stands for an interval**: in brackets or behind `offset`, and between
characters that no word goes on over. -/
structure IsInterval (front : List Piece) (p : Progress) (back : List Piece) : Prop where
  opened : ∃ c ∈ (front.flatMap Piece.text).getLast?, opensTime c = true
  closed : ∀ c ∈ (back.flatMap Piece.text).head?, closesTime c = true
  position : Position.of p.before p.depth = .range ∨ Position.of p.before p.depth = .offset

/-- **A query whose variables all stand for intervals**, Grafana's own aside. -/
def IntervalsOnly (templates : List Template) (query : List Char) : Prop :=
  ∀ front p r back, ComesTo templates query front p r back →
    (Piece.reference r).isDeclared templates = true → IsInterval front p back

instance (front : List Piece) (p : Progress) (back : List Piece) :
    Decidable (IsInterval front p back) :=
  decidable_of_iff ((front.flatMap Piece.text).getLast?.any opensTime = true ∧
      headCloses (back.flatMap Piece.text) = true ∧
      (Position.of p.before p.depth = .range ∨ Position.of p.before p.depth = .offset)) <| by
    rw [headCloses_iff, Option.any_eq_true]
    exact ⟨fun ⟨hopened, hclosed, hposition⟩ => ⟨hopened, hclosed, hposition⟩,
      fun h => ⟨h.opened, h.closed, h.position⟩⟩

/-- Whether all references that expansion comes to, with `p` written of the pieces `front`, are of a
kind. -/
def allReferences (templates : List Template)
    (kind : List Piece → Progress → Reference → List Piece → Bool) :
    List Piece → Progress → List Piece → Bool
  | _, _, [] => true
  | front, p, piece :: back =>
    (match piece with
      | .reference r => kind front p r back
      | _ => true) &&
    match p.write templates piece with
    | .ok q => allReferences templates kind (front ++ [piece]) q back
    | .error _ => true

theorem allReferences_iff {templates : List Template}
    {kind : List Piece → Progress → Reference → List Piece → Bool} {front ps : List Piece}
    {p : Progress} : allReferences templates kind front p ps = true ↔
      ∀ pre q r post, ps = pre ++ .reference r :: post →
        pre.foldlM (Progress.write templates) p = .ok q → kind (front ++ pre) q r post = true := by
  induction ps generalizing front p with
  | nil => simp [allReferences]
  | cons piece back ih =>
    unfold allReferences
    rw [Bool.and_eq_true]
    constructor
    · rintro ⟨hkind, hback⟩ pre q r post hps hrun
      cases pre with
      | nil =>
        obtain ⟨rfl, rfl⟩ := List.cons.inj hps
        cases hrun
        simpa using hkind
      | cons _ pre =>
        obtain ⟨rfl, rfl⟩ := List.cons.inj hps
        rw [List.foldlM_cons] at hrun
        cases hw : p.write templates piece with
        | error e => rw [hw] at hrun; cases hrun
        | ok q' =>
          rw [hw] at hback hrun
          simpa using ih.mp hback pre q r post rfl hrun
    · intro h
      constructor
      · cases piece with
        | reference r => simpa using h [] p r back rfl rfl
        | _ => rfl
      · cases hw : p.write templates piece with
        | error e => rfl
        | ok q' =>
          refine ih.mpr fun pre q r post hps hrun => ?_
          have hstep : (piece :: pre).foldlM (Progress.write templates) p = .ok q := by
            rw [List.foldlM_cons, hw]
            exact hrun
          simpa using h (piece :: pre) q r post (by rw [hps, List.cons_append]) hstep

instance (templates : List Template) (query : List Char) :
    Decidable (IntervalsOnly templates query) :=
  decidable_of_iff (allReferences templates (fun front p r back =>
      decide ((Piece.reference r).isDeclared templates = true → IsInterval front p back)) [] {}
        (pieces query) = true) <| by
    rw [allReferences_iff]
    constructor
    · intro h front p r back hto
      exact of_decide_eq_true (h front p r back hto.pieces hto.written)
    · intro h pre q r post hps hrun
      exact decide_eq_true (h pre q r post ⟨hps, hrun⟩)

/-- What opens the duration stands last in what has been written. -/
theorem IsInterval.exists_before {templates : List Template} {p : Progress} {r : Reference}
    (h : IsInterval front p back) (hto : ComesTo templates query front p r back) :
    ∃ c before₀, p.before = c :: before₀ ∧ opensTime c = true := by
  obtain ⟨front₀, c, rfl, hopens⟩ := exists_kept_of_opened hto.pieces h.opened
  have hwritten := hto.written
  rw [List.foldlM_append] at hwritten
  cases hq : front₀.foldlM (Progress.write templates) {} with
  | error e => rw [hq] at hwritten; cases hwritten
  | ok q =>
    rw [hq] at hwritten
    obtain rfl : ⟨c :: q.before, bracketDepth q.depth c⟩ = p := Except.ok.inj hwritten
    exact ⟨c, q.before, rfl, hopens⟩

/-- Selected values are durations that the parser accepts if they have the shape of one. -/
def TimesRead (templates : List Template) : Prop :=
  ∀ t ∈ templates, ∀ v ∈ t.currentValue, isDuration v.toList = true → IsTime v.toList

/-- **Lists under which a query can be compared**: they declare the same names in the same order,
their values are no durations or such as the parser accepts, and the variables of the query all stand
for intervals under the first. -/
structure Comparable (templates templates' : List Template) (query : List Char) : Prop where
  names : templates.map Template.name = templates'.map Template.name
  times : TimesRead templates
  times' : TimesRead templates'
  intervals : IntervalsOnly templates query

section Lists

variable {templates templates' : List Template} {r : Reference}

theorem isDeclared_congr (hnames : templates.map Template.name = templates'.map Template.name)
    (piece : Piece) : piece.isDeclared templates = piece.isDeclared templates' := by
  have hnone : ∀ name, findTemplate? templates name = none ↔ findTemplate? templates' name = none := by
    intro name
    have hmem : ∀ ts : List Template, (∃ t ∈ ts, t.name = String.ofList name) ↔
        String.ofList name ∈ ts.map Template.name := fun ts => List.mem_map.symm
    rw [findTemplate?_eq_none_iff, findTemplate?_eq_none_iff, hmem, hmem, hnames]
  cases piece with
  | reference r =>
    have hsome : (findTemplate? templates r.name).isSome = (findTemplate? templates' r.name).isSome := by
      rw [Bool.eq_iff_iff, Option.isSome_iff_ne_none, Option.isSome_iff_ne_none, Ne, Ne, hnone]
    simp only [Piece.isDeclared, hsome]
  | _ => rfl

/-- What stands in for an interval is a duration that the parser accepts. -/
theorem isTime_standIn {name : List Char} {current : Option (List Char)} {p : Position}
    (hcurrent : ∀ v ∈ current, isDuration v = true → IsTime v) (hp : p = .range ∨ p = .offset) :
    IsTime (standIn name current p) := by
  have hvalue : IsTime ((current.filter isDuration).getD "5m".toList) := by
    cases hf : current.filter isDuration with
    | none => exact isTime_plain
    | some v =>
      obtain ⟨hv, hshape⟩ := Option.filter_eq_some_iff.mp hf
      exact hcurrent v hv hshape
  rcases hp with rfl | rfl <;> exact hvalue

/-- **An interval becomes a duration that the parser accepts.** -/
theorem exists_substitute_of_isDeclared (hdeclared : (Piece.reference r).isDeclared templates = true)
    (htimes : TimesRead templates) {p : Position} (hp : p = .range ∨ p = .offset) :
    ∃ v, substitute templates r.name p = .ok v ∧ IsTime v := by
  simp only [Piece.isDeclared, Bool.and_eq_true, Bool.not_eq_true'] at hdeclared
  obtain ⟨t, hfind⟩ := Option.isSome_iff_exists.mp hdeclared.2
  refine ⟨_, substitute_of_template hdeclared.1 hfind p, isTime_standIn (fun v hv hshape => ?_) hp⟩
  obtain ⟨value, hvalue, rfl⟩ := Option.map_eq_some_iff.mp hv
  exact htimes t (List.mem_of_find?_eq_some hfind) value hvalue hshape

/-- **Other references become the same** under both lists and everywhere. -/
theorem substitute_of_not_isDeclared
    (hnames : templates.map Template.name = templates'.map Template.name)
    (hdeclared : (Piece.reference r).isDeclared templates = false) (p p' : Position) :
    substitute templates r.name p = substitute templates' r.name p' := by
  cases hglobal : globalPrefix.isPrefixOf r.name with
  | true =>
    rw [substitute_of_global hglobal p p']
    exact substitute_congr (fun h => absurd (List.isPrefixOf_iff_prefix.mp hglobal) h) p'
  | false =>
    have herror : ∀ {ts : List Template} (q : Position), (Piece.reference r).isDeclared ts = false →
        substitute ts r.name q = .error (.ofName r.name) := by
      intro ts q h
      have hno : findTemplate? ts r.name = none := by simpa [Piece.isDeclared, hglobal] using h
      have hprefix : ¬ globalPrefix <+: r.name := by
        rw [← List.isPrefixOf_iff_prefix, hglobal]
        simp
      refine (substitute_eq_error_iff q).mpr ⟨?_, rfl⟩
      rw [resolvable_declared_iff hprefix]
      exact findTemplate?_eq_none_iff.mp hno
    rw [herror p hdeclared, herror p' (isDeclared_congr hnames _ ▸ hdeclared)]

end Lists

/-! ## 5. Expansion under two lists -/

/-- **What expansion has written under two lists** before `cs`: the same up to durations. -/
structure Alongside (Q : List Char → Prop) (cs : List Char) (p p' : Progress) : Prop where
  text : Retimed Q (headCloses cs) p.before p'.before
  depth : p'.depth = p.depth

section Runs

variable {templates templates' : List Template} {p p' : Progress}

/-- What is not declared is written under both lists or under none. -/
theorem concur_write_foreign
    (hnames : templates.map Template.name = templates'.map Template.name)
    (hps : pieces query = front ++ piece :: back) (hdeclared : piece.isDeclared templates = false)
    (h : Alongside Q (piece.text ++ cs) p p') :
    Concur (Alongside Q cs) (p.write templates piece) (p'.write templates' piece) := by
  cases piece with
  | kept c => cases hdeclared
  | literal t => cases hdeclared
  | reference r =>
    have htext := h.text
    rw [head_of_piece hps (by simp)] at htext
    simp only [Progress.write]
    rw [substitute_of_not_isDeclared hnames hdeclared _ (Position.of p'.before p'.depth)]
    cases substitute templates' r.name (Position.of p'.before p'.depth) with
    | error e => exact Concur.error e e
    | ok t => exact Concur.ok ⟨(htext.append t.reverse).of_false, h.depth⟩

/-- An interval is written as one duration or another. -/
theorem concur_write_interval {r : Reference} (hlists : Comparable templates templates' query)
    (hto : ComesTo templates query front p r back)
    (hdeclared : (Piece.reference r).isDeclared templates = true) (hplace : Q p.before)
    (h : Alongside Q cs p p') :
    Concur (Alongside Q (back.flatMap Piece.text)) (p.write templates (.reference r))
      (p'.write templates' (.reference r)) := by
  have hinterval := hlists.intervals front p r back hto hdeclared
  have hposition : Position.of p'.before p'.depth = Position.of p.before p.depth := by
    rw [h.depth]
    exact h.text.position hinterval.position
  obtain ⟨v, hsub, htime⟩ :=
    exists_substitute_of_isDeclared hdeclared hlists.times hinterval.position
  obtain ⟨v', hsub', htime'⟩ := exists_substitute_of_isDeclared
    (isDeclared_congr hlists.names _ ▸ hdeclared) hlists.times' hinterval.position
  -- a character that stays stands before the reference in both texts
  obtain ⟨c, before₀, hbefore, hopens⟩ := hinterval.exists_before hto
  have htext := h.text
  rw [hbefore] at htext hplace
  obtain ⟨before', hbefore', htail⟩ := htext.eq_cons (not_mem_unitLetters_of_opensTime hopens)
  simp only [Progress.write, hposition, hsub, hsub', Except.map]
  refine Concur.ok ⟨?_, h.depth⟩
  rw [headCloses_iff.mpr hinterval.closed, hbefore, hbefore']
  exact Retimed.time hopens htime htime' hplace htail

/-- **One step of expansion under two lists.** -/
theorem concur_write (hlists : Comparable templates templates' query)
    (hplaces : ∀ front p r back, ComesTo templates query front p r back →
      (Piece.reference r).isDeclared templates = true → Q p.before)
    (hps : pieces query = front ++ piece :: back)
    (hwritten : front.foldlM (Progress.write templates) {} = .ok p)
    (h : Alongside Q ((piece :: back).flatMap Piece.text) p p') :
    Concur (Alongside Q (back.flatMap Piece.text)) (p.write templates piece)
      (p'.write templates' piece) := by
  rw [List.flatMap_cons] at h
  cases hdeclared : piece.isDeclared templates with
  | false => exact concur_write_foreign hlists.names hps hdeclared h
  | true =>
    cases piece with
    | kept c =>
      refine Concur.ok ⟨Retimed.kept h.text, ?_⟩
      show bracketDepth p'.depth c = bracketDepth p.depth c
      rw [h.depth]
    | literal t =>
      have htext := h.text
      rw [head_of_piece hps (by simp)] at htext
      exact Concur.ok ⟨(htext.append t.reverse).of_false, h.depth⟩
    | reference r =>
      have hto : ComesTo templates query front p r back := ⟨hps, hwritten⟩
      exact concur_write_interval hlists hto hdeclared (hplaces _ _ _ _ hto hdeclared) h

/-- **A run of expansion under two lists** stops under both or under none, and what it has written is
the same up to durations. -/
theorem concur_run (hlists : Comparable templates templates' query)
    (hplaces : ∀ front p r back, ComesTo templates query front p r back →
      (Piece.reference r).isDeclared templates = true → Q p.before)
    (hps : pieces query = front ++ back) :
    Concur (Alongside Q (back.flatMap Piece.text)) (front.foldlM (Progress.write templates) {})
      (front.foldlM (Progress.write templates') {}) := by
  induction front using List.reverseRecOn generalizing back with
  | nil => exact Concur.ok ⟨Retimed.nil, rfl⟩
  | append_singleton front piece ih =>
    rw [List.append_assoc, List.singleton_append] at hps
    have hfront := ih hps
    rw [List.foldlM_append, List.foldlM_append]
    generalize hx : front.foldlM (Progress.write templates) {} = x at hfront ⊢
    generalize front.foldlM (Progress.write templates') {} = x' at hfront ⊢
    cases hfront with
    | error e e' => exact Concur.error e e'
    | ok h =>
      have hstep := concur_write hlists hplaces hps hx h
      exact hstep.bind fun _ _ => Concur.ok

end Runs

end PanelLint.Query
