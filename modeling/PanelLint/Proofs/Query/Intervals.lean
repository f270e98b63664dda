import PanelLint.Proofs.Query.Expansions
/-!
# Variables for intervals

It should not matter which duration is selected for an interval.  Under two lists of variables that
declare the same names the intervals of a query stand at the same positions, and the two expansions
differ in durations at most.  The lexer takes these as durations, unless it comes to them in a string
literal or a name: a comment and a backtick behind a backslash can make it see brackets as text that
expansion sees as code.

* `noneTakenIn_of_legible`: a query that expansion and the lexer cut alike has no such place;
* `parse_of_intervals`: without such a place, the query is accepted under both lists or under none,
  and the two expressions are the same but for numbers and lengths of time;
* `interval_values_matter`: queries with such a place that are accepted with one duration and refused
  with another, or are other expressions.
-/

namespace PanelLint.Query

open PanelLint.Text PanelLint.Promql PanelLint.Promql.Lexer

/-! ## 1. Texts that expansion and the lexer cut alike -/

/-- **Code and whole literals**, without comments and without backslashes between backticks, which
lead from one number of open brackets to another. -/
inductive CutAlike : Nat → List Char → Nat → Prop
  | nil {depth : Nat} : CutAlike depth [] depth
  | kept {depth depth' : Nat} {c : Char} {cs : List Char} : isQuote c = false → c ≠ '#' →
      CutAlike (bracketDepth depth c) cs depth' → CutAlike depth (c :: cs) depth'
  | literal {depth depth' : Nat} {quote : Char} {body cs : List Char} : isQuote quote = true →
      closes quote body = true → (quote = backtick → '\\' ∉ body) → CutAlike depth cs depth' →
      CutAlike depth (quote :: body ++ cs) depth'

variable {templates templates' : List Template} {query : List Char} {front back : List Piece}
  {piece : Piece} {p q : Progress} {r : Reference}
  {depth depth' depth'' : Nat} {c d : Char} {w x y cs rest : List Char} {s s' : State}
  {t : Option Token} {ts : List Token}

theorem CutAlike.append (h : CutAlike depth x depth') (h' : CutAlike depth' y depth'') :
    CutAlike depth (x ++ y) depth'' := by
  induction h with
  | nil => exact h'
  | kept hq hc _ ih => exact CutAlike.kept hq hc (ih h')
  | literal hq hcloses hplain _ ih =>
    rw [List.append_assoc]
    exact CutAlike.literal hq hcloses hplain (ih h')

theorem cutAlike_of_inert (hw : ∀ c ∈ w, isInert c = true) : CutAlike depth w depth := by
  induction w with
  | nil => exact CutAlike.nil
  | cons c w ih =>
    have hc := hw c List.mem_cons_self
    refine CutAlike.kept (not_isQuote_of_isInert hc) ?_ ?_
    · rintro rfl
      exact absurd hc (by decide)
    · rw [bracketDepth_of_isInert hc]
      exact ih fun d hd => hw d (List.mem_cons_of_mem c hd)

theorem CutAlike.depth_of_inert (h : CutAlike depth w depth') (hw : ∀ c ∈ w, isInert c = true) :
    depth' = depth := by
  induction h with
  | nil => rfl
  | kept _ _ _ ih =>
    rw [ih fun d hd => hw d (List.mem_cons_of_mem _ hd),
      bracketDepth_of_isInert (hw _ List.mem_cons_self)]
  | literal hq _ _ _ _ =>
    rw [not_isQuote_of_isInert (hw _ List.mem_cons_self)] at hq
    cases hq

/-- A front part without quotes is code. -/
theorem CutAlike.tail (h : CutAlike depth (x ++ y) depth') (hx : ∀ c ∈ x, isQuote c = false) :
    CutAlike (openBrackets depth x) y depth' := by
  induction x generalizing depth with
  | nil => exact h
  | cons c x ih =>
    generalize htext : c :: x ++ y = text at h
    cases h with
    | nil => cases htext
    | kept _ _ htail =>
      obtain ⟨rfl, rfl⟩ := List.cons.inj htext
      exact ih htail fun d hd => hx d (List.mem_cons_of_mem c hd)
    | literal hq _ _ _ =>
      obtain ⟨rfl, -⟩ := List.cons.inj htext
      rw [hx c List.mem_cons_self] at hq
      cases hq

/-! ## 2. The lexer over such texts -/

/-- A literal is one token. -/
theorem step_of_closes {quote : Char} {body : List Char} (hq : isQuote quote = true)
    (hcloses : closes quote body = true) (hplain : quote = backtick → '\\' ∉ body)
    (hstep : step s quote (body ++ cs) = .ok (t, s', rest)) : s' = s ∧ rest = cs := by
  obtain ⟨-, rfl, text, hread, -⟩ := string_of_step hq hstep
  exact ⟨rfl, rest_of_literal hq (closeLiteral_of_closes cs hcloses) hplain hread⟩

/-- **A step that ends within such a text** leaves the lexer with as many brackets open as the code. -/
theorem CutAlike.step (h : CutAlike s.mode.openBrackets x depth) (hx : x ++ y = c :: cs)
    (hstep : step s c cs = .ok (t, s', rest)) (hle : y.length ≤ rest.length) :
    ∃ x', x' <:+ x ∧ rest = x' ++ y ∧ CutAlike s'.mode.openBrackets x' depth := by
  have hlt := step_length hstep
  cases h with
  | nil =>
    obtain rfl : y = c :: cs := hx
    rw [List.length_cons] at hle
    omega
  | @kept _ _ _ x hq hc htail =>
    obtain ⟨rfl, rfl⟩ := List.cons.inj hx
    obtain ⟨w, hw, htook⟩ := took_of_step hstep
    obtain ⟨x', rfl, rfl⟩ : ∃ x', x = w ++ x' ∧ rest = x' ++ y := by
      rcases List.append_eq_append_iff.mp hw with ⟨z, rfl, rfl⟩ | ⟨z, rfl, rfl⟩
      · rw [List.length_append] at hle
        obtain rfl : z = [] := List.length_eq_zero_iff.mp (by omega)
        exact ⟨[], by simp, rfl⟩
      · exact ⟨z, rfl, rfl⟩
    have hplain : ∀ d ∈ w, isQuote d = false := by
      intro d hd
      rcases htook.inert_or_bracket hq hc with hinert | ⟨-, rfl⟩
      · exact not_isQuote_of_isInert (hinert d (List.mem_cons_of_mem _ hd))
      · cases hd
    refine ⟨x', ⟨_ :: w, rfl⟩, rfl, ?_⟩
    rw [← htook.openBrackets_eq hq hc]
    exact htail.tail hplain
  | @literal _ _ quote body x' hq hcloses hplain htail =>
    rw [List.append_assoc, List.cons_append] at hx
    obtain ⟨rfl, rfl⟩ := List.cons.inj hx
    obtain ⟨rfl, rfl⟩ := step_of_closes hq hcloses hplain hstep
    exact ⟨x', List.suffix_append _ _, rfl, htail⟩

/-- **A run that ends within such a text**, in the same way. -/
theorem CutAlike.run (h : CutAlike s.mode.openBrackets x depth) (hrun : Run s (x ++ y) ts s' rest)
    (hle : y.length ≤ rest.length) :
    ∃ x', x' <:+ x ∧ rest = x' ++ y ∧ CutAlike s'.mode.openBrackets x' depth := by
  generalize hcs : x ++ y = cs at hrun
  induction hrun generalizing x with
  | done => exact ⟨x, List.suffix_rfl, hcs.symm, h⟩
  | step hstep hrun ih =>
    obtain ⟨x₁, hsuffix, rfl, h₁⟩ := h.step hcs hstep (Nat.le_trans hle hrun.length_le)
    obtain ⟨x', hsuffix', hrest, h'⟩ := ih h₁ hle rfl
    exact ⟨x', hsuffix'.trans hsuffix, hrest, h'⟩

/-- **Behind such a text no literal and no name goes on into a digit**, if what opens a duration comes
last, and a colon only in brackets. -/
theorem unbroken_of_cutAlike (h : CutAlike 0 x depth) (hlast : x.getLast? = some d)
    (hopens : opensTime d = true) (hcolon : d = ':' → 0 < depth)
    (hdigit : ∃ e ∈ y.head?, e.isDigit = true) : Unbroken (x ++ y) y := by
  intro ts s c cs t s' rest hrun hstep hlt hle
  obtain ⟨x', ⟨z, rfl⟩, hx', h'⟩ := h.run (s := {}) hrun (Nat.le_succ_of_le hle)
  cases h' with
  | nil =>
    have hlength := congrArg List.length hx'
    rw [List.length_cons, List.nil_append] at hlength
    omega
  | literal hq hcloses hplain htail =>
    rw [List.append_assoc, List.cons_append] at hx'
    obtain ⟨rfl, rfl⟩ := List.cons.inj hx'
    obtain ⟨rfl, rfl⟩ := step_of_closes hq hcloses hplain hstep
    rw [List.length_append] at hlt
    omega
  | @kept _ _ _ a hq hc htail =>
    obtain ⟨rfl, rfl⟩ := List.cons.inj hx'
    obtain ⟨w, hw, htook⟩ := took_of_step hstep
    -- the token holds what stands before the place and the digit behind it
    obtain ⟨e, he, hdigit⟩ := hdigit
    obtain ⟨y', rfl⟩ := List.head?_eq_some_iff.mp he
    obtain ⟨b, rfl⟩ : ∃ b, w = a ++ e :: b := by
      rcases List.append_eq_append_iff.mp hw with ⟨b, rfl, hb⟩ | ⟨b, rfl, rfl⟩
      · cases b with
        | nil =>
          obtain rfl : e :: y' = rest := hb
          omega
        | cons _ b =>
          obtain ⟨rfl, -⟩ := List.cons.inj hb
          exact ⟨b, rfl⟩
      · rw [List.length_append] at hlt
        omega
    have hd : d ∈ c :: (a ++ e :: b) := by
      rw [List.getLast?_append, List.getLast?_cons, Option.some_or, ← List.getLast?_cons] at hlast
      exact List.mem_append_left (e :: b) (List.mem_of_getLast? hlast)
    obtain ⟨-, u, hu, hread, -⟩ | ⟨-, -, hm, -, hname, rfl⟩ :=
      Took.number_or_name htook hc hq hd hopens (by simp) hdigit
    · obtain rfl := Option.some.inj hu
      exact isQuantity_of_readNumber hread
    · -- a name with a colon in it would be taken where a bracket is open
      have hinert : ∀ x ∈ c :: a, isInert x = true := fun x hx =>
        isInert_of_class (p := isNameRest) (by decide) (hname x (List.mem_append_left (e :: b) hx))
      have hdepth := (CutAlike.kept hq hc htail).depth_of_inert hinert
      rw [hm] at hdepth
      have hpos := hcolon rfl
      rw [hdepth] at hpos
      cases hpos

/-! ## 3. Expansions of legible queries -/

/-- **A query that expansion and the lexer cut alike**: its code holds no comment, and its literals no
backslash between backticks. -/
structure Legible (query : List Char) : Prop where
  comments : .kept '#' ∉ pieces query
  backticks : ∀ body, .literal (backtick :: body) ∈ pieces query → '\\' ∉ body

/-- A query without comments and backticks is legible. -/
theorem legible_of_all {query : List Char}
    (h : (pieces query).all (fun p => p != .kept '#' && p.text.head? != some backtick) = true) :
    Legible query := by
  have hall := List.all_eq_true.mp h
  constructor
  · intro hmem
    exact absurd (hall _ hmem) (by simp)
  · intro body hmem
    exact absurd (hall _ hmem) (by simp [Piece.text])

/-- **What expansion writes for a piece of a legible query**, something following it. -/
theorem cutAlike_write (hlegible : Legible query) (hps : pieces query = front ++ piece :: back)
    (hback : back ≠ []) (hwrite : p.write templates piece = .ok q) :
    ∃ w, q.before = w.reverse ++ p.before ∧ CutAlike p.depth w q.depth := by
  have hlaid := laid_of_append (hps ▸ laid_pieces query)
  have hmem : piece ∈ pieces query := by simp [hps]
  cases hlaid with
  | @kept c _ hq _ =>
    cases hwrite
    refine ⟨[c], rfl, CutAlike.kept hq ?_ CutAlike.nil⟩
    rintro rfl
    exact hlegible.comments hmem
  | @reference r _ hname _ =>
    simp only [Progress.write] at hwrite
    cases hsub : substitute templates r.name (Position.of p.before p.depth) with
    | error e => rw [hsub] at hwrite; cases hwrite
    | ok t =>
      rw [hsub] at hwrite
      cases hwrite
      exact ⟨t, rfl, cutAlike_of_inert (inert_substitute hname hsub).2⟩
  | @literal quote body _ hq hcloses _ =>
    cases hwrite
    have hcut : CutAlike p.depth (quote :: body ++ []) p.depth :=
      CutAlike.literal hq hcloses (fun heq => hlegible.backticks body (heq ▸ hmem)) CutAlike.nil
    rw [List.append_nil] at hcut
    exact ⟨quote :: body, rfl, hcut⟩
  | openLiteral _ _ => exact absurd rfl hback

/-- **What expansion writes before some pieces of a legible query.** -/
theorem cutAlike_run (hlegible : Legible query) (hps : pieces query = front ++ back) (hback : back ≠ [])
    (hrun : front.foldlM (Progress.write templates) {} = .ok p) :
    CutAlike 0 p.before.reverse p.depth := by
  induction front using List.reverseRecOn generalizing back p with
  | nil =>
    cases hrun
    exact CutAlike.nil
  | append_singleton front piece ih =>
    rw [List.append_assoc, List.singleton_append] at hps
    rw [List.foldlM_append] at hrun
    cases hfront : front.foldlM (Progress.write templates) {} with
    | error e => rw [hfront] at hrun; cases hrun
    | ok q =>
      rw [hfront] at hrun
      have hwrite : q.write templates piece = .ok p := by
        cases hw : q.write templates piece with
        | error e => simp [hw, bind, Except.bind] at hrun
        | ok q' => simpa [hw, bind, Except.bind, pure, Except.pure] using hrun
      obtain ⟨w, hbefore, hcut⟩ := cutAlike_write hlegible hps hback hwrite
      rw [hbefore, List.reverse_append, List.reverse_reverse]
      exact (ih hps (by simp) hfront).append hcut

/-- What has been written stays the front of what is written. -/
theorem exists_before_of_run {ps : List Piece} (h : ps.foldlM (Progress.write templates) p = .ok q) :
    ∃ w : List Char, q.before = w.reverse ++ p.before := by
  obtain ⟨record, -, rfl, -⟩ := foldlM_write_eq_ok_iff.mp h
  exact ⟨_, rfl⟩

/-- **Where an expansion goes on with the text of a reference.** -/
theorem ComesTo.exists_whole {whole : List Char} (h : ComesTo templates query front p r back)
    (hexpand : expand templates query = .ok whole) :
    ∃ v rest, substitute templates r.name (Position.of p.before p.depth) = .ok v ∧
      whole = p.before.reverse ++ (v ++ rest) := by
  unfold expand at hexpand
  rw [h.pieces, List.foldlM_append, h.written] at hexpand
  cases hsub : substitute templates r.name (Position.of p.before p.depth) with
  | error e => simp [Progress.write, hsub, Except.map, bind, Except.bind] at hexpand
  | ok v =>
    have hrun : (back.foldlM (Progress.write templates) ⟨v.reverse ++ p.before, p.depth⟩).map
        (fun q => q.before.reverse) = .ok whole := by
      simpa [Progress.write, hsub, Except.map, bind, Except.bind] using hexpand
    cases hq : back.foldlM (Progress.write templates) ⟨v.reverse ++ p.before, p.depth⟩ with
    | error e => rw [hq] at hrun; cases hrun
    | ok q =>
      obtain ⟨rest, hbefore⟩ := exists_before_of_run hq
      rw [hq] at hrun
      obtain rfl : q.before.reverse = whole := Except.ok.inj hrun
      exact ⟨v, rest, rfl, by simp [hbefore]⟩

/-- A colon stands before an interval only in brackets. -/
theorem IsInterval.depth_pos (h : IsInterval front p back) (hbefore : p.before = ':' :: w) :
    0 < p.depth := by
  by_contra hdepth
  have hoffset : endsWithOffset p.before = false := by
    rw [hbefore, endsWithOffset, dropBlanks_cons (by decide)]
    exact endsWithWord_cons (by decide)
  have hposition := h.position
  unfold Position.of at hposition
  rw [if_neg hdepth, if_neg (by simp [hoffset])] at hposition
  split at hposition <;> simp at hposition

/-- **No string literal and no name of PromQL takes an interval in**: in the expansion of a query, a
token that begins before what is written for a variable and ends behind that place is a number or a
duration. -/
def NoneTakenIn (templates : List Template) (query : List Char) : Prop :=
  ∀ whole, expand templates query = .ok whole →
    ∀ front p r back, ComesTo templates query front p r back →
      (Piece.reference r).isDeclared templates = true → Unbroken whole (whole.drop p.before.length)

/-- **Nothing takes an interval in where expansion and the lexer cut the query alike.** -/
theorem noneTakenIn_of_legible (hlegible : Legible query) (htimes : TimesRead templates)
    (hintervals : IntervalsOnly templates query) : NoneTakenIn templates query := by
  intro whole hexpand front p r back hto hdeclared
  have hinterval := hintervals front p r back hto hdeclared
  obtain ⟨v, rest, hsub, rfl⟩ := hto.exists_whole hexpand
  obtain ⟨v', hsub', htime⟩ := exists_substitute_of_isDeclared hdeclared htimes hinterval.position
  obtain rfl : v = v' := Except.ok.inj (hsub.symm.trans hsub')
  obtain ⟨d, before₀, hbefore, hopens⟩ := hinterval.exists_before hto
  obtain ⟨e, w, rfl, he, -⟩ := htime.readNumber
  have hcut := cutAlike_run hlegible hto.pieces (by simp) hto.written
  rw [← List.length_reverse, List.drop_left]
  have hlast : p.before.reverse.getLast? = some d := by
    rw [List.getLast?_reverse, hbefore]
    rfl
  have hhead : ∃ x ∈ ((e :: w) ++ rest).head?, x.isDigit = true := ⟨e, rfl, he⟩
  exact unbroken_of_cutAlike hcut hlast hopens (fun hd => hinterval.depth_pos (hd ▸ hbefore)) hhead

/-! ## 4. The value of an interval -/

/-- **Expansions under two lists** differ in durations at most. -/
theorem concur_expand (hlists : Comparable templates templates' query)
    (hnone : NoneTakenIn templates query) :
    Concur (fun whole whole' => Varied (Unbroken whole) none whole whole') (expand templates query)
      (expand templates' query) := by
  have hall : pieces query = pieces query ++ [] := (List.append_nil _).symm
  cases hexpand : expand templates query with
  | error e =>
    have hrun := concur_run (Q := fun _ => True) hlists (fun _ _ _ _ _ _ => trivial) hall
    have hmap := hrun.map (S := fun _ _ => True) (f := fun p => p.before.reverse)
      (g := fun p => p.before.reverse) fun _ _ _ => trivial
    rw [← expand, ← expand, hexpand] at hmap
    generalize expand templates' query = y at hmap ⊢
    cases hmap with
    | error _ e' => exact Concur.error e e'
  | ok whole =>
    have hrun := concur_run (Q := fun before => Unbroken whole (whole.drop before.length)) hlists
      (hnone whole hexpand) hall
    unfold expand at hexpand ⊢
    generalize (pieces query).foldlM (Progress.write templates) {} = x at hrun hexpand
    generalize (pieces query).foldlM (Progress.write templates') {} = y at hrun ⊢
    cases hrun with
    | error e e' => cases hexpand
    | @ok p p' h =>
      obtain rfl : p.before.reverse = whole := Except.ok.inj hexpand
      have hvaried := h.text.varied (P := Unbroken p.before.reverse) (fun _ => rfl)
        (List.append_nil _) (fun front back hfront hback => ?_) Varied.nil
      · rw [List.append_nil, List.append_nil] at hvaried
        exact Concur.ok hvaried
      · have hdrop : p.before.reverse.drop front.length = back := by
          rw [← hback, ← List.length_reverse, List.drop_left]
        rwa [hdrop] at hfront

/-- **Queries under two lists have the same outcome**, numbers and lengths of time aside. -/
theorem concur_parse_query (hlists : Comparable templates templates' query)
    (hnone : NoneTakenIn templates query) :
    Concur (fun e e' => e.erased = e'.erased) (parse templates query) (parse templates' query) := by
  have hexpand := concur_expand hlists hnone
  unfold parse
  generalize expand templates query = x at hexpand ⊢
  generalize expand templates' query = y at hexpand ⊢
  cases hexpand with
  | error e e' => exact Concur.error _ _
  | @ok whole whole' hvaried =>
    have hparse := concur_parse (concur_tokens hvaried)
    dsimp only
    generalize Promql.parse whole = x at hparse ⊢
    generalize Promql.parse whole' = y at hparse ⊢
    cases hparse with
    | error e e' => cases e <;> cases e' <;> exact Concur.error _ _
    | ok h => exact Concur.ok h

/-- **The value of an interval variable does not change what a query is.**  Under two lists of
variables with the same names, the intervals of a query stand at the same positions; and where no
literal and no name takes one in, the query is accepted under both or under none, and the two
expressions are the same but for numbers and lengths of time. -/
theorem parse_of_intervals (templates templates' : List Template) (query : List Char)
    (hlists : Comparable templates templates' query) :
    (∀ front p r back, ComesTo templates query front p r back →
      (Piece.reference r).isDeclared templates = true →
        ∃ p', ComesTo templates' query front p' r back ∧
          Position.of p'.before p'.depth = Position.of p.before p.depth) ∧
      (NoneTakenIn templates query →
        ((∃ e, parse templates query = .ok e) ↔ ∃ e', parse templates' query = .ok e') ∧
          ∀ e e', parse templates query = .ok e → parse templates' query = .ok e' →
            e.erased = e'.erased) := by
  constructor
  · intro front p r back hto hdeclared
    have hrun := concur_run (Q := fun _ => True) hlists (fun _ _ _ _ _ _ => trivial) hto.pieces
    rw [hto.written] at hrun
    generalize hwritten : front.foldlM (Progress.write templates') {} = x at hrun
    cases hrun with
    | @ok _ p' h =>
      refine ⟨p', ⟨hto.pieces, hwritten⟩, ?_⟩
      rw [h.depth]
      exact h.text.position (hlists.intervals front p r back hto hdeclared).position
  · intro hnone
    have hparse := concur_parse_query hlists hnone
    exact ⟨hparse.isOk_iff, fun e e' he he' => hparse.related he he'⟩

/-- A variable for an interval with a selected value. -/
def intervalOf (value : String) : List Template :=
  [{ name := "v", kind := "interval", current := some ⟨some (.single value)⟩ }]

theorem comparable_intervalOf {value value' query : String} (htime : IsTime value.toList)
    (htime' : IsTime value'.toList) (hintervals : IntervalsOnly (intervalOf value) query.toList) :
    Comparable (intervalOf value) (intervalOf value') query.toList := by
  have htimes : ∀ {v : String}, IsTime v.toList → TimesRead (intervalOf v) := by
    intro v hv t ht value hvalue _
    obtain rfl := List.mem_singleton.mp ht
    obtain rfl : v = value := by simpa [Template.currentValue] using hvalue
    exact hv
  exact ⟨rfl, htimes htime, htimes htime', hintervals⟩

theorem isTime_hour : IsTime "1h".toList where
  shape := by decide
  token := by decide +kernel
  length := exists_of_isOk (by decide +kernel)

/-- A rate is one whatever its window is. -/
theorem parse_of_intervals_rate : ∃ e e',
    Comparable (intervalOf "5m") (intervalOf "1h") "rate(up[$v] offset $v)".toList ∧
    NoneTakenIn (intervalOf "5m") "rate(up[$v] offset $v)".toList ∧
    parse (intervalOf "5m") "rate(up[$v] offset $v)".toList = .ok e ∧
    parse (intervalOf "1h") "rate(up[$v] offset $v)".toList = .ok e' ∧ e.erased = e'.erased := by
  have hlists : Comparable (intervalOf "5m") (intervalOf "1h") "rate(up[$v] offset $v)".toList :=
    comparable_intervalOf isTime_plain isTime_hour (by decide +kernel)
  have hnone := noneTakenIn_of_legible (legible_of_all (by decide +kernel)) hlists.times
    hlists.intervals
  obtain ⟨e, he⟩ := exists_of_isOk
    (show (parse (intervalOf "5m") "rate(up[$v] offset $v)".toList).isOk = true by decide +kernel)
  obtain ⟨haccepted, herased⟩ := (parse_of_intervals _ _ _ hlists).2 hnone
  obtain ⟨e', he'⟩ := haccepted.mp ⟨e, he⟩
  exact ⟨e, e', hlists, hnone, he, he', herased e e' he he'⟩

/-- What a query selects as a vector. -/
def selectionOf? : Expr → Option Selection
  | .vector s _ _ => some s
  | _ => none

theorem selectionOf?_erased (e : Expr) : selectionOf? e.erased = selectionOf? e := by
  cases e with
  | aggregate op g param e => cases param <;> rfl
  | _ => rfl

/-- What a query selects with a value for the interval. -/
def selectedWith? (value query : String) : Option Selection :=
  (parse (intervalOf value) query.toList).toOption.bind selectionOf?

theorem exists_of_selectedWith? {value query : String} {s : Selection}
    (h : selectedWith? value query = some s) :
    ∃ e, parse (intervalOf value) query.toList = .ok e ∧ selectionOf? e.erased = some s := by
  obtain ⟨e, he, hs⟩ := Option.bind_eq_some_iff.mp h
  refine ⟨e, ?_, by rw [selectionOf?_erased, hs]⟩
  cases hparse : parse (intervalOf value) query.toList with
  | error err => rw [hparse] at he; cases he
  | ok e' =>
    rw [hparse] at he
    exact congrArg Except.ok (Option.some.inj he)

/-- A query of intervals that is accepted with five minutes and refused with an hour. -/
def RefusedWithHour (query : String) : Prop :=
  Comparable (intervalOf "5m") (intervalOf "1h") query.toList ∧
    (∃ e, parse (intervalOf "5m") query.toList = .ok e) ∧
    ¬ ∃ e', parse (intervalOf "1h") query.toList = .ok e'

theorem refusedWithHour_of {query : String} (hintervals : IntervalsOnly (intervalOf "5m") query.toList)
    (haccepted : (parse (intervalOf "5m") query.toList).isOk = true)
    (hrefused : (parse (intervalOf "1h") query.toList).isOk = false) : RefusedWithHour query := by
  refine ⟨comparable_intervalOf isTime_plain isTime_hour hintervals, exists_of_isOk haccepted, ?_⟩
  rintro ⟨e', he'⟩
  rw [he'] at hrefused
  cases hrefused

/-- **The value of an interval may matter where the lexer takes it in.**  Behind a backslash between
backticks, or behind a quote in a comment, code of the query lies in a literal for the lexer, and with
another value the regular expression there may be none; and behind a bracket in a comment an interval
may be part of a name. -/
theorem interval_values_matter :
    RefusedWithHour "up\x7ba=~\x60\\\x60[5-$v]\x60\x7d" ∧
    RefusedWithHour "# it's\n up\x7ba=~\"'[5-$v]\"\x7d" ∧
    Comparable (intervalOf "5m") (intervalOf "1h") "# [\nx:$v".toList ∧
    ∃ e e', parse (intervalOf "5m") "# [\nx:$v".toList = .ok e ∧
      parse (intervalOf "1h") "# [\nx:$v".toList = .ok e' ∧ e.erased ≠ e'.erased := by
  have hname : selectedWith? "5m" "# [\nx:$v" = some ⟨some "x:5m", []⟩ := by decide +kernel
  have hname' : selectedWith? "1h" "# [\nx:$v" = some ⟨some "x:1h", []⟩ := by decide +kernel
  obtain ⟨e, he, hs⟩ := exists_of_selectedWith? hname
  obtain ⟨e', he', hs'⟩ := exists_of_selectedWith? hname'
  have hne : e.erased ≠ e'.erased := by
    intro heq
    rw [heq, hs'] at hs
    exact absurd hs (by decide)
  exact ⟨refusedWithHour_of (by decide +kernel) (by decide +kernel) (by decide +kernel),
    refusedWithHour_of (by decide +kernel) (by decide +kernel) (by decide +kernel),
    comparable_intervalOf isTime_plain isTime_hour (by decide +kernel), e, e', he, he', hne⟩

end PanelLint.Query
