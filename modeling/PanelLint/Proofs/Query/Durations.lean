import PanelLint.Proofs.Query.Seams
import PanelLint.Proofs.Query.Times
import PanelLint.Query.Parse
/-!
# Durations that are written into a query

A range and an offset ask for a duration, and a reference there becomes the selected value if that has
the shape of one.  The shape is wider than the durations: it takes digits of every script, units in any
order and number, and a count of nothing.  Whether that is noticed depends on the value alone.

* `isDuration_of_isLength`: every duration has the shape;
* `isOk_parse_range_iff`, `isOk_parse_offset_iff`: of the values with the shape, the durations are
  those that PromQL accepts where one is due;
* `durations_written`: what is written for a reference in a range or an offset is what it should be,
  and the query around it is accepted, just where no value has the shape without being a duration.
-/

namespace PanelLint.Query

open PanelLint.Text PanelLint.Promql PanelLint.Promql.Lexer

variable {counts : List (List Char × List Char)} {us : List (List Char × Nat)} {v : List Char}

/-! ## 1. Durations have the shape -/

section Machine

variable {σ : Type} {f : σ → Char → Option σ} {i : σ} {P : σ → Prop}

/-- A machine that stays where it is on digits. -/
theorem foldlM_digits (hmore : ∀ d, d.isDigit = true → f i d = some i)
    {digits : List Char} (h : ∀ d ∈ digits, d.isDigit = true) :
    digits.foldlM f i = some i := by
  induction digits with
  | nil => rfl
  | cons d digits ih =>
    obtain ⟨hd, hdigits⟩ := List.forall_mem_cons.mp h
    rw [List.foldlM_cons, hmore d hd]
    exact ih hdigits

/-- **A machine reads counts with units** if it reads digits and, behind them, each of the units. -/
theorem foldlM_spelled (hfirst : ∀ s d, P s → d.isDigit = true → f s d = some i)
    (hmore : ∀ d, d.isDigit = true → f i d = some i)
    (hunits : ∀ u ∈ us, ∃ s, u.1.foldlM f i = some s ∧ P s) (h : Descending us counts) {s : σ}
    (hs : P s) : ∃ s', (spelled counts).foldlM f s = some s' ∧ P s' := by
  obtain ⟨hdigits, hsublist⟩ := h
  replace hsublist := hsublist.subset
  induction counts generalizing s with
  | nil => exact ⟨s, rfl, hs⟩
  | cons c counts ih =>
    obtain ⟨⟨hne, hc⟩, hrest⟩ := List.forall_mem_cons.mp hdigits
    obtain ⟨d, ds, hds⟩ := List.exists_cons_of_ne_nil hne
    rw [hds] at hc
    obtain ⟨hd, hc⟩ := List.forall_mem_cons.mp hc
    obtain ⟨u, hu, hunit⟩ := List.mem_map.mp (hsublist List.mem_cons_self)
    obtain ⟨s₁, hs₁, hP⟩ := hunits u hu
    obtain ⟨s', hs', hP'⟩ := ih hP hrest fun name hname => hsublist (List.mem_cons_of_mem _ hname)
    refine ⟨s', ?_, hP'⟩
    rw [spelled_cons, List.foldlM_append, hds, List.foldlM_cons, hfirst s d hs hd]
    simp only [Option.bind_eq_bind, Option.bind_some, foldlM_digits hmore hc, List.foldlM_append,
      ← hunit, hs₁, hs']

end Machine

/-- A row of units and counts that a duration goes on with is taken as far as it goes. -/
theorem takeUnits_of_foldlM {s s' : Lexer.DurationState} {cs : List Char}
    (h : cs.foldlM Lexer.DurationState.next? s = some s') :
    takeUnits s cs = (cs, [], s' != .digits) := by
  induction cs generalizing s with
  | nil =>
    cases h
    rfl
  | cons c cs ih =>
    rw [List.foldlM_cons] at h
    obtain ⟨s₁, hs₁, hrest⟩ := Option.bind_eq_some_iff.mp h
    rw [takeUnits]
    simp only [hs₁, ih hrest]

/-- A duration has counts. -/
theorem exists_first (h : IsLength v) : ∃ digits unit counts,
    Descending units ((digits, unit) :: counts) ∧ v = digits ++ (unit ++ spelled counts) := by
  obtain ⟨counts, horder, hpos, rfl⟩ := h
  cases counts with
  | nil => cases hpos
  | cons c counts => exact ⟨c.1, c.2, counts, horder, spelled_cons c counts⟩

/-- **Every duration has the shape of one.** -/
theorem isDuration_of_isLength (h : IsLength v) : isDuration v = true := by
  obtain ⟨digits, unit, counts, horder, heq⟩ := exists_first h
  have hdigit : ∀ d, d.isDigit = true → isDigit d = true ∧ d ≠ 's' := by
    intro d hd
    refine ⟨by rwa [isDigit_of_ascii (ascii_of_isNumberChar (isNumberChar_of_isDigit hd))], ?_⟩
    rintro rfl
    cases hd
  have hunits : ∀ u ∈ units, ∃ s, u.1.foldlM DurationState.step .digits = some s ∧
      (s = .minutes ∨ s = .unit) := by
    have hall : units.all (fun u => [DurationState.minutes, .unit].any fun s =>
        u.1.foldlM DurationState.step .digits == some s) = true := by decide
    intro u hu
    obtain ⟨s, hs, heq⟩ := List.any_eq_true.mp (List.all_eq_true.mp hall u hu)
    exact ⟨s, beq_iff_eq.mp heq, by simpa using hs⟩
  obtain ⟨s, hs, hend⟩ := foldlM_spelled (f := DurationState.step) (i := .digits)
    (P := fun s => s = .minutes ∨ s = .unit)
    (by rintro s d (rfl | rfl) hd <;> simp [DurationState.step, hdigit d hd])
    (fun d hd => by simp [DurationState.step, hdigit d hd]) hunits horder (Or.inr rfl)
  rw [spelled_cons] at hs
  -- before a count it is all the same whether another count came before
  have hcount : (digits ++ (unit ++ spelled counts)).foldlM DurationState.step .count = some s := by
    rw [← hs]
    obtain ⟨d, ds, rfl⟩ := List.exists_cons_of_ne_nil (horder.digits _ List.mem_cons_self).1
    rfl
  rw [heq, isDuration, hcount]
  rcases hend with rfl | rfl <;> rfl

/-- **Every duration is a row of digits and then units for the lexer.** -/
theorem exists_counted_of_isLength (h : IsLength v) :
    ∃ c ds units, v = c :: ds ++ units ∧ Counted c ds units := by
  obtain ⟨digits, unit, counts, ⟨hdigits, hsublist⟩, rfl⟩ := exists_first h
  obtain ⟨⟨hne, hfirst⟩, hrest⟩ := List.forall_mem_cons.mp hdigits
  obtain ⟨c, ds, rfl⟩ := List.exists_cons_of_ne_nil hne
  obtain ⟨hc, hds⟩ := List.forall_mem_cons.mp hfirst
  refine ⟨c, ds, unit ++ spelled counts, rfl, hc, hds, ?_⟩
  -- the first unit may be any of them
  have hall : units.all (fun u => u.1.head?.any unitLetters.contains &&
      (u.1.tail.foldlM Lexer.DurationState.next? .letter).any (· != .digits)) = true := by decide
  obtain ⟨p, hp, hunit⟩ := List.mem_map.mp (hsublist.subset List.mem_cons_self)
  have hp := List.all_eq_true.mp hall p hp
  rw [hunit] at hp
  simp only [Bool.and_eq_true, Option.any_eq_true, List.contains_eq_mem, decide_eq_true_eq,
    bne_iff_ne] at hp
  obtain ⟨⟨u, hu, hmem⟩, s₁, hs₁, hend₁⟩ := hp
  obtain ⟨us, rfl⟩ := List.head?_eq_some_iff.mp hu
  -- all further ones are smaller than a year
  have hall : units.tail.all (fun u =>
      (u.1.foldlM Lexer.DurationState.next? .digits).any (· != .digits)) = true := by decide
  obtain ⟨s₂, hs₂, hend₂⟩ := foldlM_spelled (f := Lexer.DurationState.next?) (i := .digits)
    (P := (· ≠ .digits)) (fun s d _ hd => by simp [Lexer.DurationState.next?, hd])
    (fun d hd => by simp [Lexer.DurationState.next?, hd])
    (fun u hu => by simpa [Option.any_eq_true] using List.all_eq_true.mp hall u hu)
    ⟨hrest, hsublist.tail⟩ hend₁
  have hrun : (us ++ spelled counts).foldlM Lexer.DurationState.next? .letter = some s₂ := by
    rw [List.foldlM_append, show us.foldlM _ _ = _ from hs₁]
    exact hs₂
  unfold unitLetters at hmem
  rw [List.cons_append, takeDuration, if_pos hmem, takeUnits_of_foldlM hrun]
  simp [hend₂]

/-! ## 2. Where durations are due -/

/-- **The name of a metric**: a word that is no number and no keyword. -/
structure IsMetric (x : List Char) : Prop where
  head : ∃ c ∈ x.head?, c.isDigit = false
  word : ∀ d ∈ x, isNameRest d = true
  name : wordToken x = .identifier (String.ofList x) ∨ wordToken x = .metric (String.ofList x)

variable {x rest : List Char} {s : State} {c : Char} {ds units : List Char}

theorem IsMetric.run (hx : IsMetric x) (hrest : EndsRun isNameRest rest) :
    Run {} (x ++ rest) [wordToken x] {} rest := by
  obtain ⟨c, hhead, hc⟩ := hx.head
  obtain ⟨w, rfl⟩ := List.head?_eq_some_iff.mp hhead
  exact Run.step (step_word rfl hc hx.word hrest) Run.done

/-- A counted value is one token. -/
theorem Counted.tokensFrom_eq (h : Counted c ds units) (hm : s.mode ≠ .braces)
    (hrest : EndsRun Lexer.isWordRest rest) :
    tokensFrom s (c :: ds ++ units ++ rest) =
      (tokensFrom s.settled rest).map (.duration (String.ofList (c :: ds ++ units)) :: ·) :=
  tokensFrom_step (step_number (Or.inl ⟨h.first, hm⟩) (h.readNumber hrest))

/-- **Where a duration is due, a value of this shape is accepted just if it is one.**  What stands
before and after the value makes a phrase with every duration that is read. -/
theorem isOk_parse_iff {text : List Char} {prev next : List Token} (hshape : isDuration v = true)
    (hrun : Run {} text prev s (v ++ rest)) (hm : s.mode ≠ .braces)
    (hrest : EndsRun Lexer.isWordRest rest) (hnext : tokensFrom s.settled rest = .ok next)
    (hphrase : ∀ d, ∃ phrase, Phrase.ofTokens (prev ++ .duration d :: next) = .ok (some phrase) ∧
      (phrase.check.isOk = true ↔ ∃ n, readDuration d = .ok n)) :
    (Promql.parse text).isOk = true ↔ IsLength v := by
  have htokens : tokens text = (tokensFrom s (v ++ rest)).map (prev ++ ·) := hrun.tokensFrom_eq
  rw [Promql.parse, htokens]
  cases hv : tokensFrom s (v ++ rest) with
  | error e =>
    -- a duration would be taken as a token
    refine iff_of_false (by simp [Except.map, Except.isOk, Except.toBool]) fun hlength => ?_
    obtain ⟨c, ds, units, rfl, hcount⟩ := exists_counted_of_isLength hlength
    rw [hcount.tokensFrom_eq hm hrest, hnext] at hv
    cases hv
  | ok ts =>
    obtain ⟨c, ds, units, heq, hcount⟩ := exists_counted_of_tokensFrom hshape hrest hv
    rw [heq, hcount.tokensFrom_eq hm hrest, hnext] at hv
    cases hv
    obtain ⟨phrase, hof, hcheck⟩ := hphrase (String.ofList v)
    rw [← heq, isLength_iff, ← hcheck]
    simp only [Except.map, hof]
    cases phrase.check <;> rfl

theorem check_vector (name : String) :
    (Phrase.vector (some name) none).check = .ok (.vector ⟨some name, []⟩ none none) := by
  rw [Phrase.check]
  rfl

/-- **A value of this shape is accepted as a range just where it is a duration.** -/
theorem isOk_parse_range_iff (hx : IsMetric x) (hshape : isDuration v = true) :
    (Promql.parse (x ++ '[' :: (v ++ [']']))).isOk = true ↔ IsLength v := by
  have hstep : step {} '[' (v ++ [']']) =
      .ok (some .leftBracket, { mode := .brackets false true }, v ++ [']']) := rfl
  have hnext : tokensFrom ({ mode := .brackets false true } : State).settled [']'] =
      .ok [.rightBracket, .finish] := by
    rw [tokensFrom_step (show step _ ']' [] = .ok (some .rightBracket, {}, []) from rfl), tokensFrom]
    rfl
  refine isOk_parse_iff hshape ((hx.run (endsRun_cons _ (by decide))).trans (Run.step hstep Run.done))
    (by simp) (endsRun_cons _ (by decide)) hnext fun d => ?_
  refine ⟨.range (.vector (some (String.ofList x)) none) (.units d), ?_, ?_⟩
  · rcases hx.name with h | h <;> rw [h] <;> rfl
  · rw [Phrase.check, check_vector, Span.length]
    cases readDuration d with
    | error e => exact iff_of_false Bool.false_ne_true (by simp)
    | ok n => exact iff_of_true rfl ⟨n, rfl⟩

/-- **A value of this shape is accepted as an offset just where it is a duration.** -/
theorem isOk_parse_offset_iff (hx : IsMetric x) (hshape : isDuration v = true) :
    (Promql.parse (x ++ " offset ".toList ++ v)).isOk = true ↔ IsLength v := by
  have hword : Run {} ("offset".toList ++ ' ' :: v) [.keyword .offset "offset"] {} (' ' :: v) :=
    Run.step (step_word rfl (by decide) (List.all_eq_true.mp (by decide))
      (endsRun_cons _ (by decide))) Run.done
  have hblank : ∀ cs, Run {} (' ' :: cs) [] {} cs := fun cs =>
    Run.step (step_blank (by decide)) Run.done
  have hrun := (hx.run (endsRun_cons _ (by decide))).trans
    ((hblank ("offset".toList ++ ' ' :: v)).trans (hword.trans (hblank v)))
  have hnext : tokensFrom ({} : State).settled [] = .ok [.finish] := by
    rw [tokensFrom]
    rfl
  rw [List.append_assoc]
  refine isOk_parse_iff hshape (by rw [List.append_nil]; exact hrun) (by simp) endsRun_nil hnext
    fun d => ?_
  refine ⟨.offset (.vector (some (String.ofList x)) none) false (.units d), ?_, ?_⟩
  · rcases hx.name with h | h <;> rw [h] <;> rfl
  · rw [Phrase.check, check_vector, Span.length]
    cases readDuration d with
    | error e => exact iff_of_false Bool.false_ne_true (by simp)
    | ok n => exact iff_of_true rfl ⟨n, rfl⟩

/-! ## 3. A query with one reference -/

variable {templates : List Template} {name w before after text : List Char} {t : Template}

/-- **A query with one reference in it** becomes the text around it with what the reference stands
for. -/
theorem expand_single {query : List Char} {r : Reference}
    (hps : pieces query = before.map .kept ++ .reference r :: after.map .kept)
    (hsub : substitute templates r.name (Position.of before.reverse (openBrackets 0 before)) =
      .ok text) : expand templates query = .ok (before ++ (text ++ after)) := by
  have hwrite : Progress.write templates ⟨before.reverse, openBrackets 0 before⟩ (.reference r) =
      .ok ⟨text.reverse ++ before.reverse, openBrackets 0 before⟩ := by
    rw [Progress.write, hsub]
    rfl
  rw [expand, hps, List.foldlM_append, foldlM_kept, List.append_nil]
  show Except.map _ (Except.bind (.ok _) _) = _
  rw [Except.bind, List.foldlM_cons, hwrite]
  show Except.map _ (Except.bind (.ok _) _) = _
  rw [Except.bind, foldlM_kept, Except.map]
  simp

theorem scan_reference (hname : IsRun isWord name) (hafter : EndsRun isWord after) :
    Piece.scan ('$' :: (name ++ after)) =
      .reference ⟨'$' :: name, name⟩ :: Piece.scan after :=
  Piece.scan_of_some (Reference.read?_eq_some_iff.mpr (.plain hname hafter))

theorem IsMetric.inert (hx : IsMetric x) : ∀ d ∈ x, isInert d = true := fun d hd =>
  isInert_of_class (by decide) (hx.word d hd)

theorem IsMetric.plain (hx : IsMetric x) : ∀ d ∈ x, d ≠ '$' ∧ d ≠ '[' := by
  intro d hd
  have hword := hx.word d hd
  constructor
  · rintro rfl
    exact absurd hword (by decide)
  · rintro rfl
    exact absurd hword (by decide)

/-- A query made of the name of a metric, a word and a few marks has no quotes. -/
theorem not_isQuote_of_mem (w after : List Char) (hx : IsMetric x) (hname : IsRun isWord name)
    (hw : w.all (!isQuote ·) = true) (hafter : after.all (!isQuote ·) = true) :
    ∀ d ∈ x ++ (w ++ (name ++ after)), isQuote d = false := by
  intro d hd
  simp only [List.mem_append] at hd
  rcases hd with hd | hd | hd | hd
  · exact not_isQuote_of_isInert (hx.inert d hd)
  · simpa using List.all_eq_true.mp hw d hd
  · exact not_isQuote_of_isInert (isInert_of_isWord (hname.2 d hd))
  · simpa using List.all_eq_true.mp hafter d hd

/-- The brackets around a reference make its place a range. -/
theorem expand_range (hx : IsMetric x) (hname : IsRun isWord name)
    (hsub : substitute templates name .range = .ok text) :
    expand templates (x ++ ("[$".toList ++ (name ++ [']']))) =
      .ok (x ++ '[' :: (text ++ [']'])) := by
  have hps : pieces (x ++ ("[$".toList ++ (name ++ [']']))) =
      (x ++ ['[']).map .kept ++ .reference ⟨'$' :: name, name⟩ :: [']'].map .kept := by
    have hopen : Reference.read? ('[' :: '$' :: (name ++ [']'])) = none := rfl
    have hclose : Piece.scan [']'] = [']'].map .kept := by decide +kernel
    rw [pieces_of_code (not_isQuote_of_mem _ _ hx hname (by decide) (by decide)), scan_kept hx.plain]
    show _ ++ Piece.scan ('[' :: '$' :: (name ++ [']'])) = _
    rw [Piece.scan_of_none hopen, scan_reference hname (endsRun_cons _ (by decide)), hclose,
      List.map_append, List.append_assoc]
    rfl
  have hdepth : openBrackets 0 (x ++ ['[']) = 1 := by
    rw [openBrackets_append, openBrackets_of_inert hx.inert]
    rfl
  rw [expand_single hps (by rwa [hdepth, position_eq_range Nat.one_pos]), List.append_assoc]
  rfl

/-- Behind the word `offset` stands an offset. -/
theorem expand_offset (hx : IsMetric x) (hname : IsRun isWord name)
    (hsub : substitute templates name .offset = .ok text) :
    expand templates (x ++ (" offset $".toList ++ name)) = .ok (x ++ (" offset ".toList ++ text)) := by
  have hplain : ∀ d ∈ x ++ " offset ".toList, d ≠ '$' ∧ d ≠ '[' := by
    intro d hd
    rcases List.mem_append.mp hd with hd | hd
    · exact hx.plain d hd
    · have hall : " offset ".toList.all (fun d => d != '$' && d != '[') = true := by decide
      simpa using List.all_eq_true.mp hall d hd
  have hps : pieces (x ++ (" offset $".toList ++ name)) =
      (x ++ " offset ".toList).map .kept ++ .reference ⟨'$' :: name, name⟩ :: [].map .kept := by
    have hquote := not_isQuote_of_mem " offset $".toList [] hx hname (by decide) (by decide)
    rw [List.append_nil] at hquote
    rw [pieces_of_code hquote]
    show Piece.scan (x ++ (" offset ".toList ++ '$' :: name)) = _
    rw [← List.append_assoc, scan_kept hplain, ← List.append_nil name,
      scan_reference hname endsRun_nil, Piece.scan_nil, List.append_nil]
    rfl
  have hdepth : openBrackets 0 (x ++ " offset ".toList) = 0 := by
    rw [openBrackets_append, openBrackets_of_inert hx.inert]
    rfl
  have hposition : Position.of (x ++ " offset ".toList).reverse 0 = .offset := by
    rw [List.reverse_append]
    rfl
  rw [expand_single hps (by rwa [hdepth, hposition]), List.append_assoc, List.append_nil]

/-! ## 4. The durations that are written -/

variable {value : Option (List Char)}

/-- **What is due for a selected value in a range or an offset**: a duration, the value itself if it
is one and five minutes if not. -/
structure Serves (value : Option (List Char)) (text : List Char) : Prop where
  length : IsLength text
  selected : ∀ v ∈ value, IsLength v → text = v
  plain : (∀ v ∈ value, ¬ IsLength v) → text = "5m".toList

/-- **A value that is taken for a duration**: it has the shape and is none. -/
def Misleads (value : Option (List Char)) : Prop :=
  ∃ v ∈ value, isDuration v = true ∧ ¬ IsLength v

/-- Digits of another script, and a count of nothing. -/
example : Misleads (some "٣m".toList) ∧ Misleads (some "0s".toList) :=
  ⟨⟨_, rfl, by decide +kernel, by decide +kernel⟩, ⟨_, rfl, by decide +kernel, by decide +kernel⟩⟩

/-- What stands in for a value where a duration is due has the shape of one. -/
theorem isDuration_filter_getD : isDuration ((value.filter isDuration).getD "5m".toList) = true := by
  cases hf : value.filter isDuration with
  | none => decide +kernel
  | some v => exact (Option.filter_eq_some_iff.mp hf).2

/-- **What stands in for a value serves just where the value does not mislead.** -/
theorem serves_filter_getD_iff :
    Serves value ((value.filter isDuration).getD "5m".toList) ↔ ¬ Misleads value := by
  constructor
  · rintro ⟨hlength, -, -⟩ ⟨v, rfl, hshape, hnot⟩
    rw [Option.filter_some_pos hshape] at hlength
    exact hnot hlength
  · intro h
    have hdefault : IsLength "5m".toList := by decide +kernel
    cases value with
    | none => exact ⟨hdefault, by simp, fun _ => rfl⟩
    | some v =>
      by_cases hshape : isDuration v = true
      · have hlength : IsLength v := by
          by_contra hnot
          exact h ⟨v, rfl, hshape, hnot⟩
        rw [Option.filter_some_pos hshape]
        exact ⟨hlength, fun u hu _ => Option.some.inj hu, fun hnone => absurd hlength (hnone v rfl)⟩
      · rw [Option.filter_some_neg (Bool.eq_false_iff.mpr hshape)]
        refine ⟨hdefault, fun u hu hlength => ?_, fun _ => rfl⟩
        obtain rfl := Option.some.inj hu
        exact absurd (isDuration_of_isLength hlength) hshape

theorem isOk_parse_of_expand {query : List Char} (h : expand templates query = .ok text) :
    (parse templates query).isOk = (Promql.parse text).isOk := by
  rw [parse, h]
  dsimp only
  cases hp : Promql.parse text with
  | ok e => rfl
  | error e => cases e <;> rfl

/-- **Durations are written where they are due, just if no value misleads.**  For a declared variable
a text is written in every range and offset.  If the value has the shape of a duration without being
one, that value is written, and the metrics with that range or that offset are refused; otherwise the
text is the duration that is due, and they are accepted. -/
theorem durations_written (templates : List Template) (name : List Char) (t : Template)
    (hglobal : globalPrefix.isPrefixOf name = false) (hfind : findTemplate? templates name = some t) :
    (∀ p, p = .range ∨ p = .offset → ∃ text, substitute templates name p = .ok text ∧
      (Serves (t.currentValue.map String.toList) text ↔
        ¬ Misleads (t.currentValue.map String.toList)) ∧
      (Misleads (t.currentValue.map String.toList) → ¬ IsLength text)) ∧
    ∀ x, IsMetric x → IsRun isWord name →
      ((parse templates (x ++ ("[$".toList ++ (name ++ [']'])))).isOk = true ↔
        ¬ Misleads (t.currentValue.map String.toList)) ∧
      ((parse templates (x ++ (" offset $".toList ++ name))).isOk = true ↔
        ¬ Misleads (t.currentValue.map String.toList)) := by
  generalize hvalue : t.currentValue.map String.toList = value
  have hsub : ∀ p, p = .range ∨ p = .offset → substitute templates name p =
      .ok ((value.filter isDuration).getD "5m".toList) := by
    intro p hp
    rw [substitute_of_template hglobal hfind, hvalue]
    rcases hp with rfl | rfl <;> rfl
  have hlength : IsLength ((value.filter isDuration).getD "5m".toList) ↔ ¬ Misleads value := by
    refine ⟨?_, fun h => (serves_filter_getD_iff.mpr h).length⟩
    rintro hlength ⟨v, rfl, hshape, hnot⟩
    rw [Option.filter_some_pos hshape] at hlength
    exact hnot hlength
  refine ⟨fun p hp => ⟨_, hsub p hp, serves_filter_getD_iff, fun h hl => hlength.mp hl h⟩, ?_⟩
  intro x hx hname
  constructor
  · rw [isOk_parse_of_expand (expand_range hx hname (hsub _ (Or.inl rfl))), ← hlength]
    exact isOk_parse_range_iff hx isDuration_filter_getD
  · rw [isOk_parse_of_expand (expand_offset hx hname (hsub _ (Or.inr rfl))), ← hlength,
      ← List.append_assoc]
    exact isOk_parse_offset_iff hx isDuration_filter_getD

theorem isMetric_up : IsMetric "up".toList where
  head := ⟨'u', rfl, by decide⟩
  word := List.all_eq_true.mp (by decide)
  name := Or.inl rfl

/-- The dashboard with one variable `v`. -/
def valueOf (value : String) : List Template :=
  [{ name := "v", current := some ⟨some (.single value)⟩ }]

/-- A minute and an hour in the wrong order mislead. -/
theorem durations_written_misordered :
    globalPrefix.isPrefixOf "v".toList = false ∧
    Misleads (some "1m1h".toList) ∧
    substitute (valueOf "1m1h") "v".toList .range = .ok "1m1h".toList ∧
    ¬ Serves (some "1m1h".toList) "1m1h".toList ∧
    (parse (valueOf "1m1h") "up[$v]".toList).isOk = false ∧
    (parse (valueOf "1m1h") "up offset $v".toList).isOk = false := by
  have hmisleads : Misleads (some "1m1h".toList) := ⟨_, rfl, by decide +kernel, by decide +kernel⟩
  have hrun : IsRun isWord "v".toList := ⟨by decide, List.all_eq_true.mp (by decide)⟩
  obtain ⟨hwritten, hparse⟩ := durations_written (valueOf "1m1h") "v".toList
    { name := "v", current := some ⟨some (.single "1m1h")⟩ } (by decide) rfl
  obtain ⟨text, hsub, hserves, -⟩ := hwritten .range (Or.inl rfl)
  obtain ⟨hrange, hoffset⟩ := hparse "up".toList isMetric_up hrun
  have htext : substitute (valueOf "1m1h") "v".toList .range = .ok "1m1h".toList := by
    decide +kernel
  rw [htext] at hsub
  cases hsub
  refine ⟨by decide, hmisleads, htext, fun h => hserves.mp h hmisleads, ?_, ?_⟩
  · exact Bool.eq_false_iff.mpr fun h => hrange.mp h hmisleads
  · exact Bool.eq_false_iff.mpr fun h => hoffset.mp h hmisleads

end PanelLint.Query
