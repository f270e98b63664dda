import PanelLint.Proofs.Query.Expansions
/-!
# Texts that say nothing about what follows

Where a reference stands is read off the text before it, over the end of a line if need be.  A text
is *idle* if nothing that decides on a position is begun in it: it does not end with `offset` or
`@`, nor with a function that takes a scalar, whether its grouping or its parenthesis follow or are
still to come.  Three references behind the text are enough to see this (`isIdle`): if no word runs
over its end, as none does over the end of a line, these three stand in ordinary places just if every
place behind the text is what it is without it (`position_behind_iff`).  Expansion then goes on behind
it as it would at the start of a query (`foldlM_behind`).
-/

namespace PanelLint.Query

open PanelLint.Text PanelLint.Promql.Lexer

/-- **Nothing is begun at the end of a text**: a reference there stands for an ordinary expression,
and so it does behind a parenthesis, and behind a pair of them and another. -/
def isIdle (before : List Char) : Bool :=
  ["", "(", "()("].all fun u => Position.of (u.toList.reverse ++ before) 0 == .expression

/-! ## 1. Words at the end of a text -/

variable {words : List String} {word x rest before line : List Char} {d : Char}

theorem dropBlanks_append (x rest : List Char) : dropBlanks (x ++ rest) =
    if (dropBlanks x).isEmpty then dropBlanks rest else dropBlanks x ++ rest :=
  List.dropWhile_append

/-- Case is a matter of word characters. -/
theorem fold_of_not_isWord (hd : isWord d = false) : fold d = d := by
  have hupper : ¬ (d.val ≥ 'A'.val ∧ d.val ≤ 'Z'.val) := by
    intro h
    have halpha : d.isAlpha = true := by
      show (d.isUpper || d.isLower) = true
      rw [show d.isUpper = true from decide_eq_true h, Bool.true_or]
    have hascii : d.toNat < 0x80 := ascii_of_isNumberChar (by
      simp [isNumberChar, glues, isWordRest, Char.isAlphanum, halpha])
    rw [isWord_of_ascii hascii, Char.isAlphanum, halpha] at hd
    cases hd
  have hlower : d.toLower = d := by
    unfold Char.toLower
    exact dif_neg hupper
  unfold fold
  rw [if_neg, if_neg, hlower]
  · rintro rfl
    exact absurd hd (by decide +kernel)
  · rintro rfl
    exact absurd hd (by decide +kernel)

/-- A word does not go on over a character of none. -/
theorem dropWord?_append (hd : isWord d = false) (h : word.all isWord = true) :
    dropWord? word (x ++ d :: line) = (dropWord? word x).map (· ++ d :: line) := by
  induction word generalizing x with
  | nil => rfl
  | cons w word ih =>
    obtain ⟨hw, hword⟩ := (Bool.and_eq_true _ _).mp h
    cases x with
    | nil =>
      have hfold : ¬ fold d = w := by
        rintro rfl
        rw [fold_of_not_isWord hd, hd] at hw
        cases hw
      simp [dropWord?, hfold]
    | cons c x =>
      simp only [List.cons_append, dropWord?]
      split
      · exact ih hword
      · rfl

theorem atWordStart_append (hd : isWord d = false) :
    atWordStart (x ++ d :: line) = atWordStart x := by
  cases x with
  | nil => simp [atWordStart, hd]
  | cons c x => rfl

/-- Texts that end alike for each of some words. -/
theorem any_beforeWord?_congr {f g : List Char → Bool} (hd : isWord d = false)
    (h : words.all (fun w => w.toList.reverse.all isWord) = true)
    (hfg : ∀ r, f (r ++ d :: line) = g r) :
    (words.any fun w => (beforeWord? w (x ++ d :: line)).any f) =
      words.any fun w => (beforeWord? w x).any g := by
  rw [Bool.eq_iff_iff, List.any_eq_true, List.any_eq_true]
  refine exists_congr fun w => and_congr_right fun hw => ?_
  rw [beforeWord?, dropWord?_append hd (List.all_eq_true.mp h w hw), Option.any_map]
  exact iff_of_eq (congrArg (fun p => Option.any p _ = true) (funext hfg))

theorem endsWithWord_append (hd : isWord d = false)
    (h : words.all (fun w => w.toList.reverse.all isWord) = true) :
    endsWithWord words (x ++ d :: line) = endsWithWord words x :=
  any_beforeWord?_congr hd h fun _ => atWordStart_append hd

/-- No word stands at the end of a text of blanks, unless it ends the text before. -/
theorem endsWithWord_dropBlanks (hd : isWord d = false)
    (h : words.all (fun w => w.toList.reverse.all isWord) = true)
    (hempty : endsWithWord words [] = false)
    (hline : endsWithWord words (dropBlanks (d :: line)) = false) :
    endsWithWord words (dropBlanks (x ++ d :: line)) = endsWithWord words (dropBlanks x) := by
  rw [dropBlanks_append]
  split
  · next hblank => rw [hline, List.isEmpty_iff.mp hblank, hempty]
  · exact endsWithWord_append hd h

/-! ## 2. Offsets -/

theorem endsWithOffset_of_minus (h : dropBlanks before = '-' :: rest) :
    endsWithOffset before = endsWithWord ["offset"] (dropBlanks rest) := by
  unfold endsWithOffset
  simp only [h]

theorem endsWithOffset_of_not_minus (h : ∀ rest, dropBlanks before ≠ '-' :: rest) :
    endsWithOffset before = endsWithWord ["offset"] (dropBlanks before) := by
  unfold endsWithOffset
  split
  · next rest heq => exact absurd heq (h rest)
  · rfl

theorem dropBlanks_append_of_nil (h : dropBlanks x = []) :
    dropBlanks (x ++ rest) = dropBlanks rest := by
  rw [dropBlanks_append, h]
  rfl

theorem dropBlanks_append_of_cons {c : Char} {cs : List Char} (h : dropBlanks x = c :: cs) :
    dropBlanks (x ++ rest) = c :: (cs ++ rest) := by
  rw [dropBlanks_append, h]
  rfl

theorem endsWithOffset_append (hd : isWord d = false)
    (hline : endsWithOffset (d :: line) = false) :
    endsWithOffset (x ++ d :: line) = endsWithOffset x := by
  have hword : endsWithWord ["offset"] (dropBlanks (d :: line)) = false := by
    by_cases hminus : ∃ rest, dropBlanks (d :: line) = '-' :: rest
    · obtain ⟨rest, hrest⟩ := hminus
      rw [hrest]
      exact endsWithWord_cons (by decide)
    · rwa [endsWithOffset_of_not_minus (not_exists.mp hminus)] at hline
  cases hx : dropBlanks x with
  | nil =>
    have hempty : endsWithOffset x = false := by
      rw [endsWithOffset, hx]
      decide
    rw [hempty, ← hline, endsWithOffset, endsWithOffset, dropBlanks_append_of_nil hx]
  | cons c cs =>
    have hline' : dropBlanks (x ++ d :: line) = c :: (cs ++ d :: line) :=
      dropBlanks_append_of_cons hx
    by_cases hc : c = '-'
    · subst hc
      rw [endsWithOffset_of_minus hline', endsWithOffset_of_minus hx,
        endsWithWord_dropBlanks hd (by decide) (by decide) hword]
    · have hne : ∀ {l : List Char} rest, c :: l ≠ '-' :: rest := fun rest heq =>
        hc (List.cons.inj heq).1
      rw [endsWithOffset_of_not_minus (hline' ▸ hne), endsWithOffset_of_not_minus (hx ▸ hne),
        endsWithWord_dropBlanks hd (by decide) (by decide) hword]

/-! ## 3. Functions that take a scalar -/

/-- Whether a text ends with the grouping of a scalar taker, blanks aside. -/
def closesGrouping (before : List Char) : Bool :=
  match dropBlanks before with
  | ')' :: inner => opensGrouping inner
  | _ => false

theorem endsWithGrouping_append (hd : isWord d = false)
    (hname : endsWithWord scalarTakers (dropBlanks (d :: line)) = false)
    (hgrouping : endsWithGrouping (d :: line) = false) :
    endsWithGrouping (x ++ d :: line) = endsWithGrouping x := by
  cases hx : dropBlanks x with
  | nil =>
    have hempty : endsWithGrouping x = false := by
      rw [endsWithGrouping, hx]
      decide
    rw [hempty, ← hgrouping, endsWithGrouping, endsWithGrouping, dropBlanks_append_of_nil hx]
  | cons c cs =>
    unfold endsWithGrouping
    rw [dropBlanks_append_of_cons hx, ← List.cons_append, hx]
    exact any_beforeWord?_congr hd (by decide) fun r =>
      endsWithWord_dropBlanks hd (by decide) (by decide) hname

/-- **No function that takes a scalar is begun at the end of a text**: no name stands there, with
`by` or `without` or not, and no grouping is open or has just been closed. -/
structure NoTaker (before : List Char) : Prop where
  name : endsWithWord scalarTakers (dropBlanks before) = false
  grouping : endsWithGrouping before = false
  opened : opensGrouping before = false
  closed : closesGrouping before = false

theorem NoTaker.opensGrouping_append (h : NoTaker (d :: line)) (hd : isWord d = false) :
    opensGrouping (x ++ d :: line) = opensGrouping x := by
  induction x with
  | nil => exact h.opened
  | cons c x ih =>
    rw [List.cons_append, opensGrouping, opensGrouping,
      endsWithGrouping_append hd h.name h.grouping, ih]

theorem NoTaker.closesGrouping_append (h : NoTaker (d :: line)) (hd : isWord d = false) :
    closesGrouping (x ++ d :: line) = closesGrouping x := by
  cases hx : dropBlanks x with
  | nil =>
    have hempty : closesGrouping x = false := by rw [closesGrouping, hx]
    rw [hempty, ← h.closed, closesGrouping, closesGrouping, dropBlanks_append_of_nil hx]
  | cons c cs =>
    unfold closesGrouping
    rw [dropBlanks_append_of_cons hx, hx]
    by_cases hc : c = ')'
    · subst hc
      exact h.opensGrouping_append hd
    · split
      · next heq => exact absurd (List.cons.inj heq).1 hc
      · split
        · next heq => exact absurd (List.cons.inj heq).1 hc
        · rfl

/-- Behind a parenthesis it depends on what stands before it. -/
theorem endsWithScalarOpening_of_paren (h : dropBlanks before = '(' :: rest) :
    endsWithScalarOpening before =
      (endsWithWord scalarTakers (dropBlanks rest) || closesGrouping rest) := by
  unfold endsWithScalarOpening
  simp only [h]
  rfl

theorem endsWithScalarOpening_of_other {c : Char} {cs : List Char} (h : dropBlanks before = c :: cs)
    (hc : c ≠ '(') : endsWithScalarOpening before = (c == '@') := by
  unfold endsWithScalarOpening
  rw [h]
  split
  · next heq =>
    rw [(List.cons.inj heq).1]
    rfl
  · next heq => exact absurd (List.cons.inj heq).1 hc
  · next hat _ =>
    exact (beq_false_of_ne fun heq => hat cs (congrArg (· :: cs) heq)).symm

theorem NoTaker.endsWithScalarOpening_append (h : NoTaker (d :: line)) (hd : isWord d = false)
    (hline : endsWithScalarOpening (d :: line) = false) :
    endsWithScalarOpening (x ++ d :: line) = endsWithScalarOpening x := by
  cases hx : dropBlanks x with
  | nil =>
    have hempty : endsWithScalarOpening x = false := by rw [endsWithScalarOpening, hx]
    rw [hempty, ← hline, endsWithScalarOpening, endsWithScalarOpening, dropBlanks_append_of_nil hx]
  | cons c cs =>
    have hline' : dropBlanks (x ++ d :: line) = c :: (cs ++ d :: line) :=
      dropBlanks_append_of_cons hx
    by_cases hc : c = '('
    · subst hc
      rw [endsWithScalarOpening_of_paren hline', endsWithScalarOpening_of_paren hx,
        endsWithWord_dropBlanks hd (by decide) (by decide) h.name, h.closesGrouping_append hd]
    · rw [endsWithScalarOpening_of_other hline' hc, endsWithScalarOpening_of_other hx hc]

/-! ## 4. Places behind an idle text -/

/-- A place that is an ordinary expression is neither an offset nor a scalar. -/
theorem position_eq_expression_iff : Position.of before 0 = .expression ↔
    endsWithOffset before = false ∧ endsWithScalarOpening before = false := by
  unfold Position.of
  cases endsWithOffset before <;> cases endsWithScalarOpening before <;> simp

/-- What the three places behind an idle text say. -/
theorem isIdle_iff : isIdle (d :: line) = true ↔
    endsWithOffset (d :: line) = false ∧ endsWithScalarOpening (d :: line) = false ∧
      NoTaker (d :: line) := by
  have hoffset : ∀ x, endsWithOffset ('(' :: x) = false := fun x => endsWithWord_cons (by decide)
  have hparen : ∀ x, endsWithScalarOpening ('(' :: x) =
      (endsWithWord scalarTakers (dropBlanks x) || closesGrouping x) := fun x =>
    endsWithScalarOpening_of_paren (dropBlanks_cons (by decide))
  have hpair : endsWithScalarOpening ('(' :: ')' :: '(' :: d :: line) =
      (endsWithGrouping (d :: line) || opensGrouping (d :: line)) := by
    rw [hparen, dropBlanks_cons (by decide), endsWithWord_cons (by decide), Bool.false_or,
      closesGrouping, dropBlanks_cons (by decide)]
    rfl
  simp only [isIdle, List.all_cons, List.all_nil, Bool.and_true, Bool.and_eq_true, beq_iff_eq]
  show Position.of (d :: line) 0 = .expression ∧
    Position.of ('(' :: d :: line) 0 = .expression ∧
      Position.of ('(' :: ')' :: '(' :: d :: line) 0 = .expression ↔ _
  simp only [position_eq_expression_iff, hoffset, hpair, hparen, Bool.or_eq_false_iff, true_and]
  constructor
  · rintro ⟨⟨hend, hopening⟩, ⟨hname, hclosed⟩, hgrouping, hopened⟩
    exact ⟨hend, hopening, hname, hgrouping, hopened, hclosed⟩
  · rintro ⟨hend, hopening, hname, hgrouping, hopened, hclosed⟩
    exact ⟨⟨hend, hopening⟩, ⟨hname, hclosed⟩, hgrouping, hopened⟩

/-- **Every place behind a text is what it is without the text just if the text is idle.** -/
theorem position_behind_iff (hd : isWord d = false) : isIdle (d :: line) = true ↔
    ∀ x depth, Position.of (x ++ d :: line) depth = Position.of x depth := by
  constructor
  · intro h x depth
    obtain ⟨hoffset, hopening, htaker⟩ := isIdle_iff.mp h
    rw [Position.of, Position.of, endsWithOffset_append hd hoffset,
      htaker.endsWithScalarOpening_append hd hopening]
  · intro h
    have hplain : isIdle [] = true := by decide
    rw [isIdle, List.all_eq_true] at hplain ⊢
    intro u hu
    rw [h]
    simpa using hplain u hu

/-! ## 5. Writing behind an idle text -/

variable {templates : List Template} {qs : List Piece}

/-- Behind an idle text a piece is written as it is without the text. -/
theorem write_behind (hd : isWord d = false) (h : isIdle (d :: line) = true) (p : Progress)
    (piece : Piece) : Progress.write templates ⟨p.before ++ d :: line, p.depth⟩ piece =
      (p.write templates piece).map fun q => ⟨q.before ++ d :: line, q.depth⟩ := by
  cases piece with
  | kept c => rfl
  | literal l => simp [Progress.write, Except.map]
  | reference r =>
    simp only [Progress.write, (position_behind_iff hd).mp h]
    cases substitute templates r.name (Position.of p.before p.depth) with
    | error e => rfl
    | ok t => simp [Except.map]

theorem foldlM_behind (hd : isWord d = false) (h : isIdle (d :: line) = true) (p : Progress) :
    qs.foldlM (Progress.write templates) ⟨p.before ++ d :: line, p.depth⟩ =
      (qs.foldlM (Progress.write templates) p).map
        fun q => ⟨q.before ++ d :: line, q.depth⟩ := by
  induction qs generalizing p with
  | nil => rfl
  | cons piece qs ih =>
    rw [List.foldlM_cons, List.foldlM_cons, write_behind hd h]
    cases p.write templates piece with
    | error e => rfl
    | ok q => exact ih q

end PanelLint.Query
