import PanelLint.Proofs.Query.Idle
/-!
# What string literals say about places behind them

The place of a reference is read off the whole text before it.  Most of what decides on it has to stand
right before the reference, but the search for the grouping of a function that takes a scalar goes back
over literals: it stops at the last closing parenthesis, or at a parenthesis that opens such a grouping,
wherever it finds one.

* `verdict`: what a literal says to this search, if anything;
* `Shadowed.position`: behind texts with the same code, and literals that say the same, the places are
  the same.
-/

namespace PanelLint.Query

open PanelLint.Text PanelLint.Promql.Lexer

variable {x x' l l' t line : List Char} {c q : Char} {words : List String}

/-! ## 1. What a literal says -/

/-- **What the end of a text says about a grouping**, if anything: that one is open, or that none is.
The text has its last character first. -/
def verdict : List Char → Option Bool
  | [] => none
  | c :: cs =>
    if c = ')' then some false
    else if c = '(' ∧ endsWithGrouping cs = true then some true
    else verdict cs

/-- A string literal with its closing quote. -/
inductive IsLiteral : List Char → Prop
  | mk {quote : Char} {body : List Char} : isQuote quote = true → closes quote body = true →
      IsLiteral (quote :: body)

theorem isWord_of_isQuote (h : isQuote q = true) : isWord q = false := by
  rcases isQuote_iff.mp h with rfl | rfl | rfl <;> decide

theorem isBlank_of_isQuote (h : isQuote q = true) : isBlank q = false := by
  rcases isQuote_iff.mp h with rfl | rfl | rfl <;> decide

/-- A literal begins and ends with its quote, read backwards. -/
theorem IsLiteral.reverse_eq (h : IsLiteral l) :
    ∃ q inner, isQuote q = true ∧ l.reverse = q :: (inner ++ [q]) := by
  obtain @⟨quote, body, hq, hcloses⟩ := h
  have hlast := getLast?_of_closes hcloses
  have hne : body ≠ [] := by
    rintro rfl
    cases hcloses
  rw [List.getLast?_cons, List.getLast?_eq_some_getLast hne] at hlast
  refine ⟨quote, body.dropLast.reverse, hq, ?_⟩
  rw [List.reverse_cons, ← List.dropLast_append_getLast hne, List.reverse_append]
  simpa using hlast

/-- No grouping goes on over a quote. -/
theorem endsWithGrouping_over_quote (hq : isQuote q = true) :
    endsWithGrouping (x ++ q :: line) = endsWithGrouping x := by
  have hblank : ∀ rest, dropBlanks (q :: rest) = q :: rest := fun rest =>
    dropBlanks_cons (isBlank_of_isQuote hq)
  refine endsWithGrouping_append (isWord_of_isQuote hq) ?_ ?_
  · rw [hblank]
    rcases isQuote_iff.mp hq with rfl | rfl | rfl <;> exact endsWithWord_cons (by decide)
  · rw [endsWithGrouping, hblank]
    rcases isQuote_iff.mp hq with rfl | rfl | rfl <;> rfl

/-- **The search for an open grouping sees of a literal what it says**, and goes on behind it if that
is nothing. -/
theorem opensGrouping_literal (h : IsLiteral l) :
    opensGrouping (l.reverse ++ x) = (verdict l.reverse).getD (opensGrouping x) := by
  obtain ⟨q, inner, hq, hl⟩ := h.reverse_eq
  rw [hl, ← List.cons_append]
  generalize q :: inner = back
  induction back with
  | nil => rcases isQuote_iff.mp hq with rfl | rfl | rfl <;> rfl
  | cons c back ih =>
    rw [List.cons_append, List.cons_append, opensGrouping, ih, verdict, List.append_assoc,
      List.singleton_append, endsWithGrouping_over_quote hq, endsWithGrouping_over_quote hq]
    by_cases hclose : c = ')'
    · simp [hclose]
    · by_cases hopen : c = '(' ∧ endsWithGrouping back = true
      · simp [hopen]
      · have hno : (c == '(' && endsWithGrouping back) = false := by
          simpa using hopen
        rw [if_neg hclose, if_neg hopen, hno]
        simp [hclose]

/-! ## 2. Texts with other literals -/

/-- **Texts written so far that differ in their literals**, each of which says what the other does.
They have their last character first. -/
inductive Shadowed : List Char → List Char → Prop
  | nil : Shadowed [] []
  | code {c : Char} {x x' : List Char} : isQuote c = false → Shadowed x x' →
      Shadowed (c :: x) (c :: x')
  | literal {l l' x x' : List Char} : IsLiteral l → IsLiteral l' →
      verdict l.reverse = verdict l'.reverse → Shadowed x x' →
      Shadowed (l.reverse ++ x) (l'.reverse ++ x')

/-- What the texts end with: nothing, the same character of code, or quotes. -/
theorem Shadowed.ends (h : Shadowed x x') : (x = [] ∧ x' = []) ∨
    (∃ c y y', isQuote c = false ∧ x = c :: y ∧ x' = c :: y' ∧ Shadowed y y') ∨
      ∃ q q' y y', isQuote q = true ∧ isQuote q' = true ∧ x = q :: y ∧ x' = q' :: y' := by
  cases h with
  | nil => exact Or.inl ⟨rfl, rfl⟩
  | code hc h => exact Or.inr (Or.inl ⟨_, _, _, hc, rfl, rfl, h⟩)
  | literal hl hl' _ _ =>
    obtain ⟨q, inner, hq, heq⟩ := hl.reverse_eq
    obtain ⟨q', inner', hq', heq'⟩ := hl'.reverse_eq
    rw [heq, heq']
    exact Or.inr (Or.inr ⟨q, q', _, _, hq, hq', rfl, rfl⟩)

theorem Shadowed.append_code (h : Shadowed x x') (ht : ∀ c ∈ t, isQuote c = false) :
    Shadowed (t ++ x) (t ++ x') := by
  induction t with
  | nil => exact h
  | cons c t ih =>
    obtain ⟨hc, ht⟩ := List.forall_mem_cons.mp ht
    exact .code hc (ih ht)

theorem Shadowed.dropBlanks (h : Shadowed x x') : Shadowed (dropBlanks x) (dropBlanks x') := by
  induction h with
  | nil => exact .nil
  | code hc h ih =>
    simp only [Text.dropBlanks, List.dropWhile_cons]
    split
    · exact ih
    · exact .code hc h
  | literal hl hl' hverdict h _ =>
    have hwhole := Shadowed.literal hl hl' hverdict h
    obtain ⟨q, inner, hq, heq⟩ := hl.reverse_eq
    obtain ⟨q', inner', hq', heq'⟩ := hl'.reverse_eq
    rw [heq, heq', List.cons_append, List.cons_append] at hwhole ⊢
    rwa [dropBlanks_cons (isBlank_of_isQuote hq), dropBlanks_cons (isBlank_of_isQuote hq')]

/-- A word is found in both texts or in none. -/
theorem Shadowed.dropWord? {word : List Char} (h : Shadowed x x') (hword : word.all isWord = true) :
    Option.Rel Shadowed (dropWord? word x) (dropWord? word x') := by
  induction word generalizing x x' with
  | nil => exact .some h
  | cons w word ih =>
    obtain ⟨hw, hword⟩ := (Bool.and_eq_true _ _).mp hword
    have hquote : ∀ {q}, isQuote q = true → ¬ fold q = w := by
      rintro q hq rfl
      rw [fold_of_not_isWord (isWord_of_isQuote hq), isWord_of_isQuote hq] at hw
      cases hw
    rcases h.ends with ⟨rfl, rfl⟩ | ⟨c, y, y', -, rfl, rfl, hy⟩ | ⟨q, q', y, y', hq, hq', rfl, rfl⟩
    · exact .none
    · simp only [Text.dropWord?]
      split
      · exact ih hy hword
      · exact .none
    · simp only [Text.dropWord?, if_neg (hquote hq), if_neg (hquote hq')]
      exact .none

theorem Shadowed.atWordStart (h : Shadowed x x') : atWordStart x = atWordStart x' := by
  rcases h.ends with ⟨rfl, rfl⟩ | ⟨c, y, y', -, rfl, rfl, -⟩ | ⟨q, q', y, y', hq, hq', rfl, rfl⟩
  · rfl
  · rfl
  · simp [Query.atWordStart, isWord_of_isQuote hq, isWord_of_isQuote hq']

theorem Shadowed.any_beforeWord? {f : List Char → Bool} (h : Shadowed x x')
    (hwords : words.all (fun w => w.toList.reverse.all isWord) = true)
    (hf : ∀ y y', Shadowed y y' → f y = f y') :
    (words.any fun w => (beforeWord? w x).any f) = words.any fun w => (beforeWord? w x').any f := by
  rw [Bool.eq_iff_iff, List.any_eq_true, List.any_eq_true]
  refine exists_congr fun w => and_congr_right fun hw => ?_
  have hrel := h.dropWord? (List.all_eq_true.mp hwords w hw)
  rw [beforeWord?, beforeWord?]
  generalize Text.dropWord? w.toList.reverse x = o at hrel
  generalize Text.dropWord? w.toList.reverse x' = o' at hrel
  cases hrel with
  | none => rfl
  | some hy => rw [Option.any_some, Option.any_some, hf _ _ hy]

theorem Shadowed.endsWithWord (h : Shadowed x x')
    (hwords : words.all (fun w => w.toList.reverse.all isWord) = true) :
    endsWithWord words x = endsWithWord words x' :=
  h.any_beforeWord? hwords fun _ _ => Shadowed.atWordStart

theorem Shadowed.endsWithOffset (h : Shadowed x x') : endsWithOffset x = endsWithOffset x' := by
  have hblanks := h.dropBlanks
  have hword : Query.endsWithWord ["offset"] (Text.dropBlanks x) =
      Query.endsWithWord ["offset"] (Text.dropBlanks x') := hblanks.endsWithWord (by decide)
  have hother : ∀ {z c y}, Text.dropBlanks z = c :: y → c ≠ '-' →
      Query.endsWithOffset z = Query.endsWithWord ["offset"] (Text.dropBlanks z) := by
    intro z c y hz hc
    refine endsWithOffset_of_not_minus fun rest heq => hc ?_
    rw [hz] at heq
    exact (List.cons.inj heq).1
  rcases hblanks.ends with ⟨hx, hx'⟩ | ⟨c, y, y', -, hx, hx', hy⟩ | ⟨q, q', y, y', hq, hq', hx, hx'⟩
  · rw [Query.endsWithOffset, Query.endsWithOffset, hx, hx']
  · by_cases hc : c = '-'
    · subst hc
      rw [endsWithOffset_of_minus hx, endsWithOffset_of_minus hx']
      exact hy.dropBlanks.endsWithWord (by decide)
    · rw [hother hx hc, hother hx' hc, hword]
  · have hmark : ∀ {q}, isQuote q = true → q ≠ '-' := by
      rintro q hq rfl
      cases hq
    rw [hother hx (hmark hq), hother hx' (hmark hq'), hword]

theorem Shadowed.endsWithGrouping (h : Shadowed x x') :
    endsWithGrouping x = endsWithGrouping x' :=
  h.dropBlanks.any_beforeWord? (by decide) fun _ _ h => h.dropBlanks.endsWithWord (by decide)

/-- **A grouping is open behind both texts or behind none.** -/
theorem Shadowed.opensGrouping (h : Shadowed x x') : opensGrouping x = opensGrouping x' := by
  induction h with
  | nil => rfl
  | code _ h ih => rw [Query.opensGrouping, Query.opensGrouping, h.endsWithGrouping, ih]
  | literal hl hl' hverdict _ ih =>
    rw [opensGrouping_literal hl, opensGrouping_literal hl', hverdict, ih]

theorem Shadowed.closesGrouping (h : Shadowed x x') : closesGrouping x = closesGrouping x' := by
  have hblanks := h.dropBlanks
  unfold Query.closesGrouping
  rcases hblanks.ends with ⟨hx, hx'⟩ | ⟨c, y, y', -, hx, hx', hy⟩ | ⟨q, q', y, y', hq, hq', hx, hx'⟩
  · rw [hx, hx']
  · rw [hx, hx']
    by_cases hc : c = ')'
    · subst hc
      exact hy.opensGrouping
    · split
      · next heq => exact absurd (List.cons.inj heq).1 hc
      · split
        · next heq => exact absurd (List.cons.inj heq).1 hc
        · rfl
  · rw [hx, hx']
    rcases isQuote_iff.mp hq with rfl | rfl | rfl <;>
      rcases isQuote_iff.mp hq' with rfl | rfl | rfl <;> rfl

theorem Shadowed.endsWithScalarOpening (h : Shadowed x x') :
    endsWithScalarOpening x = endsWithScalarOpening x' := by
  rcases h.dropBlanks.ends with
    ⟨hx, hx'⟩ | ⟨c, y, y', -, hx, hx', hy⟩ | ⟨q, q', y, y', hq, hq', hx, hx'⟩
  · rw [Query.endsWithScalarOpening, Query.endsWithScalarOpening, hx, hx']
  · by_cases hc : c = '('
    · subst hc
      rw [endsWithScalarOpening_of_paren hx, endsWithScalarOpening_of_paren hx',
        hy.dropBlanks.endsWithWord (by decide), hy.closesGrouping]
    · rw [endsWithScalarOpening_of_other hx hc, endsWithScalarOpening_of_other hx' hc]
  · have hmark : ∀ {q}, isQuote q = true → q ≠ '(' ∧ (q == '@') = false := by
      intro q hq
      rcases isQuote_iff.mp hq with rfl | rfl | rfl <;> decide
    rw [endsWithScalarOpening_of_other hx (hmark hq).1, endsWithScalarOpening_of_other hx' (hmark hq').1,
      (hmark hq).2, (hmark hq').2]

/-- **Places behind literals that say the same are the same.** -/
theorem Shadowed.position (h : Shadowed x x') (depth : Nat) :
    Position.of x depth = Position.of x' depth := by
  rw [Position.of, Position.of, h.endsWithOffset, h.endsWithScalarOpening]

end PanelLint.Query
