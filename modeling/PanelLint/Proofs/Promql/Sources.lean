import PanelLint.Proofs.Promql.Steps
import PanelLint.Proofs.Promql.Runs
import PanelLint.Proofs.Text.Lines
/-!
# What is shown of a text

A token keeps the text that it was read from, and a lexical error shows characters of the text, or
none.  So neither has a character that the text does not have.

* `LexError.oneLine_message`: the message of a lexical error is on one line if what it shows is;
* `failsWithin_step`, `Took.text_subset`: what a step fails with, and what it takes;
* `tokensFrom_within`: the errors and the tokens of a text.
-/

namespace PanelLint.Promql

open PanelLint.Text

/-! ## 1. Lexical errors

The readers are gone through from the literals up to the step.  Every error that shows a character
shows the one it stopped at, so a reader that failed before it shows nothing of the text.
-/

/-- The characters that a lexical error shows. -/
def LexError.shown : LexError → List Char
  | .afterEqual c | .afterBang c | .afterPoint c | .unexpected c => [c]
  | .unknownEscape c | .openString c | .afterBangInBraces c | .inBraces c | .inBrackets c => [c]
  | .badNumber text => text.toList
  | _ => []

/-- A character is shown as it is, between apostrophes. -/
theorem oneLine_shown {c : Char} (h : '\n' ∉ [c]) : OneLine (shown c) := by
  rw [shown, oneLine_ofList]
  simpa using h

/-- What a lexical error says has no line break but one that it shows. -/
theorem LexError.oneLine_message {e : LexError} (h : '\n' ∉ e.shown) : OneLine e.message := by
  rw [LexError.message.eq_def]
  cases e with
  | afterEqual c | afterBang c | afterPoint c | unknownEscape c | afterBangInBraces c | inBraces c
  | inBrackets c =>
    simp only [oneLine_append, oneLine_shown h, and_true]
    exact oneLine_ofList.mpr (by decide)
  | unexpected c =>
    simp only [oneLine_append, oneLine_quotedChar, and_true]
    exact oneLine_ofList.mpr (by decide)
  | badNumber text => exact oneLine_append.mpr ⟨oneLine_ofList.mpr (by decide), h⟩
  | openString c =>
    exact oneLine_append.mpr ⟨oneLine_ofList.mpr (by decide), oneLine_ofList.mpr h⟩
  | _ =>
    dsimp only
    exact oneLine_ofList.mpr (by decide)

namespace Lexer

variable {α β : Type} {s s' : State} {c : Char} {cs ds rest : List Char}

/-- **A reader fails within a text**: an error of it shows characters of the text only. -/
def FailsWithin (cs : List Char) (x : Except LexError α) : Prop := ∀ e, x = .error e → e.shown ⊆ cs

/-- A reader that gives something does not fail. -/
theorem failsWithin_ok {a : α} : FailsWithin cs (.ok a) := fun _ h => nomatch h

/-- An error fails within the text that has what it shows. -/
theorem failsWithin_error {e : LexError} (h : e.shown ⊆ cs) :
    FailsWithin cs (.error e : Except LexError α) := by
  rintro _ ⟨⟩
  exact h

/-- What is shown of a part is of the whole. -/
theorem FailsWithin.mono {x : Except LexError α} (h : FailsWithin cs x) (hsub : cs ⊆ ds) :
    FailsWithin ds x := fun e he => List.Subset.trans (h e he) hsub

/-- What is made of the result does not change the error. -/
theorem FailsWithin.map {x : Except LexError α} {f : α → β} (h : FailsWithin cs x) :
    FailsWithin cs (x.map f) := by
  cases x with
  | error e => exact failsWithin_error (h e rfl)
  | ok a => exact failsWithin_ok

/-- **A string literal** fails with the character after a backslash, or with the quote at its open end;
by recursion on the literal. -/
theorem failsWithin_readString (quote : Char) :
    FailsWithin (quote :: cs) (readString quote cs) := by
  fun_induction readString quote cs with
  | case1 => exact failsWithin_error (by simp [LexError.shown])
  | case2 => exact failsWithin_error (by simp [LexError.shown])
  | case3 d ds _ ih =>
    refine (ih.mono (List.cons_subset_cons quote ?_)).map
    exact List.subset_cons_of_subset _ (List.subset_cons_self d ds)
  | case4 => exact failsWithin_error (by simp [LexError.shown])
  | case5 => exact failsWithin_ok
  | case6 c cs _ _ ih =>
    exact (ih.mono (List.cons_subset_cons quote (List.subset_cons_self c cs))).map

/-- **A number** fails with what was taken for it and the character that goes on with it. -/
theorem failsWithin_readNumber : FailsWithin (c :: cs) (readNumber c cs) := by
  have happ : (takeNumber c cs).1 ++ ((takeDuration (takeNumber c cs).2).1 ++
      (takeDuration (takeNumber c cs).2).2.1) = c :: cs := by
    rw [takeDuration_append, takeNumber_append]
  unfold readNumber
  dsimp only
  split
  · exact failsWithin_ok
  split
  · exact failsWithin_ok
  · refine failsWithin_error ?_
    rw [LexError.shown, String.toList_ofList, ← happ, ← List.append_assoc]
    exact List.append_subset.mpr ⟨List.subset_append_left _ _,
      List.Subset.trans (List.take_subset 1 _) (List.subset_append_right _ _)⟩

theorem failsWithin_emit {t : Token} : FailsWithin ds (emit s t rest) := failsWithin_ok

theorem failsWithin_stepString : FailsWithin (c :: cs) (stepString s c cs) :=
  (failsWithin_readString c).map

theorem failsWithin_stepNumber : FailsWithin (c :: cs) (stepNumber s c cs) :=
  failsWithin_readNumber.map

/-- Behind `=`, the one error shows the character that should not follow. -/
theorem failsWithin_stepEqual : FailsWithin (c :: cs) (stepEqual s cs) := by
  unfold stepEqual
  split
  · exact failsWithin_emit
  · exact failsWithin_error (by simp [LexError.shown])
  · exact failsWithin_emit

/-- Likewise behind `!`, which does not stand at the end either. -/
theorem failsWithin_stepBang : FailsWithin (c :: cs) (stepBang s cs) := by
  unfold stepBang
  split
  · exact failsWithin_emit
  · exact failsWithin_error (by simp [LexError.shown])
  · exact failsWithin_error (List.nil_subset _)

/-- `<` and `>` are tokens whatever follows. -/
theorem failsWithin_stepOrder {alone withEqual : Operator} :
    FailsWithin ds (stepOrder s alone withEqual cs) := by
  unfold stepOrder
  split <;> exact failsWithin_emit

/-- A point that begins no number shows what follows it. -/
theorem failsWithin_stepPoint : FailsWithin ('.' :: cs) (stepPoint s cs) := by
  unfold stepPoint
  split
  · exact failsWithin_error (by simp [LexError.shown])
  · split
    · exact failsWithin_stepNumber
    · exact failsWithin_error (by simp [LexError.shown])

/-- Parentheses fail only where one closes that was not opened, and show nothing then. -/
theorem failsWithin_stepParen {opening : Bool} : FailsWithin ds (stepParen s opening cs) := by
  unfold stepParen
  split
  · exact failsWithin_ok
  split
  · exact failsWithin_error (List.nil_subset _)
  · exact failsWithin_ok

/-- Brackets of all kinds; what is none of them begins nothing here, and is shown. -/
theorem failsWithin_stepBracket : FailsWithin (c :: cs) (stepBracket s c cs) := by
  unfold stepBracket
  split
  · exact failsWithin_stepParen
  split
  · exact failsWithin_stepParen
  split
  · exact failsWithin_ok
  split
  · exact failsWithin_error (List.nil_subset _)
  split
  · exact failsWithin_ok
  split
  · exact failsWithin_error (List.nil_subset _)
  · exact failsWithin_error (by simp [LexError.shown])

/-- The lexemes outside braces and brackets, in the order they are tried in. -/
theorem failsWithin_stepLexeme : FailsWithin (c :: cs) (stepLexeme s c cs) := by
  unfold stepLexeme
  split
  · exact failsWithin_stepNumber
  split
  · next hc => exact hc ▸ failsWithin_stepPoint
  split
  · exact failsWithin_stepString
  split
  · exact failsWithin_emit
  · exact failsWithin_stepBracket

/-- **Outside braces and brackets.** -/
theorem failsWithin_stepPlain : FailsWithin (c :: cs) (stepPlain s c cs) := by
  unfold stepPlain
  split
  · exact failsWithin_emit
  unfold stepOther
  split
  · exact failsWithin_ok
  split
  · exact failsWithin_ok
  split
  · exact failsWithin_stepEqual
  split
  · exact failsWithin_stepBang
  split
  · exact failsWithin_stepOrder
  split
  · exact failsWithin_stepOrder
  · exact failsWithin_stepLexeme

theorem failsWithin_stepBangInBraces : FailsWithin (c :: cs) (stepBangInBraces s cs) := by
  unfold stepBangInBraces
  split
  · exact failsWithin_emit
  · exact failsWithin_emit
  · exact failsWithin_error (by simp [LexError.shown])
  · exact failsWithin_error (List.nil_subset _)

/-- **In braces.** -/
theorem failsWithin_stepBraces : FailsWithin (c :: cs) (stepBraces s c cs) := by
  unfold stepBraces
  split
  · exact failsWithin_ok
  split
  · exact failsWithin_ok
  split
  · exact failsWithin_emit
  split
  · exact failsWithin_stepString
  split
  · unfold stepEqualInBraces
    split <;> exact failsWithin_emit
  split
  · exact failsWithin_stepBangInBraces
  split
  · exact failsWithin_error (List.nil_subset _)
  split
  · exact failsWithin_ok
  split
  · split <;> exact failsWithin_emit
  · exact failsWithin_error (by simp [LexError.shown])

/-- **In brackets.** -/
theorem failsWithin_stepBrackets {colon fresh : Bool} :
    FailsWithin (c :: cs) (stepBrackets s colon fresh c cs) := by
  unfold stepBrackets
  split
  · exact failsWithin_ok
  split
  · split
    · exact failsWithin_error (List.nil_subset _)
    split
    · exact failsWithin_error (List.nil_subset _)
    · exact failsWithin_ok
  split
  · exact failsWithin_stepNumber
  split
  · exact failsWithin_ok
  split
  · exact failsWithin_error (List.nil_subset _)
  · exact failsWithin_error (by simp [LexError.shown])

/-- **A step fails within the text that it is taken on.** -/
theorem failsWithin_step : FailsWithin (c :: cs) (step s c cs) := by
  unfold step
  split
  · exact failsWithin_stepPlain
  · exact failsWithin_stepBraces
  · exact failsWithin_stepBrackets

/-- The end of a text fails for what is still open, and shows nothing of it. -/
theorem failsWithin_finish : FailsWithin cs (finish s) := by
  unfold finish
  split
  · split
    · exact failsWithin_ok
    · exact failsWithin_error (List.nil_subset _)
  · exact failsWithin_error (List.nil_subset _)
  · exact failsWithin_error (List.nil_subset _)

/-! ## 2. Tokens

Three kinds of tokens keep a text, words, numbers and literals, and all that they keep is of what the
step took (`Took`).
-/

end Lexer

/-- The text that a token keeps. -/
@[simp] def Token.text? : Token → Option String
  | .identifier text | .metric text | .keyword _ text => some text
  | .number text | .duration text | .string text => some text
  | _ => none

namespace Lexer

variable {t : Token} {w text : List Char}

/-- A literal keeps its characters, escapes as they are written; by recursion on it. -/
theorem subset_of_readString {quote : Char} (h : readString quote cs = .ok (text, rest)) :
    text ⊆ cs := by
  fun_induction readString quote cs generalizing text with
  | case1 => cases h
  | case2 => cases h
  | case3 d ds _ ih =>
    cases hr : readString quote ds with
    | error e => rw [hr] at h; cases h
    | ok x =>
      rw [hr] at h
      cases h
      exact List.cons_subset_cons _ (List.cons_subset_cons _ (ih hr))
  | case4 => cases h
  | case5 =>
    cases h
    exact List.nil_subset _
  | case6 c cs _ _ ih =>
    cases hr : readString quote cs with
    | error e => rw [hr] at h; cases h
    | ok x =>
      rw [hr] at h
      cases h
      exact List.cons_subset_cons _ (ih hr)

/-- A word keeps its text, whichever token it is. -/
theorem text?_wordToken (w : List Char) : (wordToken w).text? = some (String.ofList w) := by
  unfold wordToken
  dsimp only
  split
  · rfl
  split
  · rfl
  split <;> rfl

/-- A mark keeps no text. -/
theorem text?_of_mem_marks {mode : Mode} {stop : List Char} (h : (w, t, stop) ∈ marks mode) :
    t.text? = none := by
  have hall : (marks .plain ++ marks .braces).all (fun m => m.2.1.text?.isNone) = true := by decide
  exact Option.isNone_iff_eq_none.mp (List.all_eq_true.mp hall _ (mem_all_marks h))

/-- **What a step takes**, as far as its token keeps it, is of the text before it. -/
theorem Took.text_subset (h : Took s w (some t) s' rest) :
    ∀ text ∈ t.text?, text.toList ⊆ w ++ rest := by
  intro text htext
  generalize hsome : some t = t' at h
  cases h with
  | mark hmark _ =>
    cases hsome
    rw [text?_of_mem_marks hmark] at htext
    cases htext
  | @number c w _ _ _ hread =>
    cases hsome
    obtain ⟨n, -, -, hcs, rfl⟩ | ⟨n, r, units, -, -, hcs, -, hr, rfl⟩ := readNumber_eq_ok hread
    · cases htext
      obtain rfl := List.append_cancel_right hcs
      rw [String.toList_ofList]
      exact List.subset_append_left _ rest
    · cases htext
      rw [← hr, ← List.append_assoc] at hcs
      obtain rfl := List.append_cancel_right hcs
      rw [String.toList_ofList]
      exact List.subset_append_left _ rest
  | string _ _ hread =>
    cases hsome
    cases htext
    rw [String.toList_ofList]
    exact List.subset_cons_of_subset _ (subset_of_readString hread)
  | word _ _ _ _ =>
    cases hsome
    rw [text?_wordToken] at htext
    cases htext
    rw [String.toList_ofList]
    exact List.subset_append_left _ rest
  | label _ _ _ _ _ =>
    cases hsome
    cases htext
    rw [String.toList_ofList]
    exact List.subset_append_left _ rest
  | or _ _ _ _ =>
    cases hsome
    cases htext
    rw [String.toList_ofList]
    exact List.subset_append_left _ rest
  | blank | comment => cases hsome
  | _ =>
    cases hsome
    cases htext

/-- A text whose first step fails has the error of that step. -/
theorem tokensFrom_error {e : LexError} (h : step s c cs = .error e) :
    tokensFrom s (c :: cs) = .error e := by
  rw [tokensFrom]
  split
  · next h' =>
    rw [h] at h'
    cases h'
    rfl
  · next h' =>
    rw [h] at h'
    cases h'

/-- **The errors and the tokens of a text** show no character that it does not have. -/
theorem tokensFrom_within (s : State) (cs : List Char) : FailsWithin cs (tokensFrom s cs) ∧
    ∀ ts, tokensFrom s cs = .ok ts → ∀ t ∈ ts, ∀ text ∈ t.text?, text.toList ⊆ cs := by
  induction s, cs using tokensFrom.induct with
  | case1 s =>
    rw [tokensFrom]
    refine ⟨failsWithin_finish, fun ts hts => ?_⟩
    unfold finish at hts
    split at hts
    · split at hts
      · cases hts
        simp [Token.text?]
      · cases hts
    · cases hts
    · cases hts
  | case2 s c cs e hstep =>
    rw [tokensFrom_error hstep]
    refine ⟨failsWithin_error (failsWithin_step e hstep), fun ts hts => ?_⟩
    cases hts
  | case3 s c cs t s' rest hstep _ ih =>
    obtain ⟨w, rfl, htook⟩ := took_of_step hstep
    have hsub : rest ⊆ c :: (w ++ rest) :=
      List.subset_cons_of_subset c (List.subset_append_right w rest)
    rw [tokensFrom_step hstep]
    refine ⟨(ih.1.mono hsub).map, fun ts hts u hu text htext => ?_⟩
    cases hrest : tokensFrom s' rest with
    | error e =>
      rw [hrest] at hts
      cases hts
    | ok us =>
      rw [hrest] at hts
      cases hts
      rcases List.mem_append.mp hu with hu | hu
      · obtain rfl : t = some u := Option.mem_toList.mp hu
        exact htook.text_subset text htext
      · exact List.Subset.trans (ih.2 us hrest u hu text htext) hsub

end Lexer

end PanelLint.Promql
