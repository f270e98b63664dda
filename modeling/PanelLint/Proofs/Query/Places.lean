import PanelLint.Proofs.Promql.Exchange
import PanelLint.Proofs.Promql.Runs
import PanelLint.Proofs.Promql.Steps
import PanelLint.Proofs.Query.Structure
/-!
# Brackets and braces, for the lexer and for expansion

Where a reference stands is read off the text before it (`Position.of`); what a token may be
exchanged for depends on the tokens before it.  The mode of the lexer lies between the two.

* `Took.openBrackets_eq`: the lexer is in brackets just where the code has one bracket open, string
  literals and comments aside;
* `Run.inBraces_iff`: it is in braces just where the tokens so far leave braces open.
-/

namespace PanelLint.Promql.Lexer

open PanelLint.Text
open PanelLint.Query (isQuote isInert isInert_of_class
  openBrackets_of_inert)

/-! ## 1. Brackets -/

/-- The number of square brackets open in a mode. -/
def Mode.openBrackets : Mode → Nat
  | .brackets _ _ => 1
  | _ => 0

variable {s s' : State} {c : Char} {w rest before : List Char} {t : Option Token}
  {u : Token} {prev : List Token}

theorem isInert_of_isNumberChar {d : Char} (h : isNumberChar d = true) : isInert d = true :=
  isInert_of_class (by decide) h

theorem isInert_of_isWordRest {d : Char} (h : isWordRest d = true) : isInert d = true :=
  isInert_of_class (by decide) h

theorem isNumberChar_of_beginsNumber {mode : Mode} {cs : List Char} (h : beginsNumber mode c cs) :
    isNumberChar c = true := by
  rcases h with ⟨hd, -⟩ | ⟨-, rfl, -⟩
  · exact isNumberChar_of_isDigit hd
  · decide

/-- Beside literals and comments, what is taken is inert or a single bracket. -/
theorem Took.inert_or_bracket (h : Took s (c :: w) t s' rest) (hq : isQuote c = false)
    (hc : c ≠ '#') : (∀ d ∈ c :: w, isInert d = true) ∨ ((c = '[' ∨ c = ']') ∧ w = []) := by
  have hsingle : ∀ d : Char, isInert d = true → ∀ e ∈ [d], isInert e = true := by
    intro d hd e he
    rwa [List.mem_singleton.mp he]
  cases h with
  | blank hspace => exact Or.inl (hsingle c (isInert_of_class (by decide) hspace))
  | comment => exact absurd rfl hc
  | mark hw _ =>
    have hall : (marks .plain ++ marks .braces).all (fun m => m.1.all isInert) = true := by decide
    exact Or.inl (List.all_eq_true.mp (List.all_eq_true.mp hall _ (mem_all_marks hw)))
  | number hb hr =>
    have hfirst := isNumberChar_of_beginsNumber hb
    refine Or.inl fun d hd => isInert_of_isNumberChar ?_
    rcases List.mem_cons.mp hd with rfl | hd
    · exact hfirst
    · exact isNumberChar_of_readNumber hfirst hr d hd
  | string _ hquote _ => exact absurd hquote (by simp [hq])
  | word _ _ hw _ => exact Or.inl fun d hd => isInert_of_class (by decide) (hw d hd)
  | label _ hstart hw _ _ =>
    refine Or.inl fun d hd => isInert_of_isWordRest ?_
    rcases List.mem_cons.mp hd with rfl | hd
    · exact isWordRest_of_isWordStart hstart
    · exact hw d hd
  | or _ hfirst hsecond _ =>
    refine Or.inl (List.all_eq_true.mp ?_)
    rcases hfirst with rfl | rfl <;> rcases hsecond with rfl | rfl <;> decide
  | openParen _ => exact Or.inl (hsingle _ (by decide))
  | closeParen _ _ => exact Or.inl (hsingle _ (by decide))
  | openBraces _ => exact Or.inl (hsingle _ (by decide))
  | closeBraces _ => exact Or.inl (hsingle _ (by decide))
  | openBrackets _ => exact Or.inr ⟨Or.inl rfl, rfl⟩
  | closeBrackets _ => exact Or.inr ⟨Or.inr rfl, rfl⟩
  | colon _ => exact Or.inl (hsingle _ (by decide))

theorem settled_openBrackets (s : State) : s.settled.mode.openBrackets = s.mode.openBrackets := by
  unfold State.settled
  split
  · next hm => rw [hm]; rfl
  · rfl

/-- What is neither a bracket nor anything else that changes the mode leaves the brackets open that
were. -/
theorem Took.mode_of_inert (h : Took s (c :: w) t s' rest) (hc : c ≠ '[' ∧ c ≠ ']') :
    s'.mode.openBrackets = s.mode.openBrackets := by
  cases h with
  | blank _ => exact settled_openBrackets s
  | number _ _ => exact settled_openBrackets s
  | openBraces hm => rw [hm]; rfl
  | closeBraces hm => rw [hm]; rfl
  | openBrackets _ => exact absurd rfl hc.1
  | closeBrackets _ => exact absurd rfl hc.2
  | colon hm => rw [hm]; rfl
  | _ => rfl

/-- An opening bracket is taken outside brackets and braces, a closing one in brackets. -/
theorem mode_of_bracket (h : step s c rest = .ok (t, s', rest)) :
    (c = '[' → s.mode = .plain ∧ s'.mode = .brackets false true) ∧
      (c = ']' → (∃ a b, s.mode = .brackets a b) ∧ s'.mode = .plain) := by
  obtain ⟨mode, depth⟩ := s
  constructor
  · rintro rfl
    cases mode with
    | plain =>
      cases h
      exact ⟨rfl, rfl⟩
    | braces => cases h
    | brackets a b => cases h
  · rintro rfl
    cases mode with
    | plain => cases h
    | braces => cases h
    | brackets a b =>
      cases h
      exact ⟨⟨a, b, rfl⟩, rfl⟩

/-- **The lexer counts brackets as the code does**, string literals and comments aside. -/
theorem Took.openBrackets_eq (h : Took s (c :: w) t s' rest) (hq : isQuote c = false)
    (hc : c ≠ '#') : Query.openBrackets s.mode.openBrackets (c :: w) = s'.mode.openBrackets := by
  rcases h.inert_or_bracket hq hc with hinert | ⟨hbracket, rfl⟩
  · have hfirst := hinert c List.mem_cons_self
    rw [openBrackets_of_inert hinert, h.mode_of_inert]
    constructor <;> (rintro rfl; exact absurd hfirst (by decide))
  · obtain ⟨hopen, hclose⟩ := mode_of_bracket (h.step_eq hc)
    rcases hbracket with rfl | rfl
    · obtain ⟨hs, hs'⟩ := hopen rfl
      rw [hs, hs']
      rfl
    · obtain ⟨⟨a, b, hs⟩, hs'⟩ := hclose rfl
      rw [hs, hs']
      rfl

/-! ## 2. Braces -/

/-- The tokens that a word can be. -/
theorem wordToken_cases (w : List Char) :
    (∃ text, wordToken w = .number text) ∨
    (∃ k text, wordToken w = .keyword k text ∧
      Keyword.ofWord? (String.ofList (w.map Char.toLower)) = some k) ∨
    (∃ text, wordToken w = .metric text) ∨
    (wordToken w = .identifier (String.ofList w) ∧ ':' ∉ w) := by
  unfold wordToken
  dsimp only
  split
  · exact Or.inl ⟨_, rfl⟩
  split
  · next k hk => exact Or.inr (Or.inl ⟨k, _, rfl, hk⟩)
  split
  · exact Or.inr (Or.inr (Or.inl ⟨_, rfl⟩))
  · next hcolon => exact Or.inr (Or.inr (Or.inr ⟨rfl, by simpa using hcolon⟩))

/-- Whether a token neither opens nor closes anything that the braces so far depend on. -/
def leavesBraces (u : Token) : Bool := u != .leftBrace && u != .rightBrace && u != .leftParen

theorem inBraces_cons_of_leavesBraces (h : leavesBraces u = true) :
    inBraces (u :: prev) = inBraces prev := by
  cases u <;> first | rfl | exact absurd h (by decide)

theorem leavesBraces_of_isQuantity (h : u.isQuantity = true) : leavesBraces u = true := by
  cases u <;> first | rfl | exact absurd h (by simp [Token.isQuantity])

theorem leavesBraces_wordToken (w : List Char) : leavesBraces (wordToken w) = true := by
  obtain ⟨_, h⟩ | ⟨_, _, h, -⟩ | ⟨_, h⟩ | ⟨h, -⟩ := wordToken_cases w <;> rw [h] <;> rfl

theorem settled_mode_eq_braces : s.settled.mode = .braces ↔ s.mode = .braces := by
  unfold State.settled
  split
  · next hm => simp [hm]
  · rfl

/-- **Every step keeps the tokens in accord with the mode.** -/
theorem Took.inBraces_iff (h : Took s w t s' rest) (hs : inBraces prev = true ↔ s.mode = .braces) :
    inBraces (t.toList ++ prev) = true ↔ s'.mode = .braces := by
  have hleaves : ∀ {u : Token}, leavesBraces u = true → (inBraces (u :: prev) = true ↔ s.mode = .braces) :=
    fun hu => by rw [inBraces_cons_of_leavesBraces hu]; exact hs
  cases h with
  | blank _ => rw [settled_mode_eq_braces]; exact hs
  | comment => exact hs
  | mark hw _ =>
    have hall : (marks .plain ++ marks .braces).all (fun m => leavesBraces m.2.1) = true := by decide
    exact hleaves (List.all_eq_true.mp hall _ (mem_all_marks hw))
  | number _ hr =>
    rw [settled_mode_eq_braces]
    exact hleaves (leavesBraces_of_isQuantity (isQuantity_of_readNumber hr))
  | string _ _ _ => exact hleaves rfl
  | word _ _ _ _ => exact hleaves (leavesBraces_wordToken _)
  | label _ _ _ _ _ => exact hleaves rfl
  | or _ _ _ _ => exact hleaves rfl
  | openParen hm => simp [inBraces, hm]
  | closeParen _ _ => exact hleaves rfl
  | openBraces _ => simp [inBraces]
  | closeBraces _ => simp [inBraces]
  | openBrackets hm => simpa [hm] using hleaves (u := .leftBracket) rfl
  | closeBrackets hm => simpa [hm] using hleaves (u := .rightBracket) rfl
  | colon hm => simpa [hm] using hleaves (u := .colon) rfl

theorem inBraces_iff_of_run {cs : List Char} {ts : List Token} (h : Run s cs ts s' rest)
    (hs : inBraces prev = true ↔ s.mode = .braces) :
    inBraces (ts.reverse ++ prev) = true ↔ s'.mode = .braces := by
  induction h generalizing prev with
  | done => exact hs
  | @step _ _ _ _ _ _ _ t _ hstep _ ih =>
    obtain ⟨w, -, htook⟩ := took_of_step hstep
    have hone : t.toList.reverse = t.toList := by cases t <;> rfl
    rw [List.reverse_append, List.append_assoc, hone]
    exact ih (htook.inBraces_iff hs)

/-- **The lexer is in braces** just where the tokens of its run leave some open. -/
theorem Run.inBraces_iff {cs : List Char} {ts : List Token} (h : Run {} cs ts s rest) :
    inBraces ts.reverse = true ↔ s.mode = .braces := by
  have hstart : inBraces [] = true ↔ ({} : State).mode = .braces := by simp [inBraces]
  simpa using inBraces_iff_of_run h hstart

end PanelLint.Promql.Lexer

namespace PanelLint.Query

open PanelLint.Text PanelLint.Promql PanelLint.Promql.Lexer

variable {c : Char} {before : List Char}

/-! ## 3. Blanks and positions -/

theorem not_isBlank_of_isNameRest (h : isNameRest c = true) : isBlank c = false := by
  rw [Bool.eq_false_iff, Ne, isBlank, CodePoints.has_iff]
  simp only [isNameRest, isWordRest, Char.isAlphanum, isAlpha_iff, Char.isDigit, Bool.or_eq_true,
    Bool.and_eq_true, decide_eq_true_eq, beq_iff_eq, UInt32.le_iff_toNat_le, ge_iff_le] at h
  rintro ⟨r, hr, hlow, hhigh⟩
  have hval : c.toNat = c.val.toNat := rfl
  have hascii : 48 ≤ c.toNat ∧ c.toNat ≤ 122 := by
    rcases h with ((((h | h) | h) | rfl) | rfl)
    · exact ⟨Nat.le_trans (by decide) (hval ▸ h.1), Nat.le_trans (hval ▸ h.2) (by decide)⟩
    · exact ⟨Nat.le_trans (by decide) (hval ▸ h.1), Nat.le_trans (hval ▸ h.2) (by decide)⟩
    · exact ⟨Nat.le_trans (by decide) (hval ▸ h.1), Nat.le_trans (hval ▸ h.2) (by decide)⟩
    · decide
    · decide
  have hall : blanks.all (fun r => decide (r.2 < 48) || decide (122 < r.1)) = true := by decide
  have := List.all_eq_true.mp hall r hr
  simp only [Bool.or_eq_true, decide_eq_true_eq] at this
  omega

theorem dropBlanks_cons (h : isBlank c = false) : dropBlanks (c :: before) = c :: before :=
  List.dropWhile_cons_of_neg (by simp [h])

/-- A text that ends with another character than any of some words ends with none of them. -/
theorem endsWithWord_cons {words : List String} {r : List Char}
    (h : words.all (fun word => word.toList.reverse.head?.any (· != fold c)) = true) :
    endsWithWord words (c :: r) = false := by
  rw [endsWithWord, List.any_eq_false]
  intro word hword
  have hhead := List.all_eq_true.mp h word hword
  unfold beforeWord?
  cases hrev : word.toList.reverse with
  | nil => simp [hrev] at hhead
  | cons d ds =>
    have hne : fold c ≠ d := by
      simp only [hrev, List.head?_cons, Option.any_some, bne_iff_ne] at hhead
      exact fun heq => hhead heq.symm
    simp [dropWord?, hne]

theorem position_eq_range {depth : Nat} (h : 0 < depth) : Position.of before depth = .range := by
  simp [Position.of, h]

end PanelLint.Query
