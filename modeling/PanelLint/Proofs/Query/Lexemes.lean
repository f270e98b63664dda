import PanelLint.Proofs.Promql.Runs
import PanelLint.Proofs.Query.Places
/-!
# Texts as tokens

What the lexer makes of the texts that stand in for references, and of string literals and comments.

* `Reads`: a text that is read as one token wherever no word and no number goes on behind it, and
  `Reads.took`, that the lexer takes it;
* `placeholder_cases`: the word that is written for a variable without a value;
* `rest_of_literal`: a literal ends for the lexer where it ends for expansion;
* `dropComment_append`: a comment passes over all that has no line break.
-/

namespace PanelLint.Query

open PanelLint.Text PanelLint.Promql PanelLint.Promql.Lexer

variable {c : Char} {name v w before rest : List Char} {s s' : State} {t : Option Token} {u : Token}

/-! ## 1. Texts that are read as one token -/

theorem isWordRest_of_isDigit (h : c.isDigit = true) : isWordRest c = true := by
  simp [isWordRest, Char.isAlphanum, h]

theorem not_isDigit_of_isWordStart (h : isWordStart c = true) : c.isDigit = false := by
  cases hd : c.isDigit with
  | false => rfl
  | true =>
    exfalso
    simp only [isWordStart, Bool.or_eq_true, beq_iff_eq] at h
    rcases h with h | rfl
    · simp only [isAlpha_iff, Char.isDigit, Bool.and_eq_true, decide_eq_true_eq,
        UInt32.le_iff_toNat_le, ge_iff_le] at h hd
      have h9 : '9'.val.toNat = 57 := rfl
      omega
    · exact absurd hd (by decide)

/-- **No word and no number goes on into a text**, in a state of the lexer.  Outside brackets a colon is
part of a word. -/
def Parted (s : State) (cs : List Char) : Prop :=
  ∀ c ∈ cs.head?, glues c = false ∧ (c = ':' → ∃ a b, s.mode = .brackets a b)

theorem parted_of_all {cs : List Char}
    (h : (cs.take 1).all (fun c => !glues c && c != ':') = true) : Parted s cs := by
  intro c hc
  cases cs with
  | nil => cases hc
  | cons d cs =>
    cases hc
    have hd := List.all_eq_true.mp h c List.mem_cons_self
    simp only [Bool.and_eq_true, Bool.not_eq_true', bne_iff_ne] at hd
    exact ⟨hd.1, fun heq => absurd heq hd.2⟩

theorem Parted.endsRun_glues (h : Parted s rest) : EndsRun glues rest := fun d hd => (h d hd).1

theorem Parted.endsRun_isWordRest (h : Parted s rest) : EndsRun isWordRest rest :=
  h.endsRun_glues.mono fun _ => glues_of_isWordRest

/-- The characters of names are those that words and numbers go on with, and colons. -/
theorem glues_or_colon (h : isNameRest c = true) : glues c = true ∨ c = ':' := by
  simp only [isNameRest, Bool.or_eq_true, beq_iff_eq] at h
  exact h.imp_left glues_of_isWordRest

theorem Parted.endsRun_isNameRest (h : Parted s rest) (hm : s.mode = .plain) :
    EndsRun isNameRest rest := by
  intro d hd
  obtain ⟨hglues, hcolon⟩ := h d hd
  cases hname : isNameRest d with
  | false => rfl
  | true =>
    rcases glues_or_colon hname with hg | rfl
    · exact absurd hg (by simp [hglues])
    · obtain ⟨a, b, hbrackets⟩ := hcolon rfl
      exact absurd (hm.symm.trans hbrackets) (by simp)

/-- **A text that is read as one token** in a state, wherever no word and no number goes on behind it. -/
inductive Reads (s : State) : List Char → Token → State → Prop
  | duration {c : Char} {w : List Char} {text : String} : c.isDigit = true → s.mode ≠ .braces →
      readNumber c w = .ok (.duration text, []) → Reads s (c :: w) (.duration text) s.settled
  | one : s.mode ≠ .braces → Reads s ['1'] (.number "1") s.settled
  | word {c : Char} {w : List Char} : s.mode = .plain → c.isDigit = false →
      (∀ d ∈ c :: w, isNameRest d = true) → Reads s (c :: w) (wordToken (c :: w)) s
  | label {c : Char} {w : List Char} : s.mode = .braces → isWordStart c = true →
      (∀ d ∈ w, isWordRest d = true) → (c :: w).map Char.toLower ≠ "or".toList →
      Reads s (c :: w) (.identifier (String.ofList (c :: w))) s

/-- No word but `or` is taken for `or`. -/
theorem beginsOr_eq_false (hw : ∀ d ∈ w, isWordRest d = true) (hrest : EndsRun isWordRest rest)
    (hor : (c :: w).map Char.toLower ≠ "or".toList) : beginsOr c (w ++ rest) = false := by
  unfold beginsOr
  split
  · next d tail hcs =>
    by_contra hbegins
    simp only [Bool.and_eq_false_iff, not_or, Bool.not_eq_false, Bool.or_eq_true, beq_iff_eq] at hbegins
    cases w with
    | nil =>
      have hd : isWordRest d = false := hrest d (by rw [List.nil_append] at hcs; rw [hcs]; rfl)
      rcases hbegins.2 with rfl | rfl <;> exact absurd hd (by decide)
    | cons e w =>
      obtain ⟨rfl, htail⟩ := List.cons.inj hcs
      cases w with
      | nil =>
        refine hor ?_
        obtain ⟨rfl | rfl, rfl | rfl⟩ := hbegins <;> decide
      | cons f w =>
        obtain ⟨rfl, -⟩ := List.cons.inj htail
        exact absurd (hw ' ' (by simp)) (by decide)
  · rfl

/-- **It is taken as that token.** -/
theorem Reads.took (h : Reads s v u s') (hrest : Parted s rest) : Took s v (some u) s' rest := by
  cases h with
  | duration hc hm hr =>
    exact Took.number (Or.inl ⟨hc, hm⟩) (readNumber_duration hr hrest.endsRun_isWordRest)
  | one hm => exact Took.number (Or.inl ⟨by decide, hm⟩) (readNumber_one hrest.endsRun_glues)
  | word hm hc hw => exact Took.word hm hc hw (hrest.endsRun_isNameRest hm)
  | label hm hc hw hor =>
    have hends := hrest.endsRun_isWordRest
    exact Took.label hm hc hw hends (beginsOr_eq_false hw hends hor)

/-- It begins as words and numbers do. -/
theorem Reads.exists_cons (h : Reads s v u s') : ∃ c w, v = c :: w ∧ (glues c = true ∨ c = ':') := by
  cases h with
  | duration hc _ _ => exact ⟨_, _, rfl, Or.inl (glues_of_isWordRest (isWordRest_of_isDigit hc))⟩
  | one _ => exact ⟨_, _, rfl, Or.inl (by decide)⟩
  | word _ _ hw => exact ⟨_, _, rfl, glues_or_colon (hw _ List.mem_cons_self)⟩
  | label _ hc _ _ => exact ⟨_, _, rfl, Or.inl (glues_of_isWordRest (isWordRest_of_isWordStart hc))⟩

/-- A duration ends with the letter of a unit. -/
theorem last_of_readNumber_duration {text : String}
    (h : readNumber c w = .ok (.duration text, [])) : ∃ d ∈ w.getLast?, isWordRest d = true := by
  obtain ⟨n, -, -, -, hnumber⟩ | ⟨n, r, units, -, -, rfl, hd, hunits, -⟩ := readNumber_eq_ok h
  · cases hnumber
  rw [List.append_nil] at hunits
  subst hunits
  obtain ⟨hne, hword⟩ := isWordRest_of_takeDuration hd
  refine ⟨units.getLast hne, ?_, hword _ (List.getLast_mem hne)⟩
  rw [List.getLast?_append, List.getLast?_eq_some_getLast hne]
  rfl

/-- It ends as words and numbers do. -/
theorem Reads.last (h : Reads s v u s') :
    ∃ d ∈ v.getLast?, glues d = true ∨ (d = ':' ∧ s'.mode = .plain) := by
  cases h with
  | duration _ _ hr =>
    obtain ⟨d, hd, hword⟩ := last_of_readNumber_duration hr
    refine ⟨d, ?_, Or.inl (glues_of_isWordRest hword)⟩
    rw [List.getLast?_cons, hd]
    rfl
  | one _ => exact ⟨'1', rfl, Or.inl (by decide)⟩
  | @word c w hm _ hw =>
    obtain ⟨d, hd⟩ := Option.isSome_iff_exists.mp (show (c :: w).getLast?.isSome by simp)
    exact ⟨d, hd, (glues_or_colon (hw d (List.mem_of_getLast? hd))).imp_right fun heq => ⟨heq, hm⟩⟩
  | @label c w _ hc hw _ =>
    obtain ⟨d, hd⟩ := Option.isSome_iff_exists.mp (show (c :: w).getLast?.isSome by simp)
    refine ⟨d, hd, Or.inl (glues_of_isWordRest ?_)⟩
    rcases List.mem_cons.mp (List.mem_of_getLast? hd) with rfl | hmem
    · exact isWordRest_of_isWordStart hc
    · exact hw d hmem

/-- So what is written right behind it may go on with it. -/
theorem Reads.not_parted (h : Reads s v u s') : ¬ Parted s' (v.reverse ++ before) := by
  intro hparted
  obtain ⟨d, hd, hlast⟩ := h.last
  obtain ⟨hglues, hcolon⟩ := hparted d (by
    rw [List.head?_append, List.head?_reverse, hd]
    rfl)
  rcases hlast with hg | ⟨rfl, hm⟩
  · exact absurd hg (by simp [hglues])
  · obtain ⟨a, b, hbrackets⟩ := hcolon rfl
    exact absurd (hm.symm.trans hbrackets) (by simp)

/-! ## 2. Placeholders -/

/-- A placeholder is a name that can stand for a metric, or else a name behind a prefix. -/
theorem placeholder_cases (name : List Char) :
    (isIdentifier name = true ∧ placeholder name = name) ∨
      placeholder name = 'v' :: "ar_".toList ++ name := by
  unfold placeholder
  split
  · next h => exact Or.inl ⟨h, rfl⟩
  · exact Or.inr rfl

theorem not_isReserved_placeholder (name : List Char) : isReserved (placeholder name) = false := by
  rcases placeholder_cases name with ⟨hi, heq⟩ | heq
  · rw [heq]
    cases name with
    | nil => cases hi
    | cons c w =>
      simp only [isIdentifier, Bool.and_eq_true, Bool.not_eq_true'] at hi
      exact hi.2
  · rw [heq, isReserved, List.any_eq_false]
    intro word hword heq'
    have hall : reservedWords.all (fun word => word.toList.head? != some 'v') = true := by decide
    have hhead := List.all_eq_true.mp hall word hword
    rw [eq_of_beq heq'] at hhead
    exact absurd hhead (by simp)

/-! ## 3. String literals -/

/-- A step on a quote takes a string literal. -/
theorem string_of_step {cs : List Char} (hq : isQuote c = true)
    (h : step s c cs = .ok (t, s', rest)) : (∀ a b, s.mode ≠ .brackets a b) ∧ s' = s ∧
      ∃ text, readString c cs = .ok (text, rest) ∧ t = some (.string (String.ofList text)) := by
  have hstring : (∀ a b, s.mode ≠ .brackets a b) ∧ stepString s c cs = .ok (t, s', rest) := by
    unfold step at h
    cases hm : s.mode with
    | plain =>
      rw [hm] at h
      refine ⟨by simp, ?_⟩
      rcases isQuote_iff.mp hq with rfl | rfl | rfl <;> exact h
    | braces =>
      rw [hm] at h
      refine ⟨by simp, ?_⟩
      rcases isQuote_iff.mp hq with rfl | rfl | rfl <;> exact h
    | brackets a b =>
      rw [hm] at h
      rcases isQuote_iff.mp hq with rfl | rfl | rfl <;> cases h
  obtain ⟨hm, hstep⟩ := hstring
  refine ⟨hm, ?_⟩
  unfold stepString at hstep
  cases hr : readString c cs with
  | error e => rw [hr] at hstep; cases hstep
  | ok x =>
    rw [hr] at hstep
    cases hstep
    exact ⟨rfl, x.1, rfl, rfl⟩

/-- **A literal ends for the lexer where it ends for expansion**, if there is no backslash between
backticks: the lexer lets one escape there too. -/
theorem rest_of_literal {quote : Char} {cs body text after : List Char} (hq : isQuote quote = true)
    (h : closeLiteral quote cs = (body, after)) (hplain : quote = backtick → '\\' ∉ body)
    (hr : readString quote cs = .ok (text, rest)) : rest = after := by
  have hquote : ¬ (quote = '\\' ∧ quote ≠ backtick) := by
    rintro ⟨rfl, -⟩
    exact absurd hq (by decide)
  fun_induction readString quote cs generalizing body text with
  | case1 => cases hr
  | case2 => cases hr
  | case3 d ds _ ih =>
    have hne : quote ≠ backtick := by
      intro hb
      have hother : ¬ ('\\' = '\\' ∧ quote ≠ backtick) := by simp [hb]
      rw [closeLiteral_other hother (by rw [hb]; decide)] at h
      exact hplain hb (by rw [← (Prod.mk.inj h).1]; exact List.mem_cons_self)
    rw [closeLiteral_escape ⟨rfl, hne⟩] at h
    obtain ⟨rfl, rfl⟩ := Prod.mk.inj h
    cases hd : readString quote ds with
    | error e => rw [hd] at hr; cases hr
    | ok x =>
      rw [hd] at hr
      cases hr
      exact ih rfl (fun hb => absurd hb hne) hd
  | case4 => cases hr
  | case5 cs _ =>
    rw [closeLiteral_quote hquote] at h
    cases h
    cases hr
    rfl
  | case6 c cs hc hne ih =>
    rw [closeLiteral_other (fun hescape => hc hescape.1) hne] at h
    obtain ⟨rfl, rfl⟩ := Prod.mk.inj h
    cases hd : readString quote cs with
    | error e => rw [hd] at hr; cases hr
    | ok x =>
      rw [hd] at hr
      cases hr
      exact ih rfl (fun hb hmem => hplain hb (List.mem_cons_of_mem c hmem)) hd

/-! ## 4. Comments -/

/-- Whether a character ends a comment. -/
def isBreak (c : Char) : Bool := c == '\n' || c == '\r'

theorem not_isBreak_of_isValueChar {c : Char} (h : isValueChar c = true) : isBreak c = false := by
  cases hc : isBreak c with
  | false => rfl
  | true =>
    simp only [isBreak, Bool.or_eq_true, beq_iff_eq] at hc
    rcases hc with rfl | rfl <;> exact absurd h (by decide)

theorem dropComment_eq (cs : List Char) : dropComment cs = cs.dropWhile (!isBreak ·) := by
  unfold dropComment
  congr 1
  funext c
  simp [isBreak, bne]

/-- A comment passes over a text without a line break. -/
theorem dropComment_append {u cs : List Char} (hu : ∀ c ∈ u, isBreak c = false) :
    dropComment (u ++ cs) = dropComment cs := by
  rw [dropComment_eq, dropComment_eq]
  exact List.dropWhile_append_of_pos fun c hc => by simp [hu c hc]

/-- A comment ends at once in front of a line break or at the end only. -/
theorem head_of_dropComment_eq {cs : List Char} (h : dropComment cs = cs) :
    ∀ c ∈ cs.head?, isBreak c = true := by
  rw [dropComment_eq] at h
  cases cs with
  | nil => simp
  | cons c cs =>
    rintro d hd
    cases hd
    by_contra hbreak
    rw [List.dropWhile_cons_of_pos (by simpa using hbreak)] at h
    have := (List.dropWhile_sublist (!isBreak ·) : (cs.dropWhile (!isBreak ·)).Sublist cs).length_le
    rw [h, List.length_cons] at this
    omega

end PanelLint.Query
