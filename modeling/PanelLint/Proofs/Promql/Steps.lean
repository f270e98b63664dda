import PanelLint.Proofs.Promql.Numbers
import PanelLint.Query.Segment
/-!
# What a step of the lexer takes

`Took` lists everything that a step can take off the front of a text, with the token it gives and the
state it leaves.  It is all there is to a step:

* `took_of_step`: what a step takes is in the list;
* `Took.step_eq`: whatever is in the list is taken, comments aside.

Beside what it takes, a step looks at one character at most, so a text behind it may be exchanged
for one that begins alike (`Took.frame`).
-/

namespace PanelLint.Promql.Lexer

open PanelLint.Text
open PanelLint.Query (isQuote isQuote_iff)

/-! ## 1. The list

The conditions on the rest are those of longest match: a mark is not taken before the character that
makes it another mark, and a word not before one that goes on with it.
-/

/-- The state behind a blank or a number: an opening bracket is not the last character any more. -/
def State.settled (s : State) : State :=
  match s.mode with
  | .brackets colon _ => { s with mode := .brackets colon false }
  | _ => s

/-- The marks of a mode: what is written, its token, and the characters that would go on with it. -/
def marks : Mode → List (List Char × Token × List Char)
  | .plain =>
    [(['@'], .atSign, []),
      ([','], .comma, []),
      (['*'], .operator .mul, []),
      (['/'], .operator .div, []),
      (['%'], .operator .mod, []),
      (['+'], .operator .add, []),
      (['-'], .operator .sub, []),
      (['^'], .operator .pow, []),
      (['=', '='], .operator .eq, []),
      (['='], .equal, ['=', '~']),
      (['!', '='], .operator .ne, []),
      (['<', '='], .operator .le, []),
      (['<'], .operator .lt, ['=']),
      (['>', '='], .operator .ge, []),
      (['>'], .operator .gt, ['='])]
  | .braces =>
    [([','], .comma, []),
      (['=', '~'], .regex, []),
      (['='], .equal, ['~']),
      (['!', '='], .operator .ne, []),
      (['!', '~'], .notRegex, [])]
  | .brackets _ _ => []

/-- The marks of every mode are among those outside brackets, so one table is enough to go through. -/
theorem mem_all_marks {mode : Mode} {m : List Char × Token × List Char} (h : m ∈ marks mode) :
    m ∈ marks .plain ++ marks .braces := by
  cases mode with
  | plain => exact List.mem_append_left _ h
  | braces => exact List.mem_append_right _ h
  | brackets a b => exact absurd h (by simp [marks])

/-- Whether a number begins with a character before a text. -/
def beginsNumber (mode : Mode) (c : Char) (cs : List Char) : Prop :=
  (c.isDigit = true ∧ mode ≠ .braces) ∨
    (mode = .plain ∧ c = '.' ∧ ∃ d ∈ cs.head?, d.isDigit = true)

/-- **What a step takes**: a front part of the text, the token it is, and the state behind it, before
some rest. -/
inductive Took (s : State) : List Char → Option Token → State → List Char → Prop
  | blank {c : Char} {rest : List Char} : isSpace c = true → Took s [c] none s.settled rest
  | comment {w rest : List Char} : Took s ('#' :: w) none s rest
  | mark {w : List Char} {t : Token} {stop rest : List Char} : (w, t, stop) ∈ marks s.mode →
      (∀ c ∈ rest.head?, c ∉ stop) → Took s w (some t) s rest
  | number {c : Char} {w rest : List Char} {t : Token} : beginsNumber s.mode c (w ++ rest) →
      readNumber c (w ++ rest) = .ok (t, rest) → Took s (c :: w) (some t) s.settled rest
  | string {quote : Char} {w text rest : List Char} : (∀ a b, s.mode ≠ .brackets a b) →
      isQuote quote = true → readString quote (w ++ rest) = .ok (text, rest) →
      Took s (quote :: w) (some (.string (String.ofList text))) s rest
  | word {c : Char} {w rest : List Char} : s.mode = .plain → c.isDigit = false →
      (∀ d ∈ c :: w, isNameRest d = true) → EndsRun isNameRest rest →
      Took s (c :: w) (some (wordToken (c :: w))) s rest
  | label {c : Char} {w rest : List Char} : s.mode = .braces → isWordStart c = true →
      (∀ d ∈ w, isWordRest d = true) → EndsRun isWordRest rest → beginsOr c (w ++ rest) = false →
      Took s (c :: w) (some (.identifier (String.ofList (c :: w)))) s rest
  | or {c d : Char} {rest : List Char} : s.mode = .braces → c = 'o' ∨ c = 'O' → d = 'r' ∨ d = 'R' →
      rest.head? = some ' ' →
      Took s [c, d] (some (.keyword (.operator .or) (String.ofList [c, d]))) s rest
  | openParen {rest : List Char} : s.mode = .plain →
      Took s ['('] (some .leftParen) { s with depth := s.depth + 1 } rest
  | closeParen {rest : List Char} : s.mode = .plain → s.depth ≠ 0 →
      Took s [')'] (some .rightParen) { s with depth := s.depth - 1 } rest
  | openBraces {rest : List Char} : s.mode = .plain →
      Took s ['\x7b'] (some .leftBrace) { s with mode := .braces } rest
  | closeBraces {rest : List Char} : s.mode = .braces →
      Took s ['\x7d'] (some .rightBrace) { s with mode := .plain } rest
  | openBrackets {rest : List Char} : s.mode = .plain →
      Took s ['['] (some .leftBracket) { s with mode := .brackets false true } rest
  | closeBrackets {colon fresh : Bool} {rest : List Char} : s.mode = .brackets colon fresh →
      Took s [']'] (some .rightBracket) { s with mode := .plain } rest
  | colon {rest : List Char} : s.mode = .brackets false false →
      Took s [':'] (some .colon) { s with mode := .brackets true false } rest

/-! ## 2. What a step takes is in the list

The step is a chain of tests, first on the mode and then on the character.  There is one lemma for each
of its functions, with the front part that is taken as a witness.
-/

variable {s s' : State} {c : Char} {cs rest : List Char} {t : Option Token}

/-- Some front part of a text that begins with `c` is taken. -/
def Takes (s : State) (c : Char) (cs : List Char) (t : Option Token) (s' : State)
    (rest : List Char) : Prop :=
  ∃ w, cs = w ++ rest ∧ Took s (c :: w) t s' rest

/-- A mark with what follows it. -/
theorem takes_mark {u : Token} {w k : List Char} (hw : (c :: w, u, k) ∈ marks s.mode)
    (hstop : ∀ d ∈ cs.head?, d ∉ k) (h : emit s u cs = .ok (t, s', rest)) :
    Takes s c (w ++ cs) t s' rest := by
  cases h
  exact ⟨w, rfl, Took.mark hw hstop⟩

/-- What is left of a text is its rest behind what is taken. -/
theorem append_of_readNumber {u : Token} (h : readNumber c cs = .ok (u, rest)) :
    ∃ w, cs = w ++ rest := by
  obtain ⟨n, -, -, hcs, -⟩ | ⟨n, r, units, -, -, hcs, -, hr, -⟩ := readNumber_eq_ok h
  · exact ⟨n, hcs.symm⟩
  · exact ⟨n ++ units, by rw [List.append_assoc, hr, hcs]⟩

/-- A number, in brackets or outside: what its reader takes. -/
theorem takes_number (hb : beginsNumber s.mode c cs)
    (h : stepNumber s.settled c cs = .ok (t, s', rest)) : Takes s c cs t s' rest := by
  unfold stepNumber at h
  cases hr : readNumber c cs with
  | error e => rw [hr] at h; cases h
  | ok x =>
    obtain ⟨u, r⟩ := x
    rw [hr] at h
    cases h
    obtain ⟨w, rfl⟩ := append_of_readNumber hr
    exact ⟨w, rfl, Took.number hb hr⟩

/-- A string literal takes the same off every text that begins with it. -/
theorem append_of_readString {quote : Char} {text : List Char}
    (h : readString quote cs = .ok (text, rest)) :
    ∃ w, cs = w ++ rest ∧ ∀ rest', readString quote (w ++ rest') = .ok (text, rest') := by
  fun_induction readString quote cs generalizing text with
  | case1 => cases h
  | case2 => cases h
  | case3 d ds hd ih =>
    cases hr : readString quote ds with
    | error e => rw [hr] at h; cases h
    | ok x =>
      rw [hr] at h
      cases h
      obtain ⟨w, rfl, hw⟩ := ih hr
      refine ⟨'\\' :: d :: w, rfl, fun rest' => ?_⟩
      rw [List.cons_append, List.cons_append, readString, if_pos rfl]
      simp only [if_pos hd, hw]
      rfl
  | case4 => cases h
  | case5 cs hc =>
    cases h
    refine ⟨[quote], rfl, fun rest' => ?_⟩
    rw [List.singleton_append, readString.eq_def]
    simp only [if_neg hc, if_true]
  | case6 c cs hc hq ih =>
    cases hr : readString quote cs with
    | error e => rw [hr] at h; cases h
    | ok x =>
      rw [hr] at h
      cases h
      obtain ⟨w, rfl, hw⟩ := ih hr
      refine ⟨c :: w, rfl, fun rest' => ?_⟩
      rw [List.cons_append, readString.eq_def]
      simp only [if_neg hc, if_neg hq, hw]
      rfl

/-- So it takes the same before any other rest. -/
theorem readString_frame {quote : Char} {x text rest' : List Char}
    (h : readString quote (x ++ rest) = .ok (text, rest)) :
    readString quote (x ++ rest') = .ok (text, rest') := by
  obtain ⟨w, hcs, hw⟩ := append_of_readString h
  rw [List.append_cancel_right hcs]
  exact hw rest'

/-- A string literal, between two of the same quotes. -/
theorem takes_string (hm : ∀ a b, s.mode ≠ .brackets a b) (hq : isQuote c = true)
    (h : stepString s c cs = .ok (t, s', rest)) : Takes s c cs t s' rest := by
  unfold stepString at h
  cases hr : readString c cs with
  | error e => rw [hr] at h; cases h
  | ok x =>
    rw [hr] at h
    cases h
    obtain ⟨w, rfl, -⟩ := append_of_readString hr
    exact ⟨w, rfl, Took.string hm hq hr⟩

/-- A comment, up to the end of its line. -/
theorem takes_comment (h : (.ok (none, s, dropComment cs) : Except LexError Step) =
    .ok (t, s', rest)) : Takes s '#' cs t s' rest := by
  cases h
  exact ⟨cs.takeWhile fun c => c != '\n' && c != '\r',
    List.takeWhile_append_dropWhile.symm, Took.comment⟩

/-- Outside brackets no state is unsettled. -/
theorem settled_of_not_brackets (h : ∀ a b, s.mode ≠ .brackets a b) : s.settled = s := by
  unfold State.settled
  split
  · next hm => exact absurd hm (h _ _)
  · rfl

/-- A blank, which outside brackets leaves the state as it is. -/
theorem takes_blank (hm : ∀ a b, s.mode ≠ .brackets a b) (hc : isSpace c = true) :
    Takes s c cs none s cs := by
  have hblank : Took s [c] none s.settled cs := Took.blank hc
  rw [settled_of_not_brackets hm] at hblank
  exact ⟨[], rfl, hblank⟩

/-- Outside braces and brackets, every symbol is a mark. -/
theorem mem_marks_of_symbols {u : Token} (h : symbols.lookup c = some u) :
    ([c], u, []) ∈ marks .plain := by
  have hall : symbols.all (fun p => (marks .plain).contains ([p.1], p.2, [])) = true := by
    decide
  obtain ⟨pre, post, hs, -⟩ := List.lookup_eq_some_iff.mp h
  have := List.all_eq_true.mp hall (c, u) (by rw [hs]; simp)
  simpa using this

section Plain

variable (hm : s.mode = .plain)

include hm

/-- `=` stands alone, or before another `=`. -/
theorem takes_equal (h : stepEqual s cs = .ok (t, s', rest)) : Takes s '=' cs t s' rest := by
  unfold stepEqual at h
  split at h
  · exact takes_mark (w := ['=']) (u := .operator .eq) (k := []) (by simp [hm, marks]) (by simp) h
  · cases h
  · next heq htilde =>
    refine takes_mark (w := []) (u := .equal) (k := ['=', '~']) (by simp [hm, marks]) ?_ h
    intro d hd
    cases cs with
    | nil => cases hd
    | cons e cs =>
      cases hd
      simp only [List.mem_cons, List.not_mem_nil, or_false, not_or]
      exact ⟨fun h => heq cs (by rw [h]), fun h => htilde cs (by rw [h])⟩

/-- `!` stands before `=`. -/
theorem takes_bang (h : stepBang s cs = .ok (t, s', rest)) : Takes s '!' cs t s' rest := by
  unfold stepBang at h
  split at h
  · exact takes_mark (w := ['=']) (u := .operator .ne) (k := []) (by simp [hm, marks]) (by simp) h
  · cases h
  · cases h

/-- `<` and `>` stand alone, or before `=`; one lemma for both, with their tokens. -/
theorem takes_order {alone withEqual : Operator}
    (halone : ([c], .operator alone, ['=']) ∈ marks .plain)
    (hwith : ([c, '='], .operator withEqual, []) ∈ marks .plain)
    (h : stepOrder s alone withEqual cs = .ok (t, s', rest)) : Takes s c cs t s' rest := by
  unfold stepOrder at h
  split at h
  · exact takes_mark (w := ['=']) (hm ▸ hwith) (by simp) h
  · next heq =>
    refine takes_mark (w := []) (hm ▸ halone) ?_ h
    intro d hd
    cases cs with
    | nil => cases hd
    | cons e cs =>
      cases hd
      simp only [List.mem_cons, List.not_mem_nil, or_false]
      exact fun h => heq cs (by rw [h])

/-- Opening and closing brackets of all kinds. -/
theorem takes_bracket (h : stepBracket s c cs = .ok (t, s', rest)) : Takes s c cs t s' rest := by
  unfold stepBracket stepParen at h
  split at h
  · next hc =>
    subst hc
    cases h
    exact ⟨[], rfl, Took.openParen hm⟩
  split at h
  · next hc =>
    subst hc
    rw [if_neg (by simp)] at h
    split at h
    · cases h
    · next hdepth =>
      cases h
      exact ⟨[], rfl, Took.closeParen hm hdepth⟩
  split at h
  · next hc =>
    subst hc
    cases h
    exact ⟨[], rfl, Took.openBraces hm⟩
  split at h
  · cases h
  split at h
  · next hc =>
    subst hc
    cases h
    exact ⟨[], rfl, Took.openBrackets hm⟩
  split at h
  · cases h
  · cases h

/-- Numbers, literals, words and brackets, in the order they are tried in. -/
theorem takes_lexeme (h : stepLexeme s c cs = .ok (t, s', rest)) : Takes s c cs t s' rest := by
  have hbrackets : ∀ a b, s.mode ≠ .brackets a b := by simp [hm]
  have hsettled := settled_of_not_brackets hbrackets
  unfold stepLexeme at h
  split at h
  · next hd => exact takes_number (Or.inl ⟨hd, by simp [hm]⟩) (by rw [hsettled]; exact h)
  next hd =>
  split at h
  · next hc =>
    unfold stepPoint at h
    split at h
    · cases h
    · split at h
      · next d _ hdigit =>
        exact takes_number (Or.inr ⟨hm, hc, d, rfl, hdigit⟩) (by rw [hsettled, hc]; exact h)
      · cases h
  split at h
  · next hq => exact takes_string hbrackets (isQuote_iff.mpr hq) h
  split at h
  · next hname =>
    cases h
    refine ⟨cs.takeWhile isNameRest, List.takeWhile_append_dropWhile.symm,
      Took.word hm (by simpa using hd) ?_ (endsRun_dropWhile _ _)⟩
    intro d hd
    rcases List.mem_cons.mp hd with rfl | hd
    · exact hname
    · exact List.mem_takeWhile_imp hd
  · exact takes_bracket hm h

/-- Blanks, comments and the operators that go on, before these. -/
theorem takes_other (h : stepOther s c cs = .ok (t, s', rest)) : Takes s c cs t s' rest := by
  have hbrackets : ∀ a b, s.mode ≠ .brackets a b := by simp [hm]
  unfold stepOther at h
  by_cases hspace : isSpace c = true
  · rw [if_pos hspace] at h
    cases h
    exact takes_blank hbrackets hspace
  rw [if_neg hspace] at h
  by_cases hc : c = '#'
  · rw [if_pos hc] at h
    subst hc
    exact takes_comment h
  rw [if_neg hc] at h
  by_cases hc : c = '='
  · rw [if_pos hc] at h
    subst hc
    exact takes_equal hm h
  rw [if_neg hc] at h
  by_cases hc : c = '!'
  · rw [if_pos hc] at h
    subst hc
    exact takes_bang hm h
  rw [if_neg hc] at h
  by_cases hc : c = '<'
  · rw [if_pos hc] at h
    subst hc
    exact takes_order hm (by simp [marks]) (by simp [marks]) h
  rw [if_neg hc] at h
  by_cases hc : c = '>'
  · rw [if_pos hc] at h
    subst hc
    exact takes_order hm (by simp [marks]) (by simp [marks]) h
  rw [if_neg hc] at h
  exact takes_lexeme hm h

/-- **Outside braces and brackets**: the symbols come first, then the rest. -/
theorem takes_plain (h : stepPlain s c cs = .ok (t, s', rest)) : Takes s c cs t s' rest := by
  unfold stepPlain at h
  split at h
  · next u hu => exact takes_mark (w := []) (hm ▸ mem_marks_of_symbols hu) (by simp) h
  · exact takes_other hm h

end Plain

section Braces

variable (hm : s.mode = .braces)

include hm

/-- In braces `=` stands alone, or before `~`. -/
theorem takes_equalInBraces (h : stepEqualInBraces s cs = .ok (t, s', rest)) :
    Takes s '=' cs t s' rest := by
  unfold stepEqualInBraces at h
  split at h
  · exact takes_mark (w := ['~']) (u := .regex) (k := []) (by simp [hm, marks]) (by simp) h
  · next htilde =>
    refine takes_mark (w := []) (u := .equal) (k := ['~']) (by simp [hm, marks]) ?_ h
    intro d hd
    cases cs with
    | nil => cases hd
    | cons e cs =>
      cases hd
      simp only [List.mem_cons, List.not_mem_nil, or_false]
      exact fun h => htilde cs (by rw [h])

/-- In braces `!` stands before `=` or `~`. -/
theorem takes_bangInBraces (h : stepBangInBraces s cs = .ok (t, s', rest)) :
    Takes s '!' cs t s' rest := by
  unfold stepBangInBraces at h
  split at h
  · exact takes_mark (w := ['=']) (u := .operator .ne) (k := []) (by simp [hm, marks]) (by simp) h
  · exact takes_mark (w := ['~']) (u := .notRegex) (k := []) (by simp [hm, marks]) (by simp) h
  · cases h
  · cases h

/-- `or` in braces, in whatever case: it must be at its end, or it is the front of a label. -/
theorem takes_or (hor : beginsOr c cs = true) :
    Takes s c cs (some (.keyword (.operator .or) (String.ofList (c :: cs.take 1)))) s
      (cs.drop 1) := by
  unfold beginsOr at hor
  split at hor
  · next d rest =>
    simp only [Bool.and_eq_true, Bool.or_eq_true, beq_iff_eq] at hor
    exact ⟨[d], rfl, Took.or hm hor.1 hor.2 rfl⟩
  · cases hor

/-- **In braces**, in the order of the step. -/
theorem takes_braces (h : stepBraces s c cs = .ok (t, s', rest)) : Takes s c cs t s' rest := by
  have hbrackets : ∀ a b, s.mode ≠ .brackets a b := by simp [hm]
  unfold stepBraces at h
  by_cases hspace : isSpace c = true
  · rw [if_pos hspace] at h
    cases h
    exact takes_blank hbrackets hspace
  rw [if_neg hspace] at h
  by_cases hc : c = '#'
  · rw [if_pos hc] at h
    subst hc
    exact takes_comment h
  rw [if_neg hc] at h
  by_cases hc : c = ','
  · rw [if_pos hc] at h
    subst hc
    exact takes_mark (w := []) (u := .comma) (k := []) (by simp [hm, marks]) (by simp) h
  rw [if_neg hc] at h
  by_cases hq : c = '"' ∨ c = '\'' ∨ c = '\x60'
  · rw [if_pos hq] at h
    exact takes_string hbrackets (isQuote_iff.mpr hq) h
  rw [if_neg hq] at h
  by_cases hc : c = '='
  · rw [if_pos hc] at h
    subst hc
    exact takes_equalInBraces hm h
  rw [if_neg hc] at h
  by_cases hc : c = '!'
  · rw [if_pos hc] at h
    subst hc
    exact takes_bangInBraces hm h
  rw [if_neg hc] at h
  by_cases hc : c = '\x7b'
  · rw [if_pos hc] at h
    cases h
  rw [if_neg hc] at h
  by_cases hc : c = '\x7d'
  · rw [if_pos hc] at h
    subst hc
    cases h
    exact ⟨[], rfl, Took.closeBraces hm⟩
  rw [if_neg hc] at h
  by_cases hstart : isWordStart c = true
  · rw [if_pos hstart] at h
    split at h
    · next hor =>
      cases h
      exact takes_or hm hor
    · next hor =>
      cases h
      refine ⟨cs.takeWhile isWordRest, List.takeWhile_append_dropWhile.symm,
        Took.label hm hstart (fun d hd => List.mem_takeWhile_imp hd) (endsRun_dropWhile _ _) ?_⟩
      rw [List.takeWhile_append_dropWhile]
      simpa using hor
  rw [if_neg hstart] at h
  cases h

end Braces

/-- **In brackets**: blanks, one colon, numbers with their units and the closing bracket. -/
theorem takes_brackets {colon fresh : Bool} (hm : s.mode = .brackets colon fresh)
    (h : stepBrackets s colon fresh c cs = .ok (t, s', rest)) : Takes s c cs t s' rest := by
  have hsettled : s.settled = { s with mode := .brackets colon false } := by
    simp only [State.settled, hm]
  unfold stepBrackets at h
  dsimp only at h
  split at h
  · next hspace =>
    cases h
    exact ⟨[], rfl, hsettled ▸ Took.blank hspace⟩
  split at h
  · next hc =>
    subst hc
    split at h
    · cases h
    split at h
    · cases h
    · next hcolon hfresh =>
      cases h
      have hm' : s.mode = .brackets false false := by simp_all
      exact ⟨[], rfl, Took.colon hm'⟩
  split at h
  · next hd => exact takes_number (Or.inl ⟨hd, by simp [hm]⟩) (hsettled ▸ h)
  split at h
  · next hc =>
    subst hc
    cases h
    exact ⟨[], rfl, Took.closeBrackets hm⟩
  split at h
  · cases h
  · cases h

/-- **What a step takes is in the list.** -/
theorem took_of_step (h : step s c cs = .ok (t, s', rest)) : Takes s c cs t s' rest := by
  unfold step at h
  split at h
  · next hm => exact takes_plain hm h
  · next hm => exact takes_braces hm h
  · next hm => exact takes_brackets hm h

/-! ## 3. Whatever is in the list is taken

The other way round, each entry has to pass the tests that come before its own.  For marks and blanks
they are gone through as lists; names and labels pass them because no mark can stand in a name.
-/

/-- The blanks. -/
def spaces : List Char := [' ', '\t', '\n', '\x0c', '\r']

/-- The blanks, as a list to go through. -/
theorem isSpace_iff : isSpace c = true ↔ c ∈ spaces := by
  simp [isSpace, spaces, or_assoc]

/-- The characters that are taken before any lexeme outside braces and brackets. -/
def firstMarks : List Char :=
  ['@', ',', '*', '/', '%', '+', '-', '^', '#', '=', '!', '<', '>'] ++ spaces

/-- Outside braces and brackets, whatever is no mark and no blank is a lexeme. -/
theorem stepPlain_eq_stepLexeme (h : c ∉ firstMarks) : stepPlain s c cs = stepLexeme s c cs := by
  simp only [firstMarks, List.mem_append, not_or, List.mem_cons, List.not_mem_nil, or_false] at h
  have hspace : isSpace c = false := by
    cases hs : isSpace c with
    | false => rfl
    | true => exact absurd (isSpace_iff.mp hs) h.2
  have hlookup : symbols.lookup c = none := by
    rw [List.lookup_eq_none_iff]
    simp [symbols, h]
  unfold stepPlain stepOther
  simp [hlookup, hspace, h]

/-- A class of characters does not meet a list if none of the list is in it. -/
theorem not_mem_of_class {p : Char → Bool} {l : List Char} (hl : l.any p = false)
    (hc : p c = true) : c ∉ l := fun hmem => by
  rw [List.any_eq_true.mpr ⟨c, hmem, hc⟩] at hl
  cases hl

/-- What can stand in a name is no first mark. -/
theorem not_mem_firstMarks_of_isNameRest (h : isNameRest c = true) : c ∉ firstMarks :=
  not_mem_of_class (by decide) h

/-- Digits can stand in a name. -/
theorem isNameRest_of_isDigit (h : c.isDigit = true) : isNameRest c = true := by
  simp [isNameRest, isWordRest, Char.isAlphanum, h]

variable {w : List Char}

/-- `=` before what does not go on with it. -/
theorem stepEqual_alone (h : ∀ d ∈ cs.head?, d ∉ ['=', '~']) :
    stepEqual s cs = emit s .equal cs := by
  cases cs with
  | nil => rfl
  | cons d cs =>
    have hd := h d rfl
    simp only [List.mem_cons, List.not_mem_nil, or_false, not_or] at hd
    unfold stepEqual
    split
    · next heq => exact absurd (List.cons.inj heq).1 hd.1
    · next heq => exact absurd (List.cons.inj heq).1 hd.2
    · rfl

/-- `<` and `>`, likewise. -/
theorem stepOrder_alone {alone withEqual : Operator} (h : ∀ d ∈ cs.head?, d ∉ ['=']) :
    stepOrder s alone withEqual cs = emit s (.operator alone) cs := by
  cases cs with
  | nil => rfl
  | cons d cs =>
    have hd := h d rfl
    simp only [List.mem_cons, List.not_mem_nil, or_false] at hd
    unfold stepOrder
    split
    · next heq => exact absurd (List.cons.inj heq).1 hd
    · rfl

/-- `=` in braces, likewise. -/
theorem stepEqualInBraces_alone (h : ∀ d ∈ cs.head?, d ∉ ['~']) :
    stepEqualInBraces s cs = emit s .equal cs := by
  cases cs with
  | nil => rfl
  | cons d cs =>
    have hd := h d rfl
    simp only [List.mem_cons, List.not_mem_nil, or_false] at hd
    unfold stepEqualInBraces
    split
    · next heq => exact absurd (List.cons.inj heq).1 hd
    · rfl

/-- **A mark is taken** before whatever does not go on with it, by going through the table of its mode. -/
theorem step_mark {u : Token} {stop : List Char} (hw : (c :: w, u, stop) ∈ marks s.mode)
    (hstop : ∀ d ∈ rest.head?, d ∉ stop) : step s c (w ++ rest) = .ok (some u, s, rest) := by
  unfold step
  cases hm : s.mode with
  | plain =>
    simp only [hm, marks, List.mem_cons, List.not_mem_nil, or_false, Prod.mk.injEq,
      List.cons.injEq] at hw
    rcases hw with ⟨⟨rfl, rfl⟩, rfl, rfl⟩ | ⟨⟨rfl, rfl⟩, rfl, rfl⟩ | ⟨⟨rfl, rfl⟩, rfl, rfl⟩ |
      ⟨⟨rfl, rfl⟩, rfl, rfl⟩ | ⟨⟨rfl, rfl⟩, rfl, rfl⟩ | ⟨⟨rfl, rfl⟩, rfl, rfl⟩ |
      ⟨⟨rfl, rfl⟩, rfl, rfl⟩ | ⟨⟨rfl, rfl⟩, rfl, rfl⟩ | ⟨⟨rfl, rfl⟩, rfl, rfl⟩ |
      ⟨⟨rfl, rfl⟩, rfl, rfl⟩ | ⟨⟨rfl, rfl⟩, rfl, rfl⟩ | ⟨⟨rfl, rfl⟩, rfl, rfl⟩ |
      ⟨⟨rfl, rfl⟩, rfl, rfl⟩ | ⟨⟨rfl, rfl⟩, rfl, rfl⟩ | ⟨⟨rfl, rfl⟩, rfl, rfl⟩
    all_goals first
      | rfl
      | exact stepEqual_alone hstop
      | exact stepOrder_alone hstop
  | braces =>
    simp only [hm, marks, List.mem_cons, List.not_mem_nil, or_false, Prod.mk.injEq,
      List.cons.injEq] at hw
    rcases hw with ⟨⟨rfl, rfl⟩, rfl, rfl⟩ | ⟨⟨rfl, rfl⟩, rfl, rfl⟩ | ⟨⟨rfl, rfl⟩, rfl, rfl⟩ |
      ⟨⟨rfl, rfl⟩, rfl, rfl⟩ | ⟨⟨rfl, rfl⟩, rfl, rfl⟩
    all_goals first
      | rfl
      | exact stepEqualInBraces_alone hstop
  | brackets colon fresh => simp [hm, marks] at hw

/-- A blank is taken in every mode, and settles the state. -/
theorem step_blank (h : isSpace c = true) : step s c cs = .ok (none, s.settled, cs) := by
  have hc := isSpace_iff.mp h
  simp only [spaces, List.mem_cons, List.not_mem_nil, or_false] at hc
  unfold step State.settled
  cases s.mode with
  | plain => rcases hc with rfl | rfl | rfl | rfl | rfl <;> rfl
  | braces => rcases hc with rfl | rfl | rfl | rfl | rfl <;> rfl
  | brackets colon fresh => rcases hc with rfl | rfl | rfl | rfl | rfl <;> rfl

/-- A step on a comment takes all of it and nothing else. -/
theorem comment_of_step (h : step s '#' cs = .ok (t, s', rest)) :
    t = none ∧ s' = s ∧ rest = dropComment cs ∧
      ∀ cs', step s '#' cs' = .ok (none, s, dropComment cs') := by
  unfold step at h ⊢
  cases hm : s.mode with
  | plain =>
    rw [hm] at h
    cases h
    exact ⟨rfl, rfl, rfl, fun _ => rfl⟩
  | braces =>
    rw [hm] at h
    cases h
    exact ⟨rfl, rfl, rfl, fun _ => rfl⟩
  | brackets a b =>
    rw [hm] at h
    cases h

/-- A number is taken wherever one begins. -/
theorem step_number {u : Token} (hb : beginsNumber s.mode c cs)
    (h : readNumber c cs = .ok (u, rest)) : step s c cs = .ok (some u, s.settled, rest) := by
  have hread : ∀ s' : State, stepNumber s' c cs = .ok (some u, s', rest) := by
    intro s'
    simp [stepNumber, h, Except.map]
  unfold step State.settled
  rcases hb with ⟨hd, hne⟩ | ⟨hm, rfl, d, hhead, hd⟩
  · cases hm : s.mode with
    | plain =>
      dsimp only
      rw [stepPlain_eq_stepLexeme (not_mem_firstMarks_of_isNameRest (isNameRest_of_isDigit hd)),
        stepLexeme, if_pos hd]
      exact hread s
    | braces => exact absurd hm hne
    | brackets colon fresh =>
      have hspace : isSpace c = false := by
        cases hs : isSpace c with
        | false => rfl
        | true => exact absurd (isSpace_iff.mp hs) (not_mem_of_class (by decide) hd)
      have hcolon : c ≠ ':' := by
        rintro rfl
        exact absurd hd (by decide)
      unfold stepBrackets
      simp only [hspace, hcolon, hd, if_true, if_false, Bool.false_eq_true]
      exact hread _
  · rw [hm]
    dsimp only
    cases cs with
    | nil => cases hhead
    | cons e cs =>
      obtain rfl : e = d := by simpa using hhead
      rw [stepPlain_eq_stepLexeme (by decide), stepLexeme, if_neg (by decide), if_pos rfl, stepPoint,
        if_pos hd]
      exact hread s

/-- **A word is taken** up to the first character that cannot stand in a name. No mark comes before it,
for none of them can. -/
theorem step_word (hm : s.mode = .plain) (hc : c.isDigit = false)
    (hw : ∀ d ∈ c :: w, isNameRest d = true) (hrest : EndsRun isNameRest rest) :
    step s c (w ++ rest) = .ok (some (wordToken (c :: w)), s, rest) := by
  have hname := hw c List.mem_cons_self
  have hw' : ∀ d ∈ w, isNameRest d = true := fun d hd => hw d (List.mem_cons_of_mem c hd)
  have hpoint : c ≠ '.' := by
    rintro rfl
    exact absurd hname (by decide)
  have hquote : ¬ (c = '"' ∨ c = '\'' ∨ c = '\x60') := by
    rintro (rfl | rfl | rfl) <;> exact absurd hname (by decide)
  unfold step
  rw [hm]
  dsimp only
  rw [stepPlain_eq_stepLexeme (not_mem_firstMarks_of_isNameRest hname), stepLexeme,
    if_neg (by simp [hc]), if_neg hpoint, if_neg hquote, if_pos hname, takeWhile_run hw' hrest,
    dropWhile_run hw' hrest]
  rfl

/-- A literal is taken outside brackets. -/
theorem step_string {text : List Char} (hm : ∀ a b, s.mode ≠ .brackets a b)
    (hq : isQuote c = true) (h : readString c cs = .ok (text, rest)) :
    step s c cs = .ok (some (.string (String.ofList text)), s, rest) := by
  have hread : stepString s c cs = .ok (some (.string (String.ofList text)), s, rest) := by
    simp [stepString, h, Except.map]
  have hcases := isQuote_iff.mp hq
  unfold step
  cases hmode : s.mode with
  | plain =>
    dsimp only
    rcases hcases with rfl | rfl | rfl <;> exact hread
  | braces =>
    dsimp only
    rcases hcases with rfl | rfl | rfl <;> exact hread
  | brackets colon fresh => exact absurd hmode (hm colon fresh)

/-- **A label is taken** up to the end of its word, unless it is the `or` that stands between matchers. -/
theorem step_label (hm : s.mode = .braces) (hc : isWordStart c = true)
    (hw : ∀ d ∈ w, isWordRest d = true) (hrest : EndsRun isWordRest rest)
    (hor : beginsOr c (w ++ rest) = false) :
    step s c (w ++ rest) = .ok (some (.identifier (String.ofList (c :: w))), s, rest) := by
  have hothers : c ∉ ['#', ',', '"', '\'', '\x60', '=', '!', '\x7b', '\x7d'] ++ spaces :=
    not_mem_of_class (by decide) hc
  simp only [List.mem_append, not_or, List.mem_cons, List.not_mem_nil, or_false] at hothers
  have hspace : isSpace c = false := by
    cases hs : isSpace c with
    | false => rfl
    | true => exact absurd (isSpace_iff.mp hs) hothers.2
  unfold step
  rw [hm]
  dsimp only
  unfold stepBraces
  simp only [hspace, hothers, hc, hor, if_true, if_false, or_self, Bool.false_eq_true,
    takeWhile_run hw hrest, dropWhile_run hw hrest]
  rfl

/-- This `or` is taken where its word ends. -/
theorem step_or {d : Char} (hm : s.mode = .braces) (hc : c = 'o' ∨ c = 'O')
    (hd : d = 'r' ∨ d = 'R') (hrest : rest.head? = some ' ') :
    step s c (d :: rest) =
      .ok (some (.keyword (.operator .or) (String.ofList [c, d])), s, rest) := by
  cases rest with
  | nil => cases hrest
  | cons e rest =>
    cases hrest
    unfold step
    rw [hm]
    dsimp only
    rcases hc with rfl | rfl <;> rcases hd with rfl | rfl <;> rfl

/-- **Whatever is in the list is taken**, but for comments. -/
theorem Took.step_eq (h : Took s (c :: w) t s' rest) (hc : c ≠ '#') :
    step s c (w ++ rest) = .ok (t, s', rest) := by
  cases h with
  | blank hspace => exact step_blank hspace
  | comment => exact absurd rfl hc
  | mark hw hstop => exact step_mark hw hstop
  | number hb hr => exact step_number hb hr
  | string hm hq hr => exact step_string hm hq hr
  | word hm hd hw hrest => exact step_word hm hd hw hrest
  | label hm hstart hw hrest hor => exact step_label hm hstart hw hrest hor
  | or hm ho hr hrest => exact step_or hm ho hr hrest
  | openParen hm =>
    obtain ⟨mode, depth⟩ := s
    obtain rfl : mode = .plain := hm
    rfl
  | closeParen hm hdepth =>
    obtain ⟨mode, depth⟩ := s
    obtain rfl : mode = .plain := hm
    show stepParen _ false rest = _
    rw [stepParen, if_neg (by simp), if_neg hdepth]
  | openBraces hm => simp only [step, hm]; rfl
  | closeBraces hm => simp only [step, hm]; rfl
  | openBrackets hm => simp only [step, hm]; rfl
  | closeBrackets hm => simp only [step, hm]; rfl
  | colon hm => simp only [step, hm]; rfl

/-! ## 4. Texts behind what is taken

Of the rest, a step sees whether it goes on with what was taken, and that is all.
-/

/-- A text in exchange for another one behind `w`, which is taken as `t` and leaves `mode`: it begins
alike, or else it begins as words and numbers do behind what does not go on with them.  A number looks
at what follows it, so the other text begins so too where `t` is one. -/
def Alike (mode : Mode) (t : Option Token) (w rest rest' : List Char) : Prop :=
  rest.head? = rest'.head? ∨
    ((∃ d ∈ w.getLast?, glues d = false ∧ (d = ':' → ∃ a b, mode = .brackets a b)) ∧
      ((∃ d ∈ rest.head?, glues d = true) ∨ ∀ u ∈ t, u.isQuantity = false) ∧
        ∃ d ∈ rest'.head?, glues d = true ∨ d = ':')

/-- Words go on with what can stand in them. -/
theorem glues_of_isWordRest (h : isWordRest c = true) : glues c = true := by
  simp [glues, h]

/-- What begins a word can stand in one. -/
theorem isWordRest_of_isWordStart (h : isWordStart c = true) : isWordRest c = true := by
  simp only [isWordStart, Bool.or_eq_true, beq_iff_eq] at h
  rcases h with h | h <;> simp [isWordRest, Char.isAlphanum, h]

/-- Whether a word begins with the `or` of matchers is seen from the word and from the character behind
it. -/
theorem beginsOr_frame {rest' : List Char} (hw : ∀ d ∈ w, isWordRest d = true)
    (hrest : EndsRun isWordRest rest) (hhead : rest.head? = rest'.head?)
    (h : beginsOr c (w ++ rest) = false) : beginsOr c (w ++ rest') = false := by
  have hrest' := endsRun_congr hrest hhead
  cases w with
  | nil =>
    cases rest' with
    | nil => rfl
    | cons d rest' =>
      have hd : isWordRest d = false := hrest' d rfl
      rw [List.nil_append]
      unfold beginsOr
      split
      · next heq =>
        obtain ⟨rfl, -⟩ := List.cons.inj heq
        have hr : d ≠ 'r' ∧ d ≠ 'R' := by
          constructor <;> (rintro rfl; exact absurd hd (by decide))
        simp [hr]
      · rfl
  | cons d w =>
    cases w with
    | nil =>
      cases rest with
      | nil =>
        obtain rfl : rest' = [] := by simpa using hhead.symm
        exact h
      | cons e rest =>
        cases rest' with
        | nil => cases hhead
        | cons e' rest' =>
          cases hhead
          by_cases he : e = ' '
          · subst he
            exact h
          · simp [beginsOr, he]
    | cons e w =>
      by_cases he : e = ' '
      · subst he
        exact h
      · simp [beginsOr, he]

/-- **What is taken is taken before every text that is alike.** -/
theorem Took.frame {rest' : List Char} (h : Took s (c :: w) t s' rest)
    (halike : Alike s'.mode t (c :: w) rest rest') : Took s (c :: w) t s' rest' := by
  cases h with
  | blank hspace => exact Took.blank hspace
  | comment => exact Took.comment
  | @mark _ u stop _ hw hstop =>
    refine Took.mark hw fun d hd => ?_
    rcases halike with hhead | ⟨-, -, e, he, hglues⟩
    · exact hstop d (hhead ▸ hd)
    · obtain rfl : e = d := Option.mem_unique he hd
      have hall : (marks .plain ++ marks .braces).all (fun m =>
          m.2.2.all fun d => !glues d && d != ':') = true := by decide
      intro hstop'
      have := List.all_eq_true.mp (List.all_eq_true.mp hall _ (mem_all_marks hw)) e hstop'
      rcases hglues with hglues | rfl
      · simp [hglues] at this
      · simp at this
  | number hb hr =>
    rcases halike with hhead | ⟨⟨d, hd, hlast, -⟩, hbegins, -⟩
    · refine Took.number ?_ (readNumber_frame hr hhead)
      rcases hb with hb | ⟨hm, hc, hnext⟩
      · exact Or.inl hb
      · exact Or.inr ⟨hm, hc, head_append_congr hhead ▸ hnext⟩
    · rcases readNumber_end hr with hend | ⟨f, hf, hword⟩
      · rcases hbegins with ⟨e, he, hglues⟩ | hother
        · exact absurd (hend e he) (by simp [hglues])
        · exact absurd (isQuantity_of_readNumber hr) (by simp [hother _ rfl])
      · have heq : f = d := by
          rw [List.getLast?_cons, hf] at hd
          simpa using hd
        subst heq
        exact absurd hlast (by simp [glues_of_isWordRest hword])
  | string hm hquote hr => exact Took.string hm hquote (readString_frame hr)
  | word hm hd hw hrest =>
    refine Took.word hm hd hw ?_
    rcases halike with hhead | ⟨⟨e, he, hlast, hcolon⟩, -, -⟩
    · exact endsRun_congr hrest hhead
    · have hname := hw e (List.mem_of_getLast? he)
      simp only [isNameRest, Bool.or_eq_true, beq_iff_eq] at hname
      rcases hname with hword | rfl
      · exact absurd hlast (by simp [glues_of_isWordRest hword])
      · obtain ⟨a, b, hmode⟩ := hcolon rfl
        exact absurd (hm.symm.trans hmode) (by simp)
  | label hm hstart hw hrest hor =>
    rcases halike with hhead | ⟨⟨e, he, hlast, -⟩, -, -⟩
    · exact Took.label hm hstart hw (endsRun_congr hrest hhead) (beginsOr_frame hw hrest hhead hor)
    · have hword : isWordRest e = true := by
        rcases List.mem_cons.mp (List.mem_of_getLast? he) with rfl | hmem
        · exact isWordRest_of_isWordStart hstart
        · exact hw e hmem
      exact absurd hlast (by simp [glues_of_isWordRest hword])
  | or hm ho hr hrest =>
    rcases halike with hhead | ⟨⟨e, he, hlast, -⟩, -, -⟩
    · exact Took.or hm ho hr (hhead ▸ hrest)
    · rw [List.getLast?_cons_cons, List.getLast?_singleton] at he
      cases he
      rcases hr with rfl | rfl <;> exact absurd hlast (by decide)
  | openParen hm => exact Took.openParen hm
  | closeParen hm hdepth => exact Took.closeParen hm hdepth
  | openBraces hm => exact Took.openBraces hm
  | closeBraces hm => exact Took.closeBraces hm
  | openBrackets hm => exact Took.openBrackets hm
  | closeBrackets hm => exact Took.closeBrackets hm
  | colon hm => exact Took.colon hm

end PanelLint.Promql.Lexer
