import PanelLint.Proofs.Query.Times
/-!
# Texts with other durations in them

Two texts may be the same but for some durations, each standing between characters that no word goes
on over.  Here the lexer is followed through both at once.  A token that holds none of these durations
is taken from both, a duration is taken as one token, a comment passes over it, and a number whose
exponent it completes is no duration at all.

Only a string literal or a name can take a duration in and be a token of another text then.  Where
none does (`Unbroken`), both texts have tokens that differ in durations at most, or none has tokens
(`concur_tokens`).
-/

namespace PanelLint.Query

open PanelLint.Text PanelLint.Promql PanelLint.Promql.Lexer

/-! ## 1. Variations of a text -/

/-- Whether a duration may come right behind a character. -/
def opensTime (c : Char) : Bool := c == '[' || c == ':' || c == '-' || isBlank c

/-- Whether a character may come right behind a duration. -/
def closesTime (c : Char) : Bool := c == ']' || c == ':' || c == ')' || isBlank c

/-- **Texts that differ in durations**, behind the character `last` that both have in common; `P` is
about the text from such a duration on. -/
inductive Varied (P : List Char → Prop) : Option Char → List Char → List Char → Prop
  | nil {last : Option Char} : Varied P last [] []
  | kept {last : Option Char} {c : Char} {cs cs' : List Char} : Varied P (some c) cs cs' →
      Varied P last (c :: cs) (c :: cs')
  | time {c : Char} {v v' cs cs' : List Char} : opensTime c = true → IsTime v → IsTime v' →
      (∀ d ∈ cs.head?, closesTime d = true) → P (v ++ cs) → Varied P none cs cs' →
      Varied P (some c) (v ++ cs) (v' ++ cs')

variable {P : List Char → Prop} {last : Option Char} {cs cs' rest w : List Char} {c : Char}
  {s s₁ : State} {t : Option Token}

/-- Where no duration may come, both texts begin with the same character. -/
theorem Varied.head_eq (h : Varied P none cs cs') : cs.head? = cs'.head? := by
  cases h <;> rfl

theorem Varied.swap (h : Varied P last cs cs') : Varied (fun _ => True) last cs' cs := by
  induction h with
  | nil => exact Varied.nil
  | kept _ ih => exact Varied.kept ih
  | time hopens htime htime' hcloses _ htail ih =>
    exact Varied.time hopens htime' htime (htail.head_eq ▸ hcloses) trivial ih

/-- **Where both texts come to a duration**, behind `a`. -/
structure Meets (P : List Char → Prop) (last : Option Char) (a cs cs' v v' b b' : List Char) :
    Prop where
  left : cs = a ++ (v ++ b)
  right : cs' = a ++ (v' ++ b')
  opened : ∃ d ∈ a.getLast?.or last, opensTime d = true
  time : IsTime v
  time' : IsTime v'
  closed : ∀ d ∈ b.head?, closesTime d = true
  place : P (v ++ b)
  rest : Varied P none b b'

theorem getLast?_cons_or (c : Char) (w : List Char) (last : Option Char) :
    (c :: w).getLast?.or last = w.getLast?.or (some c) := by
  rw [List.getLast?_cons]
  cases w.getLast? <;> rfl

/-- A front part of a text is the same in the other, or else a duration begins in it. -/
theorem Varied.split (h : Varied P last (w ++ rest) cs') :
    (∃ rest', cs' = w ++ rest' ∧ Varied P (w.getLast?.or last) rest rest') ∨
      ∃ a v v' b b', a.length < w.length ∧ Meets P last a (w ++ rest) cs' v v' b b' := by
  induction w generalizing last cs' with
  | nil => exact Or.inl ⟨cs', rfl, h⟩
  | cons c w ih =>
    generalize hcs : c :: w ++ rest = cs at h
    cases h with
    | nil => cases hcs
    | kept htail =>
      obtain ⟨rfl, rfl⟩ := List.cons.inj hcs
      obtain ⟨rest', rfl, hrest⟩ | ⟨a, v, v', b, b', hlength, hmeets⟩ := ih htail
      · exact Or.inl ⟨rest', rfl, getLast?_cons_or c w last ▸ hrest⟩
      · refine Or.inr ⟨c :: a, v, v', b, b', Nat.succ_lt_succ hlength, ?_⟩
        exact { hmeets with
          left := congrArg (c :: ·) hmeets.left
          right := congrArg (c :: ·) hmeets.right
          opened := getLast?_cons_or c a last ▸ hmeets.opened }
    | @time d v v' b b' hopens htime htime' hcloses hplace htail =>
      exact Or.inr ⟨[], v, v', b, b', Nat.zero_lt_succ _, rfl, rfl, ⟨d, rfl, hopens⟩, htime, htime',
        hcloses, hplace, htail⟩

theorem not_glues_of_opensTime (h : opensTime c = true) : glues c = false := by
  cases hg : glues c with
  | false => rfl
  | true =>
    simp only [opensTime, Bool.or_eq_true, beq_iff_eq] at h
    rcases h with ((rfl | rfl) | rfl) | hblank
    · cases hg
    · cases hg
    · cases hg
    · simp only [glues, Bool.or_eq_true, beq_iff_eq] at hg
      rcases hg with hg | rfl
      · rw [not_isBlank_of_isNameRest (by simp [isNameRest, hg])] at hblank
        cases hblank
      · exact absurd hblank (by decide)

/-- No word goes on with what closes a duration. -/
theorem not_isWordRest_of_closesTime (h : closesTime c = true) : isWordRest c = false := by
  cases hw : isWordRest c with
  | false => rfl
  | true =>
    simp only [closesTime, Bool.or_eq_true, beq_iff_eq] at h
    rcases h with ((rfl | rfl) | rfl) | hblank
    · cases hw
    · cases hw
    · cases hw
    · rw [not_isBlank_of_isNameRest (by simp [isNameRest, hw])] at hblank
      cases hblank

theorem endsRun_of_closesTime (h : ∀ d ∈ cs.head?, closesTime d = true) : EndsRun isWordRest cs :=
  fun d hd => not_isWordRest_of_closesTime (h d hd)

/-- Both texts begin with the same character, or both with a digit. -/
theorem Varied.head (h : Varied P last cs cs') : cs.head? = cs'.head? ∨
    (∃ d ∈ last, opensTime d = true) ∧ (∃ e ∈ cs.head?, e.isDigit = true) ∧
      ∃ e ∈ cs'.head?, e.isDigit = true := by
  cases h with
  | nil => exact Or.inl rfl
  | kept _ => exact Or.inl rfl
  | @time d v v' b b' hopens htime htime' _ _ _ =>
    obtain ⟨e, w, rfl, he, -⟩ := htime.readNumber
    obtain ⟨e', w', rfl, he', -⟩ := htime'.readNumber
    exact Or.inr ⟨⟨d, rfl, hopens⟩, ⟨e, rfl, he⟩, ⟨e', rfl, he'⟩⟩

/-! ## 2. One step in both texts -/

/-- **What the other text gives in a step** that gives `t` and `s₁` and leaves `rest`: the same up to
the spelling of a duration, or else the token is no quantity and takes in a duration that begins at
most `k` characters before the end. -/
def Answered (P : List Char → Prop) (k : Nat) (t : Option Token) (s₁ : State) (rest : List Char)
    (y : Except LexError Step) : Prop :=
  ∃ t' rest', y = .ok (t', s₁, rest') ∧
    ((SamePlain t.toList t'.toList ∧ ∃ last, Varied P last rest rest') ∨
      ∃ u back, t = some u ∧ u.isQuantity = false ∧ P back ∧ rest.length < back.length ∧
        back.length ≤ k)

/-- Durations that the parser accepts have the same plain spelling. -/
theorem samePlain_time {v v' : List Char} (h : IsTime v) (h' : IsTime v') :
    SamePlain [.duration (String.ofList v)] [.duration (String.ofList v')] := by
  obtain ⟨n, hn⟩ := h.length
  obtain ⟨n', hn'⟩ := h'.length
  simp only [SamePlain, List.map_cons, List.map_nil, Token.respell, plainSpelling, hn, hn']

/-- A duration of both texts is taken from both. -/
theorem answered_time {v v' b b' : List Char} {k : Nat} {c' : Char} (htime : IsTime v)
    (htime' : IsTime v') (hcloses : ∀ d ∈ b.head?, closesTime d = true) (htail : Varied P none b b')
    (hcs : v ++ b = c :: cs) (hcs' : v' ++ b' = c' :: cs')
    (hstep : step s c cs = .ok (t, s₁, rest)) : Answered P k t s₁ rest (step s c' cs') := by
  obtain ⟨e, w, rfl, he, hread⟩ := htime.readNumber
  obtain ⟨e', w', rfl, he', hread'⟩ := htime'.readNumber
  obtain ⟨rfl, rfl⟩ := List.cons.inj hcs
  obtain ⟨rfl, rfl⟩ := List.cons.inj hcs'
  obtain ⟨x, -, htook⟩ := took_of_step hstep
  have hm := (number_of_isDigit htook he).1
  have hstep₁ := step_number (Or.inl ⟨he, hm⟩) (hread (endsRun_of_closesTime hcloses))
  have hstep₂ := step_number (Or.inl ⟨he', hm⟩)
    (hread' (endsRun_of_closesTime (htail.head_eq ▸ hcloses)))
  rw [List.append_eq] at hstep
  rw [hstep₁] at hstep
  cases hstep
  exact ⟨_, _, hstep₂, Or.inl ⟨samePlain_time htime htime', none, htail⟩⟩

/-- A comment passes over durations. -/
theorem varied_dropComment (h : Varied P last cs cs') :
    ∃ last', Varied P last' (dropComment cs) (dropComment cs') := by
  have hword : ∀ v : List Char, IsTime v → ∀ d ∈ v, (d != '\n' && d != '\r') = true := by
    intro v hv d hd
    have hrest := hv.isWordRest d hd
    simp only [Bool.and_eq_true, bne_iff_ne]
    constructor <;> (rintro rfl; cases hrest)
  induction h with
  | nil => exact ⟨none, Varied.nil⟩
  | @kept last c cs cs' htail ih =>
    simp only [dropComment, List.dropWhile_cons]
    split
    · exact ih
    · exact ⟨last, Varied.kept htail⟩
  | time _ htime htime' _ _ _ ih =>
    unfold dropComment
    rw [List.dropWhile_append_of_pos (hword _ htime), List.dropWhile_append_of_pos (hword _ htime')]
    exact ih

/-! ## 3. Literals -/

section Literals

variable {quote : Char} {text : List Char}

/-- What a text says of a literal from which a front part has been read. -/
abbrev behind (x : List Char) (r : List Char × List Char) : List Char × List Char := (x ++ r.1, r.2)

theorem map_behind_eq_ok {x : List Char} {y : Except LexError (List Char × List Char)}
    (h : y.map (behind x) = .ok (text, rest)) : ∃ text₀, y = .ok (text₀, rest) ∧ text = x ++ text₀ := by
  cases y with
  | error e => cases h
  | ok r =>
    cases h
    exact ⟨r.1, rfl, rfl⟩

theorem readString_escape {d : Char} (hd : d = quote ∨ d ∈ escapes) (cs : List Char) :
    readString quote ('\\' :: d :: cs) = (readString quote cs).map (behind ['\\', d]) := by
  rw [readString.eq_def]
  simp only [if_true, if_pos hd]
  rfl

theorem readString_quote (h : quote ≠ '\\') (cs : List Char) :
    readString quote (quote :: cs) = .ok ([], cs) := by
  rw [readString.eq_def]
  simp only [if_neg h, if_true]

theorem readString_other (hc : c ≠ '\\') (hquote : c ≠ quote) (cs : List Char) :
    readString quote (c :: cs) = (readString quote cs).map (behind [c]) := by
  rw [readString.eq_def]
  simp only [if_neg hc, if_neg hquote]
  rfl

/-- What is neither a quote nor a backslash is passed over in a literal. -/
theorem readString_append {w : List Char} (hw : ∀ d ∈ w, d ≠ quote ∧ d ≠ '\\') (cs : List Char) :
    readString quote (w ++ cs) = (readString quote cs).map (behind w) := by
  induction w with
  | nil =>
    rw [List.nil_append]
    cases readString quote cs <;> rfl
  | cons d w ih =>
    obtain ⟨hquote, hescape⟩ := hw d List.mem_cons_self
    rw [List.cons_append, readString_other hescape hquote,
      ih fun e he => hw e (List.mem_cons_of_mem d he)]
    cases readString quote cs <;> rfl

/-- No character of a duration means anything in a literal. -/
theorem IsTime.not_quote {v : List Char} (h : IsTime v) (hq : isQuote quote = true) :
    ∀ d ∈ v, d ≠ quote ∧ d ≠ '\\' := by
  intro d hd
  have hrest := h.isWordRest d hd
  constructor
  · rintro rfl
    rcases isQuote_iff.mp hq with rfl | rfl | rfl <;> cases hrest
  · rintro rfl
    cases hrest

/-- **What the other text gives for a literal**: the same, or else the literal takes in a duration that
begins at most `k` characters before the end. -/
def Closed (P : List Char → Prop) (k : Nat) (text rest : List Char)
    (y : Except LexError (List Char × List Char)) : Prop :=
  ∃ text' rest', y = .ok (text', rest') ∧
    ((text' = text ∧ ∃ last, Varied P last rest rest') ∨
      ∃ back, P back ∧ rest.length < back.length ∧ back.length ≤ k)

theorem Closed.behind {k k' : Nat} {y : Except LexError (List Char × List Char)}
    (h : Closed P k text rest y) (hk : k ≤ k') (x : List Char) :
    Closed P k' (x ++ text) rest (y.map (behind x)) := by
  obtain ⟨text', rest', rfl, ⟨rfl, hrest⟩ | ⟨back, hplace, hlt, hle⟩⟩ := h
  · exact ⟨_, rest', rfl, Or.inl ⟨rfl, hrest⟩⟩
  · exact ⟨_, rest', rfl, Or.inr ⟨back, hplace, hlt, Nat.le_trans hle hk⟩⟩

/-- **A literal is closed in both texts**, and a duration that it takes in it takes in in both. -/
theorem closed_readString (hq : isQuote quote = true) (h : Varied P last cs cs')
    (hread : readString quote cs = .ok (text, rest)) :
    Closed P cs.length text rest (readString quote cs') := by
  induction hn : cs.length using Nat.strong_induction_on generalizing last cs cs' text with
  | _ n ih =>
    subst hn
    cases h with
    | nil => cases hread
    | @kept _ c cs cs' htail =>
      by_cases hc : c = '\\'
      · subst hc
        cases htail with
        | nil => cases hread
        | @kept _ d cs cs' htail =>
          by_cases hd : d = quote ∨ d ∈ escapes
          · rw [readString_escape hd] at hread ⊢
            obtain ⟨text₀, hread', rfl⟩ := map_behind_eq_ok hread
            exact (ih _ (by simp only [List.length_cons]; omega) htail hread' rfl).behind
              (by simp only [List.length_cons]; omega) _
          · rw [readString.eq_def] at hread
            simp only [if_true, if_neg hd] at hread
            cases hread
        | time hopens _ _ _ _ _ => exact absurd hopens (by decide)
      · by_cases hquote : c = quote
        · subst hquote
          rw [readString_quote hc] at hread ⊢
          cases hread
          exact ⟨_, _, rfl, Or.inl ⟨rfl, _, htail⟩⟩
        · rw [readString_other hc hquote] at hread ⊢
          obtain ⟨text₀, hread', rfl⟩ := map_behind_eq_ok hread
          exact (ih _ (Nat.lt_succ_self _) htail hread' rfl).behind (Nat.le_succ _) _
    | @time d v v' b b' hopens htime htime' _ hplace htail =>
      rw [readString_append (htime.not_quote hq)] at hread
      rw [readString_append (htime'.not_quote hq)]
      obtain ⟨text₀, hread₀, rfl⟩ := map_behind_eq_ok hread
      have hlt := readString_length hread₀
      obtain ⟨e, w, rfl, -⟩ := htime.readNumber
      have hlength : b.length < (e :: w ++ b).length := by
        rw [List.length_append, List.length_cons]
        omega
      obtain ⟨text', rest', hread', -⟩ := ih _ hlength htail hread₀ rfl
      exact ⟨v' ++ text', rest', by rw [hread']; rfl,
        Or.inr ⟨_, hplace, Nat.lt_trans hlt hlength, Nat.le_refl _⟩⟩

end Literals

/-! ## 4. Tokens that a duration is part of -/

/-- **What a token with a duration in it can be**: only a number and a name go on behind what opens a
duration, and a name does so behind a colon. -/
theorem Took.number_or_name (h : Took s (c :: w) t s₁ rest) (hc : c ≠ '#') (hq : isQuote c = false)
    {d e : Char} (hd : d ∈ c :: w) (hopens : opensTime d = true) (he : e ∈ w)
    (hdigit : e.isDigit = true) :
    (beginsNumber s.mode c (w ++ rest) ∧
      ∃ u, t = some u ∧ readNumber c (w ++ rest) = .ok (u, rest) ∧ s₁ = s.settled) ∨
    (t = some (wordToken (c :: w)) ∧ s₁ = s ∧ s.mode = .plain ∧ c.isDigit = false ∧
      (∀ x ∈ c :: w, isNameRest x = true) ∧ d = ':') := by
  have hglues := not_glues_of_opensTime hopens
  cases h with
  | comment => exact absurd rfl hc
  | mark hw _ =>
    rw [not_isDigit_of_mark (mem_all_marks hw) (List.mem_cons_of_mem c he)] at hdigit
    cases hdigit
  | number hb hr => exact Or.inl ⟨hb, _, rfl, hr, rfl⟩
  | string _ hquote _ => rw [hq] at hquote; cases hquote
  | word hm hfirst hw _ =>
    refine Or.inr ⟨rfl, rfl, hm, hfirst, hw, ?_⟩
    have hname := hw d hd
    simp only [glues, Bool.or_eq_false_iff] at hglues
    simpa only [isNameRest, hglues.1, Bool.false_or, beq_iff_eq] using hname
  | label _ hstart hw _ _ =>
    have hword : isWordRest d = true := by
      rcases List.mem_cons.mp hd with rfl | hd
      · exact isWordRest_of_isWordStart hstart
      · exact hw d hd
    rw [glues_of_isWordRest hword] at hglues
    cases hglues
  | or _ _ hr _ =>
    obtain rfl := List.mem_singleton.mp he
    rcases hr with rfl | rfl <;> cases hdigit
  | _ => cases he

section Meets

variable {a v v' b b' : List Char} {k : Nat}

/-- A duration begins inside the front part in question. -/
theorem Meets.digit_mem (h : Meets P last a (w ++ rest) cs' v v' b b') (hlength : a.length < w.length) :
    ∃ e ∈ w, e.isDigit = true := by
  obtain ⟨e, x, rfl, he, -⟩ := h.time.readNumber
  refine ⟨e, ?_, he⟩
  have hleft := h.left
  rcases List.append_eq_append_iff.mp hleft with ⟨y, rfl, -⟩ | ⟨y, rfl, hy⟩
  · rw [List.length_append] at hlength
    omega
  · cases y with
    | nil => simp at hlength
    | cons d y =>
      obtain rfl : e = d := (List.cons.inj hy).1
      exact List.mem_append_right _ List.mem_cons_self

/-- So does the character right before it. -/
theorem Meets.opener_mem (h : Meets P (some c) a (w ++ rest) cs' v v' b b')
    (hlength : a.length < w.length) : ∃ d ∈ c :: w, opensTime d = true := by
  obtain ⟨d, hd, hopens⟩ := h.opened
  refine ⟨d, ?_, hopens⟩
  rw [← getLast?_cons_or c a none, Option.or_none] at hd
  rcases List.mem_cons.mp (List.mem_of_getLast? hd) with rfl | hmem
  · exact List.mem_cons_self
  · have hleft := h.left
    rcases List.append_eq_append_iff.mp hleft with ⟨y, rfl, -⟩ | ⟨y, rfl, -⟩
    · rw [List.length_append] at hlength
      omega
    · exact List.mem_cons_of_mem c (List.mem_append_left _ hmem)

theorem Meets.length_lt (h : Meets P last a (w ++ rest) cs' v v' b b') (hlength : a.length < w.length) :
    rest.length < (v ++ b).length ∧ (v ++ b).length ≤ (w ++ rest).length := by
  have hleft := congrArg List.length h.left
  rw [List.length_append, @List.length_append _ a] at hleft
  rw [@List.length_append _ w]
  omega

/-- A name with a colon is no word for a number. -/
theorem not_isQuantity_of_colon {word : List Char} (h : ':' ∈ word) :
    (wordToken word).isQuantity = false := by
  have hlower : ∀ text : String, ':' ∉ text.toList → String.ofList (word.map Char.toLower) ≠ text := by
    rintro _ hno rfl
    rw [String.toList_ofList] at hno
    exact hno (List.mem_map.mpr ⟨':', h, by decide⟩)
  unfold wordToken
  dsimp only
  rw [if_neg]
  · split
    · rfl
    · split <;> rfl
  · rintro (hinf | hnan)
    · exact hlower "inf" (by decide) hinf
    · exact hlower "nan" (by decide) hnan

/-- **A name goes on over a duration** in both texts. -/
theorem answered_word (h : Meets P (some c) a (w ++ rest) cs' v v' b b') (hlength : a.length < w.length)
    (hm : s.mode = .plain) (hc : c.isDigit = false) (hw : ∀ d ∈ c :: w, isNameRest d = true)
    (hcolon : ':' ∈ c :: w) :
    Answered P (w ++ rest).length (some (wordToken (c :: w))) s rest (step s c cs') := by
  have hstep : step s c (cs'.takeWhile isNameRest ++ cs'.dropWhile isNameRest) = _ :=
    step_word hm hc (fun d hd => ?_) (endsRun_dropWhile _ _)
  · rw [List.takeWhile_append_dropWhile] at hstep
    refine ⟨_, _, hstep, Or.inr ⟨_, _, rfl, ?_, h.place, h.length_lt hlength⟩⟩
    exact not_isQuantity_of_colon hcolon
  · rcases List.mem_cons.mp hd with rfl | hd
    · exact hw _ List.mem_cons_self
    · exact List.mem_takeWhile_imp hd

/-- A number that goes on into a duration ends with a minus before it. -/
theorem Meets.minus (h : Meets P (some c) a (w ++ rest) cs' v v' b b') {u : Token}
    (hlength : a.length < w.length) (hb : beginsNumber s.mode c (w ++ rest))
    (hr : readNumber c (w ++ rest) = .ok (u, rest)) : a.getLast? = some '-' := by
  have hglues : glues c = true := by
    rcases hb with ⟨hd, -⟩ | ⟨-, rfl, -⟩
    · exact glues_of_isWordRest (isWordRest_of_isDigit hd)
    · decide
  obtain ⟨d, hd, hopens⟩ := h.opened
  have hno := not_glues_of_opensTime hopens
  cases ha : a.getLast? with
  | none =>
    rw [ha] at hd
    obtain rfl : c = d := by simpa using hd
    exact absurd hglues (by simp [hno])
  | some d' =>
    rw [ha] at hd
    obtain rfl : d' = d := by simpa using hd
    have hmem : d' ∈ w := by
      have hleft := h.left
      rcases List.append_eq_append_iff.mp hleft with ⟨y, rfl, -⟩ | ⟨y, rfl, -⟩
      · rw [List.length_append] at hlength
        omega
      · exact List.mem_append_left _ (List.mem_of_getLast? ha)
    have hnumber := isNumberChar_of_readNumber (isNumberChar_of_glues hglues) hr d' hmem
    simp only [isNumberChar, hno, Bool.false_or, Bool.or_eq_true, beq_iff_eq] at hnumber
    rcases hnumber with rfl | rfl
    · exact absurd hopens (by decide)
    · rfl

/-- What is taken as a number before the units reaches into the duration. -/
theorem Meets.takeNumber (h : Meets P (some c) a (w ++ rest) cs' v v' b b') {u : Token}
    (hlength : a.length < w.length) (ha : a.getLast? = some '-')
    (hr : readNumber c (w ++ rest) = .ok (u, rest)) :
    ∃ n r, Lexer.takeNumber c (a ++ (v ++ b)) = (c :: n, r) ∧ a.length < n.length := by
  rw [← h.left]
  obtain ⟨n, hn, -, hcs, -⟩ | ⟨n, r, units, hn, -, hcs, hd, hunits, -⟩ := readNumber_eq_ok hr
  · obtain rfl := List.append_cancel_right hcs
    exact ⟨n, rest, hn, hlength⟩
  · refine ⟨n, r, hn, Nat.lt_of_not_le fun hle => ?_⟩
    obtain ⟨e, x, rfl, he, -⟩ := h.time.readNumber
    have hboth := hcs.trans h.left
    obtain ⟨y, rfl, rfl⟩ : ∃ y, a = n ++ y ∧ r = y ++ (e :: x ++ b) := by
      rcases List.append_eq_append_iff.mp hboth with ⟨y, rfl, rfl⟩ | ⟨y, rfl, hy⟩
      · exact ⟨y, rfl, rfl⟩
      · rw [List.length_append] at hle
        obtain rfl : y = [] := List.length_eq_zero_iff.mp (by omega)
        exact ⟨[], by simp, by simpa using hy.symm⟩
    cases hy : y.getLast? with
    | none =>
      -- the units would begin with a digit
      obtain rfl := List.getLast?_eq_none_iff.mp hy
      obtain ⟨u, hu, hmem⟩ := head_of_takeDuration hd
      obtain rfl : e = u := by simpa using hu
      rw [(unit_not_digit hmem).1] at he
      cases he
    | some d =>
      -- the units would hold a minus
      obtain rfl : d = '-' := by
        rw [List.getLast?_append, hy] at ha
        simpa using ha
      have hmem : '-' ∈ units := by
        have hlength₁ := congrArg List.length hcs
        have hlength₂ := congrArg List.length hunits
        rcases List.append_eq_append_iff.mp hunits with ⟨z, rfl, -⟩ | ⟨z, rfl, -⟩
        · simp only [List.length_append] at hlength hlength₁ hlength₂
          omega
        · exact List.mem_append_left _ (List.mem_of_getLast? hy)
      exact absurd ((isWordRest_of_takeDuration hd).2 _ hmem) (by decide)

/-- **A number goes on over a duration** in both texts, and what they take is no duration in either. -/
theorem answered_number (h : Meets P (some c) a (w ++ rest) cs' v v' b b') {u : Token}
    (hlength : a.length < w.length) (hb : beginsNumber s.mode c (w ++ rest))
    (hr : readNumber c (w ++ rest) = .ok (u, rest)) :
    Answered P k (some u) s.settled rest (step s c cs') := by
  have ha := h.minus hlength hb hr
  obtain ⟨n, r, hn, hlt⟩ := h.takeNumber hlength ha hr
  obtain ⟨e, ds, units, rfl, hcount⟩ := h.time.exists_counted
  obtain ⟨e', ds', units', rfl, hcount'⟩ := h.time'.exists_counted
  have hread := hcount.readNumber_exponent ha hn hlt (endsRun_of_closesTime h.closed)
  have hread' := hcount'.readNumber_exponent ha hn hlt
    (endsRun_of_closesTime (h.rest.head_eq ▸ h.closed))
  rw [h.left, hread] at hr
  cases hr
  have hbegins : beginsNumber s.mode c (a ++ (e' :: ds' ++ units' ++ b')) := by
    rcases hb with hb | ⟨hm, hc, hnext⟩
    · exact Or.inl hb
    · refine Or.inr ⟨hm, hc, ?_⟩
      rw [h.left] at hnext
      cases a with
      | nil => cases ha
      | cons d a => exact hnext
  have hplain : ∀ x : List Char,
      Token.respell plainSpelling (.duration (String.ofList (c :: a ++ x))) = .duration "" := by
    intro x
    refine congrArg Token.duration (plainSpelling_of_minus ?_)
    rw [String.toList_ofList]
    exact List.mem_append_left _ (List.mem_cons_of_mem c (List.mem_of_getLast? ha))
  rw [h.right]
  refine ⟨_, _, step_number hbegins hread', Or.inl ⟨?_, none, h.rest⟩⟩
  exact congrArg (fun t => [t]) ((hplain _).trans (hplain _).symm)

end Meets

/-! ## 5. Every step -/

/-- Only in brackets does a token that ends with a colon end before a digit. -/
theorem brackets_of_colon (h : Took s (c :: w) t s₁ rest) (hc : c ≠ '#') (hq : isQuote c = false)
    (hlast : (c :: w).getLast? = some ':') {e : Char} (he : e ∈ rest.head?) (hdigit : e.isDigit = true) :
    ∃ a b, s₁.mode = .brackets a b := by
  have hmem := List.mem_of_getLast? hlast
  cases h with
  | blank hspace =>
    obtain rfl : c = ':' := by simpa using hlast
    cases hspace
  | comment => exact absurd rfl hc
  | mark hw _ =>
    have hall : (marks .plain ++ marks .braces).all (fun m => !m.1.contains ':') = true := by decide
    have := List.all_eq_true.mp hall _ (mem_all_marks hw)
    rw [List.contains_iff_mem.mpr hmem] at this
    cases this
  | number hb hr =>
    exfalso
    rcases List.mem_cons.mp hmem with rfl | hmem
    · rcases hb with ⟨hd, -⟩ | ⟨-, heq, -⟩
      · cases hd
      · cases heq
    · have hnumber : isNumberChar c = true := by
        rcases hb with ⟨hd, -⟩ | ⟨-, rfl, -⟩
        · exact isNumberChar_of_isDigit hd
        · decide
      exact absurd (isNumberChar_of_readNumber hnumber hr _ hmem) (by decide)
  | string _ hquote _ => rw [hq] at hquote; cases hquote
  | word _ _ _ hrest =>
    have := hrest e he
    rw [isNameRest_of_isDigit hdigit] at this
    cases this
  | label _ hstart hw _ _ =>
    rcases List.mem_cons.mp hmem with rfl | hmem
    · cases hstart
    · exact absurd (hw _ hmem) (by decide)
  | or _ _ hr _ =>
    have hd := hlast
    rcases hr with rfl | rfl <;> simp at hd
  | colon _ => exact ⟨_, _, rfl⟩
  | openParen _ => simp at hlast
  | closeParen _ _ => simp at hlast
  | openBraces _ => simp at hlast
  | closeBraces _ => simp at hlast
  | openBrackets _ => simp at hlast
  | closeBrackets _ => simp at hlast

/-- A token that holds no duration is taken from both texts. -/
theorem answered_frame {rest' : List Char} {k : Nat} (htook : Took s (c :: w) t s₁ rest) (hc : c ≠ '#')
    (hq : isQuote c = false) (h : Varied P (w.getLast?.or (some c)) rest rest') :
    Answered P k t s₁ rest (step s c (w ++ rest')) := by
  have halike : Alike s₁.mode t (c :: w) rest rest' := by
    rcases h.head with heq | ⟨⟨d, hd, hopens⟩, ⟨e, he, hdigit⟩, ⟨e', he', hdigit'⟩⟩
    · exact Or.inl heq
    · have hglues : ∀ {e : Char}, e.isDigit = true → glues e = true := fun h =>
        glues_of_isWordRest (isWordRest_of_isDigit h)
      rw [← getLast?_cons_or c w none, Option.or_none] at hd
      refine Or.inr ⟨⟨d, hd, not_glues_of_opensTime hopens, ?_⟩, Or.inl ⟨e, he, hglues hdigit⟩,
        ⟨e', he', Or.inl (hglues hdigit')⟩⟩
      rintro rfl
      exact brackets_of_colon htook hc hq hd he hdigit
  exact ⟨t, rest', (htook.frame halike).step_eq hc, Or.inl ⟨rfl, _, h⟩⟩

/-- **A step that both texts begin with**: a comment, a literal, a token without durations in it, or
one of the tokens that a duration is part of. -/
theorem answered_kept (h : Varied P (some c) cs cs') (hstep : step s c cs = .ok (t, s₁, rest)) :
    Answered P cs.length t s₁ rest (step s c cs') := by
  by_cases hc : c = '#'
  · subst hc
    obtain ⟨rfl, rfl, rfl, hcomment⟩ := comment_of_step hstep
    exact ⟨none, _, hcomment cs', Or.inl ⟨rfl, varied_dropComment h⟩⟩
  by_cases hq : isQuote c = true
  · obtain ⟨hm, rfl, text, hread, rfl⟩ := string_of_step hq hstep
    obtain ⟨text', rest', hread', ⟨rfl, hrest⟩ | ⟨back, hplace, hlt, hle⟩⟩ :=
      closed_readString hq h hread
    · exact ⟨_, rest', step_string hm hq hread', Or.inl ⟨rfl, hrest⟩⟩
    · exact ⟨_, rest', step_string hm hq hread', Or.inr ⟨_, back, rfl, rfl, hplace, hlt, hle⟩⟩
  obtain ⟨w, rfl, htook⟩ := took_of_step hstep
  obtain ⟨rest', rfl, hrest⟩ | ⟨a, v, v', b, b', hlength, hmeets⟩ := h.split
  · exact answered_frame htook hc (by simpa using hq) hrest
  -- a token with the beginning of a duration in it holds a digit and what stands before it
  obtain ⟨e, he, hdigit⟩ := hmeets.digit_mem hlength
  obtain ⟨d, hd, hopens⟩ := hmeets.opener_mem hlength
  obtain ⟨hb, u, rfl, hr, rfl⟩ | ⟨rfl, rfl, hm, hfirst, hw, rfl⟩ :=
    Took.number_or_name htook hc (by simpa using hq) hd hopens he hdigit
  · exact answered_number hmeets hlength hb hr
  · exact answered_word hmeets hlength hm hfirst hw hd

/-- **A step that succeeds in one text succeeds in the other.** -/
theorem answered_step {c' : Char} (h : Varied P last (c :: cs) (c' :: cs'))
    (hstep : step s c cs = .ok (t, s₁, rest)) :
    Answered P cs.length t s₁ rest (step s c' cs') := by
  generalize hx : c :: cs = x at h
  generalize hx' : c' :: cs' = x' at h
  cases h with
  | nil => cases hx
  | kept htail =>
    cases hx
    cases hx'
    exact answered_kept htail hstep
  | time _ htime htime' hcloses _ htail =>
    exact answered_time htime htime' hcloses htail hx.symm hx'.symm hstep

/-! ## 6. All tokens of both texts -/

/-- **A place where no string literal and no name goes on**, somewhere in `whole`: no token but a
number or a duration begins before it and ends behind it. -/
def Unbroken (whole back : List Char) : Prop :=
  ∀ ⦃ts s c cs t s' rest⦄, Run {} whole ts s (c :: cs) → step s c cs = .ok (some t, s', rest) →
    rest.length < back.length → back.length ≤ cs.length → t.isQuantity = true

theorem Varied.eq_nil_iff (h : Varied P last cs cs') : cs = [] ↔ cs' = [] := by
  cases h with
  | nil => exact Iff.rfl
  | kept _ => simp
  | time _ htime htime' _ _ _ =>
    obtain ⟨_, _, rfl, -⟩ := htime.readNumber
    obtain ⟨_, _, rfl, -⟩ := htime'.readNumber
    simp

theorem SamePlain.append {ts ts' us us' : List Token} (h : SamePlain ts ts') (h' : SamePlain us us') :
    SamePlain (ts ++ us) (ts' ++ us') := by
  unfold SamePlain at *
  rw [List.map_append, List.map_append, h, h']

theorem concur_tokensFrom {whole : List Char} {ts : List Token} (h : Varied (Unbroken whole) last cs cs')
    (hrun : Run {} whole ts s cs) : Concur SamePlain (tokensFrom s cs) (tokensFrom s cs') := by
  induction hn : cs.length using Nat.strong_induction_on generalizing last cs cs' s ts with
  | _ n ih =>
    subst hn
    cases hcs : cs with
    | nil =>
      rw [h.eq_nil_iff.mp hcs]
      exact concur_refl (R := SamePlain) (fun _ => rfl) _
    | cons c cs₀ =>
      subst hcs
      obtain ⟨c', cs₀', rfl⟩ := List.exists_cons_of_ne_nil fun hnil => by
        cases h.eq_nil_iff.mpr hnil
      cases hstep : step s c cs₀ with
      | ok r =>
        obtain ⟨t, s₁, rest⟩ := r
        obtain ⟨t', rest', hstep', ⟨hsame, last', hrest⟩ | ⟨u, back, rfl, hu, hplace, hlt, hle⟩⟩ :=
          answered_step h hstep
        · rw [tokensFrom_step hstep, tokensFrom_step hstep']
          exact (ih _ (Nat.lt_succ_of_le (step_length hstep)) hrest (hrun.snoc hstep) rfl).map
            fun _ _ hus => SamePlain.append hsame hus
        · rw [hplace hrun hstep hlt hle] at hu
          cases hu
      | error e =>
        -- a step that fails in one text fails in the other
        cases hts : tokensFrom s (c :: cs₀) with
        | ok us =>
          obtain ⟨t, s', rest, _, hok, -⟩ := exists_step_of_tokensFrom hts
          rw [hstep] at hok
          cases hok
        | error e =>
          cases hts' : tokensFrom s (c' :: cs₀') with
          | error e' => exact Concur.error e e'
          | ok us =>
            obtain ⟨t, s', rest, _, hok', -⟩ := exists_step_of_tokensFrom hts'
            obtain ⟨t', rest', hok, -⟩ := answered_step h.swap hok'
            rw [hstep] at hok
            cases hok

/-- **The tokens of both texts differ in durations at most**, or none of the two has tokens. -/
theorem concur_tokens {whole : List Char} (h : Varied (Unbroken whole) none whole cs') :
    Concur SamePlain (tokens whole) (tokens cs') := concur_tokensFrom h Run.done

end PanelLint.Query
