import PanelLint.Proofs.Query.Segmentation
/-!
# Where a literal ends

Which quotes of a query begin a literal and which end one can be said without running over it: a
literal ends with the first quote of its kind that no backslash escapes.  `Segmentation` asks this of
each literal of a list of segments, and of the code between that it holds no quote.

* `closes_iff`, `open_iff`: the two ways in which a literal ends;
* `split_eq_iff`: these conditions hold of the segments of a query, and of no other list.
-/

namespace PanelLint.Query

variable {quote c d : Char} {cs body front skip : List Char} {ss : List Segment}

/-! ## 1. Quotes that close a literal -/

/-- Whether the character behind a part of a literal is escaped there: a backslash escapes the next
character, unless it is itself escaped. -/
def escapesNext (front : List Char) : Bool :=
  front.foldl (fun escaped c => !escaped && c == '\\') false

theorem escapesNext_cons (h : c ≠ '\\') : escapesNext (c :: front) = escapesNext front := by
  simp [escapesNext, beq_eq_false_iff_ne.mpr h]

/-- An escaped character escapes nothing. -/
theorem escapesNext_pair : escapesNext ('\\' :: c :: front) = escapesNext front := by
  simp [escapesNext]

/-- **A quote that closes.**  In a text behind the opening quote of a literal, the same quote stands
behind `front` and is not escaped.  Between backticks nothing is. -/
structure ClosesAt (quote : Char) (text front : List Char) : Prop where
  here : front ++ [quote] <+: text
  free : quote = backtick ∨ escapesNext front = false

/-- The text behind an opening quote ends with the first quote that closes. -/
def EndsAtFirst (quote : Char) (body : List Char) : Prop :=
  ∃ inner, body = inner ++ [quote] ∧ ClosesAt quote body inner ∧
    ∀ front, ClosesAt quote body front → inner.length ≤ front.length

/-- No quote closes in the text behind an opening quote. -/
def NeverCloses (quote : Char) (body : List Char) : Prop := ∀ front, ¬ ClosesAt quote body front

theorem neverCloses_nil : NeverCloses quote [] := by
  rintro front ⟨⟨rest, h⟩, -⟩
  simp at h

/-- A quote that stands first closes. -/
theorem closesAt_nil : ClosesAt quote (quote :: cs) [] := ⟨⟨cs, rfl⟩, Or.inr rfl⟩

/-- **A part of a literal that can be passed over**: nothing closes in it, and behind it the literal
goes on as from its opening quote. -/
def Passed (quote : Char) (skip cs : List Char) : Prop :=
  ∀ front, ClosesAt quote (skip ++ cs) front ↔
    ∃ inner, front = skip ++ inner ∧ ClosesAt quote cs inner

/-- Another character is passed over. -/
theorem passed_other (h : ¬ (c = '\\' ∧ quote ≠ backtick)) (hq : ¬ c = quote) :
    Passed quote [c] cs := by
  have hfree : ∀ {front}, quote = backtick ∨ escapesNext (c :: front) = false ↔
      quote = backtick ∨ escapesNext front = false := by
    intro front
    by_cases hb : quote = backtick
    · simp [hb]
    · rw [escapesNext_cons fun hc => h ⟨hc, hb⟩]
  intro front
  constructor
  · rintro ⟨here, free⟩
    cases front with
    | nil => exact absurd (List.cons_prefix_cons.mp here).1.symm hq
    | cons e front =>
      obtain ⟨rfl, hrest⟩ := List.cons_prefix_cons.mp here
      exact ⟨front, rfl, hrest, hfree.mp free⟩
  · rintro ⟨inner, rfl, here, free⟩
    exact ⟨List.cons_prefix_cons.mpr ⟨rfl, here⟩, hfree.mpr free⟩

/-- A backslash is passed over with the character that it escapes. -/
theorem passed_escape (hquote : quote ≠ '\\') (hb : quote ≠ backtick) :
    Passed quote ['\\', d] cs := by
  intro front
  constructor
  · rintro ⟨here, free⟩
    match front with
    | [] => exact absurd (List.cons_prefix_cons.mp here).1 hquote
    | [e] =>
      obtain ⟨rfl, -⟩ := List.cons_prefix_cons.mp here
      exact absurd free (by simp [hb, escapesNext])
    | e :: e' :: front =>
      obtain ⟨rfl, htail⟩ := List.cons_prefix_cons.mp here
      obtain ⟨rfl, hrest⟩ := List.cons_prefix_cons.mp htail
      exact ⟨front, rfl, hrest, free.imp id fun h => escapesNext_pair.symm.trans h⟩
  · rintro ⟨inner, rfl, here, free⟩
    exact ⟨List.cons_prefix_cons.mpr ⟨rfl, List.cons_prefix_cons.mpr ⟨rfl, here⟩⟩,
      free.imp id fun h => escapesNext_pair.trans h⟩

theorem Passed.endsAtFirst_iff (h : Passed quote skip cs) :
    EndsAtFirst quote (skip ++ cs) ↔ EndsAtFirst quote cs := by
  constructor
  · rintro ⟨inner, heq, hat, hfirst⟩
    obtain ⟨inner, rfl, hinner⟩ := (h inner).mp hat
    refine ⟨inner, by simpa using heq, hinner, fun front hfront => ?_⟩
    have hle := hfirst _ ((h _).mpr ⟨front, rfl, hfront⟩)
    simpa using hle
  · rintro ⟨inner, rfl, hat, hfirst⟩
    refine ⟨skip ++ inner, by simp, (h _).mpr ⟨inner, rfl, hat⟩, fun front hfront => ?_⟩
    obtain ⟨front, rfl, hinner⟩ := (h front).mp hfront
    simpa using hfirst front hinner

theorem Passed.neverCloses_iff (h : Passed quote skip cs) :
    NeverCloses quote (skip ++ cs) ↔ NeverCloses quote cs := by
  constructor
  · exact fun hnever front hfront => hnever _ ((h _).mpr ⟨front, rfl, hfront⟩)
  · intro hnever front hfront
    obtain ⟨inner, -, hinner⟩ := (h front).mp hfront
    exact hnever inner hinner

/-- A backslash at the end escapes nothing and closes nothing. -/
theorem neverCloses_backslash (hquote : quote ≠ '\\') : NeverCloses quote ['\\'] := by
  rintro front ⟨here, -⟩
  cases front with
  | nil => exact hquote (List.cons_prefix_cons.mp here).1
  | cons e front =>
    have hlen := (List.cons_prefix_cons.mp here).2.length_le
    simp at hlen

theorem EndsAtFirst.not_neverCloses (h : EndsAtFirst quote body) : ¬ NeverCloses quote body := by
  obtain ⟨inner, -, hat, -⟩ := h
  exact fun hnever => hnever inner hat

/-! ## 2. The two ways in which a literal ends -/

/-- **A literal is closed where it ends** when it ends with the first quote that closes. -/
theorem closes_iff (hquote : quote ≠ '\\') :
    closes quote body = true ↔ EndsAtFirst quote body := by
  fun_induction closes quote body with
  | case1 => exact iff_of_false (by simp) fun h => h.not_neverCloses neverCloses_nil
  | case2 c hc =>
    rw [hc.1]
    exact iff_of_false (by simp) fun h => h.not_neverCloses (neverCloses_backslash hquote)
  | case3 c hc d ds ih =>
    rw [ih, hc.1]
    exact (passed_escape hquote hc.2).endsAtFirst_iff.symm
  | case4 cs hc =>
    rw [List.isEmpty_iff]
    constructor
    · rintro rfl
      exact ⟨[], rfl, closesAt_nil, fun front _ => Nat.zero_le _⟩
    · rintro ⟨inner, heq, -, hfirst⟩
      have hinner := List.eq_nil_of_length_eq_zero (Nat.le_zero.mp (hfirst [] closesAt_nil))
      rw [hinner] at heq
      exact (List.cons.inj heq).2
  | case5 c cs hc hq ih =>
    rw [ih]
    exact (passed_other hc hq).endsAtFirst_iff.symm

/-- **A literal is left open** when no quote closes in it. -/
theorem open_iff (hquote : quote ≠ '\\') :
    closeLiteral quote body = (body, []) ↔ EndsAtFirst quote body ∨ NeverCloses quote body := by
  rw [← closes_iff hquote]
  fun_induction closeLiteral quote body with
  | case1 => simp [neverCloses_nil]
  | case2 c hc => simp [hc.1, neverCloses_backslash hquote]
  | case3 c hc d ds ih =>
    rw [closes_escape hc, hc.1, show '\\' :: d :: ds = ['\\', d] ++ ds from rfl,
      (passed_escape hquote hc.2).neverCloses_iff, ← ih]
    simp [Prod.ext_iff]
  | case4 cs hc =>
    rw [closes_quote hc]
    have hcloses : ¬ NeverCloses quote (quote :: cs) := fun h => h [] closesAt_nil
    rw [or_iff_left hcloses, List.isEmpty_iff]
    constructor
    · exact fun h => (Prod.ext_iff.mp h).2
    · rintro rfl
      rfl
  | case5 c cs hc hq ih =>
    rw [closes_other hc hq, show c :: cs = [c] ++ cs from rfl,
      (passed_other hc hq).neverCloses_iff, ← ih]
    simp [Prod.ext_iff]

/-! ## 3. The segmentation of a query -/

/-- **A list of segments is a segmentation of a query.**  Its texts make the query, and none is empty.
Code holds no quote and does not meet code.  A literal begins with a quote and ends with the first one
like it that closes; only the last segment may have none that closes. -/
structure Segmentation (query : List Char) (ss : List Segment) : Prop where
  texts : ss.flatMap Segment.text = query
  nonempty : ∀ s ∈ ss, s.text ≠ []
  code_apart : ∀ front t t' back, ss ≠ front ++ .code t :: .code t' :: back
  code_plain : ∀ t, .code t ∈ ss → ∀ c ∈ t, c ≠ '"' ∧ c ≠ '\'' ∧ c ≠ '\x60'
  literal_quoted : ∀ t, .literal t ∈ ss →
    ∃ quote body, t = quote :: body ∧ (quote = '"' ∨ quote = '\'' ∨ quote = '\x60')
  literal_ends : ∀ front quote body back, ss = front ++ .literal (quote :: body) :: back →
    EndsAtFirst quote body ∨ back = [] ∧ NeverCloses quote body

theorem ne_backslash_of_isQuote (h : isQuote quote = true) : quote ≠ '\\' := by
  rintro rfl
  exact absurd h (by decide)

/-- A literal of a segmented list begins with a quote and ends as it should. -/
theorem Segmented.literal_cases {t : List Char} (h : Segmented (.literal t :: ss)) :
    ∃ quote body, t = quote :: body ∧ isQuote quote = true ∧
      (EndsAtFirst quote body ∨ ss = [] ∧ NeverCloses quote body) := by
  cases h with
  | @literal quote body _ hq hclosed _ =>
    exact ⟨quote, body, rfl, hq, Or.inl ((closes_iff (ne_backslash_of_isQuote hq)).mp hclosed)⟩
  | @openLiteral quote body hq hopen =>
    refine ⟨quote, body, rfl, hq, ?_⟩
    exact ((open_iff (ne_backslash_of_isQuote hq)).mp hopen).imp_right fun h => ⟨rfl, h⟩

theorem Segmented.segmentation (h : Segmented ss) :
    Segmentation (ss.flatMap Segment.text) ss where
  texts := rfl
  nonempty := by
    intro s hs
    obtain ⟨front, back, rfl⟩ := List.append_of_mem hs
    cases s with
    | code t => exact (h.isCode_of_mem hs).1
    | literal t =>
      obtain ⟨quote, body, rfl, -⟩ := h.of_append.2.literal_cases
      exact List.cons_ne_nil quote body
  code_apart := by
    rintro front t t' back rfl
    cases h.of_append.2 with
    | code _ hnext _ => exact absurd (hnext (.code t') rfl) (by simp [Segment.isLiteral])
  code_plain t ht c hc := isQuote_eq_false_iff.mp ((h.isCode_of_mem ht).2 c hc)
  literal_quoted := by
    intro t ht
    obtain ⟨front, back, rfl⟩ := List.append_of_mem ht
    obtain ⟨quote, body, rfl, hq, -⟩ := h.of_append.2.literal_cases
    exact ⟨quote, body, rfl, isQuote_iff.mp hq⟩
  literal_ends := by
    rintro front quote body back rfl
    obtain ⟨quote', body', heq, -, hends⟩ := h.of_append.2.literal_cases
    obtain ⟨rfl, rfl⟩ := List.cons.inj heq
    exact hends

/-- What is left of a segmentation behind its first segment. -/
theorem Segmentation.tail {query : List Char} {s : Segment} (h : Segmentation query (s :: ss)) :
    Segmentation (ss.flatMap Segment.text) ss where
  texts := rfl
  nonempty s' hs := h.nonempty s' (List.mem_cons_of_mem s hs)
  code_apart front t t' back heq := h.code_apart (s :: front) t t' back (congrArg (s :: ·) heq)
  code_plain t ht := h.code_plain t (List.mem_cons_of_mem s ht)
  literal_quoted t ht := h.literal_quoted t (List.mem_cons_of_mem s ht)
  literal_ends front quote body back heq :=
    h.literal_ends (s :: front) quote body back (congrArg (s :: ·) heq)

theorem Segmentation.segmented {query : List Char} (h : Segmentation query ss) : Segmented ss := by
  induction ss generalizing query with
  | nil => exact .nil
  | cons s ss ih =>
    have htail := ih h.tail
    cases s with
    | code t =>
      have hplain := h.code_plain t List.mem_cons_self
      refine .code ⟨h.nonempty _ List.mem_cons_self, fun c hc => ?_⟩ (fun s hs => ?_) htail
      · exact isQuote_eq_false_iff.mpr (hplain c hc)
      · obtain ⟨back, rfl⟩ := List.head?_eq_some_iff.mp hs
        cases s with
        | literal t' => rfl
        | code t' => exact absurd rfl (h.code_apart [] t t' back)
    | literal t =>
      obtain ⟨quote, body, rfl, hquote⟩ := h.literal_quoted t List.mem_cons_self
      have hq : isQuote quote = true := isQuote_iff.mpr hquote
      have hne := ne_backslash_of_isQuote hq
      rcases h.literal_ends [] quote body ss rfl with hends | ⟨rfl, hnever⟩
      · exact .literal hq ((closes_iff hne).mpr hends) htail
      · exact .openLiteral hq ((open_iff hne).mpr (Or.inr hnever))

/-- **The segments of a query are the one segmentation that it has.** -/
theorem split_eq_iff (query : List Char) (ss : List Segment) :
    Segment.split query = ss ↔ Segmentation query ss := by
  constructor
  · rintro rfl
    have h := (segmented_split query).segmentation
    rwa [Segment.split_texts] at h
  · intro h
    rw [← h.texts]
    exact h.segmented.split_eq

end PanelLint.Query
