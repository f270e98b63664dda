import PanelLint.Proofs.Promql.Exchange
/-!
# The grammar on rows of tokens that differ in single operands

Each reader of the grammar is given the tokens of two queries that `Exchange` relates.  Where it
reads a phrase of the first query, it reads one of the second query that stands in for it, and leaves
rows that are related again.

The readers look one token ahead and decide by its kind only.  So every lemma goes by the cases of
its reader: a fixed token stands on both sides, and of an exchanged one the reader sees that it is a
quantity, a name, or neither.
-/

namespace PanelLint.Promql.Phrase

variable {renamed : Prop} {prev prev' ts ts' : List Token} {t t' : Token} {α β : Type}

/-! ## 1. What a reader gives -/

/-- What is read is related, and so are the rests; with `inside`, braces are open there. -/
def ReadLike (renamed : Prop) (inside : Bool) (R : α → β → Prop) (x : α × List Token)
    (y : β × List Token) : Prop :=
  R x.1 y.1 ∧ ∃ prev, (inside = true → inBraces prev = true) ∧ Exchange renamed prev x.2 y.2

/-- **A reader does on the second row what it does on the first.** -/
abbrev Reads (renamed : Prop) (inside : Bool) (R : α → β → Prop)
    (x : Except Stop (α × List Token)) (y : Except Stop (β × List Token)) : Prop :=
  CarriesOver (ReadLike renamed inside R) x y

/-- What is read on both sides, with rows that are related outside braces or inside. -/
theorem reads_ok {R : α → β → Prop} {a : α} {b : β} (h : R a b)
    (hts : Exchange renamed prev ts ts') :
    Reads renamed false R (.ok (a, ts)) (.ok (b, ts')) :=
  carriesOver_ok ⟨h, prev, fun hf => absurd hf (by simp), hts⟩

/-- Likewise where braces are open. -/
theorem reads_ok_inside {R : α → β → Prop} {a : α} {b : β} (h : R a b)
    (hts : Exchange renamed prev ts ts') (hb : inBraces prev = true) :
    Reads renamed true R (.ok (a, ts)) (.ok (b, ts')) :=
  carriesOver_ok ⟨h, prev, fun _ => hb, hts⟩

/-! ## 2. Labels -/

/-- Outside braces a label stays a label. -/
theorem label_of_swap {l : String} {next : List Token} (h : Swap renamed prev t t' next)
    (hb : inBraces prev = false) (hl : label? t = some l) :
    ∃ l', label? t' = some l' ∧ (':' ∈ l.toList ∨ LabelLike renamed l l') := by
  cases h with
  | same => exact ⟨l, hl, Or.inr (Or.inl rfl)⟩
  | span hq _ _ => cases t <;> simp [Token.isQuantity, label?] at hq hl
  | scalar hq _ _ => cases t <;> simp [Token.isQuantity, label?] at hq hl
  | label hb' _ _ => exact absurd hb' (by simp [hb])
  | renamed hrenamed _ hname _ _ =>
    cases hname with
    | identifier name hcolon _ => exact ⟨name, rfl, Or.inr (Or.inr ⟨hrenamed, hcolon⟩)⟩
    | aggregation op text hcolon => exact ⟨text, rfl, Or.inr (Or.inr ⟨hrenamed, hcolon⟩)⟩
  | @metric _ name' _ hcolon =>
    cases hl
    exact ⟨name', rfl, Or.inl hcolon⟩

/-- Labels leave braces as they are. -/
theorem inBraces_of_label {l : String} (hl : label? t = some l) :
    inBraces (t :: prev) = inBraces prev := by
  cases t <;> first | rfl | cases hl

/-- Behind a label there is a comma or the end. -/
theorem readLabelsRest_label {l : String} (hl : label? t = some l) :
    readLabelsRest (.comma :: t :: ts) = (readLabelsRest ts).map fun (ls, ts) => (l :: ls, ts) := by
  rw [readLabelsRest.eq_def]
  cases t <;> simp_all [label?]

/-- A list of labels that begins with one. -/
theorem readLabels_label {l : String} (ts : List Token) (hl : label? t = some l) :
    readLabels (.leftParen :: t :: ts) = (readLabelsRest ts).map fun (ls, ts) => (l :: ls, ts) := by
  cases t <;> simp_all [label?, readLabels]

/-- One more label in front. -/
theorem Reads.cons_label {l l' : String} (hl : ':' ∈ l.toList ∨ LabelLike renamed l l')
    (h : Reads renamed false (LabelsRead renamed) (readLabelsRest ts) (readLabelsRest ts')) :
    Reads renamed false (LabelsRead renamed)
      ((readLabelsRest ts).map fun (ls, ts) => (l :: ls, ts))
      ((readLabelsRest ts').map fun (ls, ts) => (l' :: ls, ts)) :=
  h.map fun _ _ hlike => ⟨List.Forall₂.cons hl hlike.1, hlike.2⟩

/-- The labels behind the first one, by recursion on their tokens. -/
theorem reads_labelsRest (h : Exchange renamed prev ts ts') (hb : inBraces prev = false) :
    Reads renamed false (LabelsRead renamed) (readLabelsRest ts) (readLabelsRest ts') := by
  fun_induction readLabelsRest ts generalizing prev ts' with
  | case1 ts =>
    obtain ⟨us, rfl, htail⟩ := h.cons_kept rfl
    exact reads_ok List.Forall₂.nil htail
  | case2 ts =>
    obtain ⟨us, rfl, hcomma⟩ := h.cons_kept rfl
    obtain ⟨us, rfl, htail⟩ := hcomma.cons_kept rfl
    exact reads_ok List.Forall₂.nil htail
  | case3 t ts _ l hl ih =>
    obtain ⟨us, rfl, hcomma⟩ := h.cons_kept rfl
    obtain ⟨t', us, prev', rfl, hswap, hpassed, -, htail⟩ := hcomma.cons_inv
    obtain ⟨l', hl', hlike⟩ := label_of_swap hswap hb hl
    rw [readLabelsRest_label hl']
    exact Reads.cons_label hlike (ih htail ((hpassed.inBraces (inBraces_of_label hl)).trans hb))
  | case4 => exact carriesOver_error
  | case5 => exact carriesOver_error

/-- **Labels in parentheses**: as many on both sides, each like the other. -/
theorem reads_labels (h : Exchange renamed prev ts ts') :
    Reads renamed false (LabelsRead renamed) (readLabels ts) (readLabels ts') := by
  unfold readLabels
  split
  · obtain ⟨us, rfl, hparen⟩ := h.cons_kept rfl
    obtain ⟨us, rfl, htail⟩ := hparen.cons_kept rfl
    exact reads_ok List.Forall₂.nil htail
  · next t ts _ =>
    obtain ⟨us, rfl, hparen⟩ := h.cons_kept rfl
    obtain ⟨t', us, prev', rfl, hswap, hpassed, -, htail⟩ := hparen.cons_inv
    cases hl : label? t with
    | none => exact carriesOver_error
    | some l =>
      obtain ⟨l', hl', hlike⟩ := label_of_swap hswap rfl hl
      have hnew := readLabels_label us hl'
      unfold readLabels at hnew
      rw [hnew]
      exact Reads.cons_label hlike
        (reads_labelsRest htail (hpassed.inBraces (inBraces_of_label hl)))
  · exact carriesOver_error

/-- The labels of a group: the parenthesis is on both sides or on none. -/
theorem reads_groupLabels (h : Exchange renamed prev ts ts') :
    Reads renamed false (LabelsRead renamed) (readGroupLabels ts) (readGroupLabels ts') := by
  unfold readGroupLabels
  split
  · obtain ⟨us, rfl, htail⟩ := h.cons_kept rfl
    exact reads_labels h
  · next hts =>
    split
    · obtain ⟨us, rfl⟩ := h.eq_cons_of_isFixed rfl
      exact absurd rfl (hts us)
    · exact reads_ok (labelsRead_refl []) h

/-! ## 3. Modifiers of binary operators -/

/-- What is matched on, and then a group if one follows on either side. -/
theorem reads_matching (bool on : Bool) (h : Exchange renamed prev ts ts') :
    Reads renamed false (ModifierPhrase.Like renamed) (readMatching bool on ts)
      (readMatching bool on ts') := by
  unfold readMatching
  refine (reads_labels h).bind ?_
  rintro ⟨ls, r⟩ ⟨ls', r'⟩ ⟨hls, prev, -, hr⟩
  dsimp only at hls hr ⊢
  split
  · obtain ⟨us, rfl, htail⟩ := hr.cons_kept rfl
    refine (reads_groupLabels htail).bind ?_
    rintro ⟨gs, r⟩ ⟨gs', r'⟩ ⟨hgs, prev, -, hr⟩
    exact reads_ok (ModifierPhrase.Like.group bool on _ hls hgs) hr
  · next hnone =>
    split
    · obtain ⟨us, rfl⟩ := hr.eq_cons_of_isFixed rfl
      exact absurd rfl (hnone _ _ us)
    · exact reads_ok (ModifierPhrase.Like.matching bool on hls) hr

/-- **The modifier of a binary operator**, told by fixed tokens. -/
theorem reads_modifier (h : Exchange renamed prev ts ts') :
    Reads renamed false (ModifierPhrase.Like renamed) (readModifier ts)
      (readModifier ts') := by
  unfold readModifier
  split
  · obtain ⟨us, rfl, hbool⟩ := h.cons_kept rfl
    obtain ⟨us, rfl, htail⟩ := hbool.cons_kept rfl
    exact reads_matching true _ htail
  · next hnone =>
    obtain ⟨us, rfl, htail⟩ := h.cons_kept rfl
    split
    · next heq =>
      obtain ⟨-, rfl⟩ := List.cons.inj heq
      obtain ⟨us, rfl⟩ := htail.eq_cons_of_isFixed rfl
      exact absurd rfl (hnone _ _ us)
    · next heq =>
      obtain ⟨-, rfl⟩ := List.cons.inj heq
      exact reads_ok (ModifierPhrase.Like.plain true) htail
    · next heq => simp at heq
    · next heq => simp at heq
    · next hbool _ _ => exact absurd rfl (hbool _ _)
  · obtain ⟨us, rfl, htail⟩ := h.cons_kept rfl
    exact reads_matching false _ htail
  · next left _ _ =>
    obtain ⟨us, rfl, htail⟩ := h.cons_kept rfl
    exact (reads_labels htail).map fun _ _ hlike =>
      ⟨ModifierPhrase.Like.strayGroup left, hlike.2⟩
  · next hbool hmatching hgroup =>
    split
    · obtain ⟨us, rfl⟩ := h.eq_cons_of_isFixed rfl
      exact absurd rfl (hbool _ us)
    · obtain ⟨us, rfl⟩ := h.eq_cons_of_isFixed rfl
      exact absurd rfl (hbool _ us)
    · obtain ⟨us, rfl⟩ := h.eq_cons_of_isFixed rfl
      exact absurd rfl (hmatching _ _ us)
    · obtain ⟨us, rfl⟩ := h.eq_cons_of_isFixed rfl
      exact absurd rfl (hgroup _ _ us)
    · exact reads_ok (ModifierPhrase.Like.plain false) h

/-! ## 4. Matchers -/

/-- No match operator is exchanged. -/
theorem matchOperator_of_swap {next : List Token} (h : Swap renamed prev t t' next) :
    matchOperator? t' = matchOperator? t := by
  refine h.congr matchOperator? none fun u hu => ?_
  cases u <;> first | rfl | exact absurd hu (by simp [Token.isFixed])

/-- Where a match operator stands, braces stay as they are. -/
theorem inBraces_of_matchOperator {op : MatchOperator} (h : matchOperator? t = some op) :
    inBraces (t :: prev) = inBraces prev := by
  cases t <;> first | rfl | exact absurd h (by simp [matchOperator?])

/-- A value after a second operator is passed over on both sides. -/
theorem exchange_dropValue (h : Exchange renamed prev ts ts') (hb : inBraces prev = true) :
    ∃ prev', Exchange renamed prev' (dropValue ts) (dropValue ts') ∧ inBraces prev' = true := by
  unfold dropValue
  split
  · obtain ⟨us, rfl, htail⟩ := h.cons_kept rfl
    exact ⟨_, htail, hb⟩
  · obtain ⟨t', us, prev', rfl, hswap, hpassed, -, htail⟩ := h.cons_inv
    obtain ⟨name', rfl, -⟩ := hswap.identifier_inside hb
    exact ⟨_, htail, (hpassed.inBraces rfl).trans hb⟩
  · next hstring hidentifier =>
    split
    · obtain ⟨us, rfl⟩ := h.eq_cons_of_isFixed rfl
      exact absurd rfl (hstring _ us)
    · cases h with
      | cons hswap _ _ _ =>
        obtain ⟨name', rfl⟩ := hswap.identifier_inside_inv hb
        exact absurd rfl (hidentifier _ _)
    · exact ⟨prev, h, hb⟩

/-- The value of a matcher is kept; a name in its place is refused on both sides. -/
theorem reads_matcherValue {name name' : String} (op : MatchOperator)
    (hname : name' = name ∨ name' ≠ "__name__")
    (h : Exchange renamed prev ts ts') (hb : inBraces prev = true) :
    Reads renamed true (MatcherPhrase.Like) (readMatcherValue name op ts)
      (readMatcherValue name' op ts') := by
  unfold readMatcherValue
  split
  · next value _ =>
    obtain ⟨us, rfl, htail⟩ := h.cons_kept rfl
    refine reads_ok_inside ?_ htail hb
    rcases hname with rfl | hne
    · exact MatcherPhrase.Like.same _
    · exact MatcherPhrase.Like.label op value hne
  · obtain ⟨t', us, prev', rfl, hswap, hpassed, -, htail⟩ := h.cons_inv
    obtain ⟨value', rfl, -⟩ := hswap.identifier_inside hb
    exact reads_ok_inside (MatcherPhrase.Like.faulty (by simp)) htail
      ((hpassed.inBraces rfl).trans hb)
  · next t ts hstring hidentifier =>
    obtain ⟨t', us, prev', rfl, hswap, hpassed, -, htail⟩ := h.cons_inv
    cases hop : matchOperator? t with
    | none => exact carriesOver_error
    | some second =>
      have hop' := (matchOperator_of_swap hswap).trans hop
      obtain ⟨prev', hdrop, hb'⟩ :=
        exchange_dropValue htail ((hpassed.inBraces (inBraces_of_matchOperator hop)).trans hb)
      have hnew : readMatcherValue name' op (t' :: us) =
          .ok (.twoOperators second, dropValue us) := by
        cases t' <;> simp_all [matchOperator?, readMatcherValue]
      unfold readMatcherValue at hnew
      rw [hnew]
      exact reads_ok_inside (MatcherPhrase.Like.faulty (by simp)) hdrop hb'
  · exact carriesOver_error

/-- **A matcher**: its label may be another one, its operator and value are kept. -/
theorem reads_matcher (h : Exchange renamed prev ts ts') (hb : inBraces prev = true) :
    Reads renamed true (MatcherPhrase.Like) (readMatcher ts) (readMatcher ts') := by
  unfold readMatcher
  split
  · next name t ts =>
    obtain ⟨t₁, us, prev', rfl, hswap₁, hpassed₁, -, hafter⟩ := h.cons_inv
    obtain ⟨name', rfl, hname⟩ := hswap₁.identifier_inside hb
    have hb' : inBraces prev' = true := (hpassed₁.inBraces rfl).trans hb
    obtain ⟨t', us, prev', rfl, hswap, hpassed, -, htail⟩ := hafter.cons_inv
    dsimp only
    rw [matchOperator_of_swap hswap]
    cases hop : matchOperator? t with
    | none => exact reads_ok_inside (MatcherPhrase.Like.faulty (by simp)) hafter hb'
    | some op =>
      exact reads_matcherValue op hname htail
        ((hpassed.inBraces (inBraces_of_matchOperator hop)).trans hb')
  · exact carriesOver_error

/-- Behind a comma another matcher is read, unless the braces end there. -/
theorem readMatchersRest_comma {fuel : Nat} (h : ∀ us, ts ≠ .rightBrace :: us) :
    readMatchersRest (fuel + 1) (.comma :: ts) =
      readMatcher ts >>= fun (m, ts) => readMatchersRest fuel ts >>= fun (ms, ts) =>
        .ok ((false, m) :: ms, ts) := by
  rw [readMatchersRest]
  intro us hus
  exact h us hus

/-- The matchers behind the first one, by induction on the fuel. -/
theorem reads_matchersRest (h : Exchange renamed prev ts ts') (hb : inBraces prev = true)
    (fuel : Nat) :
    Reads renamed false
      (List.Forall₂ fun p p' => p'.1 = p.1 ∧ MatcherPhrase.Like p.2 p'.2)
      (readMatchersRest fuel ts) (readMatchersRest fuel ts') := by
  induction fuel generalizing prev ts ts' with
  | zero => exact carriesOver_error
  | succ fuel ih =>
    -- one more matcher, `apart` telling whether `or` stood before it
    have hnext : ∀ {prev ts ts'} (apart : Bool), Exchange renamed prev ts ts' →
        inBraces prev = true → Reads renamed false
          (List.Forall₂ fun p p' => p'.1 = p.1 ∧ MatcherPhrase.Like p.2 p'.2)
          (readMatcher ts >>= fun (m, ts) => readMatchersRest fuel ts >>= fun (ms, ts) =>
            .ok ((apart, m) :: ms, ts))
          (readMatcher ts' >>= fun (m, ts) => readMatchersRest fuel ts >>= fun (ms, ts) =>
            .ok ((apart, m) :: ms, ts)) := by
      intro prev ts ts' apart h hb
      refine (reads_matcher h hb).bind ?_
      rintro ⟨m, r⟩ ⟨m', r'⟩ ⟨hm, prev, hb, hr⟩
      refine (ih hr (hb rfl)).bind ?_
      rintro ⟨ms, r⟩ ⟨ms', r'⟩ ⟨hms, prev, -, hr⟩
      exact reads_ok (List.Forall₂.cons ⟨rfl, hm⟩ hms) hr
    rw [readMatchersRest.eq_def (fuel + 1) ts]
    split
    · next heq => exact absurd heq (by simp)
    · obtain ⟨us, rfl, htail⟩ := h.cons_kept rfl
      exact reads_ok List.Forall₂.nil htail
    · obtain ⟨us, rfl, hcomma⟩ := h.cons_kept rfl
      obtain ⟨us, rfl, htail⟩ := hcomma.cons_kept rfl
      exact reads_ok List.Forall₂.nil htail
    · next hnone heq =>
      cases heq
      obtain ⟨us, rfl, htail⟩ := h.cons_kept rfl
      rw [readMatchersRest_comma fun vs hvs => ?_]
      · exact hnext false htail hb
      · rw [hvs] at htail
        obtain ⟨ws, rfl⟩ := htail.eq_cons_of_isFixed rfl
        exact hnone ws rfl
    · next heq =>
      cases heq
      obtain ⟨us, rfl, htail⟩ := h.cons_kept rfl
      exact hnext true htail hb
    · exact carriesOver_error

/-- Braces that are not empty have a first matcher. -/
theorem readMatchers_list (h₁ : ∀ us, ts ≠ .rightBrace :: us)
    (h₂ : ∀ us, ts ≠ .comma :: .rightBrace :: us) :
    readMatchers ts =
      readMatcher ts >>= fun (m, ts) => readMatchersRest ts.length ts >>= fun (ms, ts) =>
        .ok (.list m ms, ts) := by
  rw [readMatchers]
  · exact h₁
  · exact h₂

theorem reads_matchers (h : Exchange renamed prev ts ts') (hb : inBraces prev = true) :
    Reads renamed false (MatchersPhrase.Like) (readMatchers ts)
      (readMatchers ts') := by
  rw [readMatchers.eq_def ts]
  split
  · obtain ⟨us, rfl, htail⟩ := h.cons_kept rfl
    exact reads_ok MatchersPhrase.Like.empty htail
  · obtain ⟨us, rfl, hcomma⟩ := h.cons_kept rfl
    obtain ⟨us, rfl, htail⟩ := hcomma.cons_kept rfl
    exact reads_ok MatchersPhrase.Like.comma htail
  · next hbrace hcomma =>
    rw [readMatchers_list]
    · refine (reads_matcher h hb).bind ?_
      rintro ⟨m, r⟩ ⟨m', r'⟩ ⟨hm, prev, hb, hr⟩
      dsimp only at hm hr ⊢
      rw [hr.length]
      refine (reads_matchersRest hr (hb rfl) r.length).bind ?_
      rintro ⟨ms, r⟩ ⟨ms', r'⟩ ⟨hms, prev, -, hr⟩
      exact reads_ok (MatchersPhrase.Like.list hm hms) hr
    · rintro us rfl
      obtain ⟨vs, rfl⟩ := h.eq_cons_of_isFixed rfl
      exact hbrace vs rfl
    · rintro us rfl
      obtain ⟨vs, rfl⟩ := h.eq_cons_of_isFixed rfl
      obtain ⟨us', heq, htail⟩ := h.cons_kept rfl
      obtain rfl := (List.cons.inj heq).2
      obtain ⟨ws, rfl⟩ := htail.eq_cons_of_isFixed rfl
      exact hcomma ws rfl

variable {literal : Bool} {e e' : Phrase}

/-- A selector with another name is as good as the first one. -/
theorem reads_selector {name name' : Option String} (hname : name'.isSome = name.isSome)
    (h : Exchange renamed prev ts ts') :
    Reads renamed false (StandsIn False literal) (readSelector name ts)
      (readSelector name' ts') := by
  rw [readSelector.eq_def name ts]
  split
  · obtain ⟨us, rfl, htail⟩ := h.cons_kept rfl
    exact (reads_matchers htail rfl).map fun _ _ hlike => ⟨standsIn_matchers hname hlike.1, hlike.2⟩
  · next hbrace =>
    rw [readSelector]
    · exact reads_ok (standsIn_selector hname) h
    · rintro us rfl
      obtain ⟨vs, rfl⟩ := h.eq_cons_of_isFixed rfl
      exact hbrace vs rfl

/-! ## 5. Lengths of time -/

/-- What may follow a length of time is told by a fixed token. -/
theorem followsSpan_eq (h : Exchange renamed prev ts ts') : followsSpan ts' = followsSpan ts := by
  refine h.head_congr followsSpan false (fun u us hu => ?_) fun u us vs => ?_
  · cases u <;> first | rfl | exact absurd hu (by simp [Token.isFixed])
  · cases u <;> rfl

/-- Likewise what may follow an expression. -/
theorem followsExpr_eq (h : Exchange renamed prev ts ts') : followsExpr ts' = followsExpr ts := by
  refine h.head_congr followsExpr false (fun u us hu => ?_) fun u us vs => ?_
  · cases u with
    | keyword word _ => cases word <;> first | rfl | exact absurd hu (by simp [Token.isFixed])
    | _ => first | rfl | exact absurd hu (by simp [Token.isFixed])
  · cases u with
    | keyword word _ => cases word <;> rfl
    | _ => rfl

/-- **A length of time** may become another one; it is read where the next token may follow one, which
is the same on both sides. -/
theorem reads_span {follows : List Token → Bool} (hfollows : ∀ {prev ts ts'},
      Exchange renamed prev ts ts' → follows ts' = follows ts)
    (h : Exchange renamed prev ts ts') (hs : inSpan prev = true) :
    Reads renamed false Span.Like (readSpan follows ts) (readSpan follows ts') := by
  unfold readSpan
  split
  · obtain ⟨t', us, prev', rfl, hswap, -, -, htail⟩ := h.cons_inv
    rcases hswap.sound_of_isQuantity rfl with rfl | ⟨text, rfl, hsound⟩ | ⟨-, hs'⟩
    · exact reads_ok (Or.inl rfl) htail
    · exact reads_ok (Or.inr hsound) htail
    · exact absurd hs (by simp [hs'])
  · obtain ⟨t', us, prev', rfl, hswap, -, -, htail⟩ := h.cons_inv
    split
    · exact carriesOver_error
    · next hok =>
      split
      · exact carriesOver_error
      · next hfits =>
        rcases hswap.sound_of_isQuantity rfl with rfl | ⟨text, rfl, hsound⟩ | ⟨-, hs'⟩
        · dsimp only
          rw [hfollows htail, if_neg hok, if_neg hfits]
          exact reads_ok (Or.inl rfl) htail
        · exact reads_ok (Or.inr hsound) htail
        · exact absurd hs (by simp [hs'])
  · exact carriesOver_error

/-- The number of an `@` may become another one. -/
theorem reads_instant (negative : Bool) (h : Exchange renamed prev ts ts') :
    Reads renamed false TimePhrase.Like (readInstant negative ts) (readInstant negative ts') := by
  unfold readInstant
  split
  · obtain ⟨t', us, prev', rfl, hswap, -, -, htail⟩ := h.cons_inv
    rcases hswap.sound_of_isQuantity rfl with rfl | ⟨text, rfl, hsound⟩ | ⟨rfl, -⟩
    · exact reads_ok (TimePhrase.Like.same _) htail
    · exact reads_ok (TimePhrase.Like.sound negative hsound) htail
    · exact reads_ok (TimePhrase.Like.sound negative isSound_one) htail
  · obtain ⟨t', us, prev', rfl, hswap, -, -, htail⟩ := h.cons_inv
    rcases hswap.sound_of_isQuantity rfl with rfl | ⟨text, rfl, hsound⟩ | ⟨rfl, -⟩
    · exact reads_ok (TimePhrase.Like.same _) htail
    · exact reads_ok (TimePhrase.Like.sound negative hsound) htail
    · exact reads_ok (TimePhrase.Like.sound negative isSound_one) htail
  · exact carriesOver_error

end PanelLint.Promql.Phrase
