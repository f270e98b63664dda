import PanelLint.Proofs.Promql.Expressions
/-!
# Readers take a front of the tokens

What a reader of the grammar reads is a front of its tokens, and of the tokens behind it the reader
sees the first one at most.  So it reads the same from any row with this front that goes on alike.

The readers that call each other are not here: what they do is said step by step with the frames of
what they have begun.
-/

namespace PanelLint.Promql

variable {α β : Type} {r r' ts : List Token}

/-- Rows that begin with the same token. -/
def SameHead (r r' : List Token) : Prop := r'.head? = r.head?

/-- Rows that begin with the same token, or of which the second one begins with a name or a quantity. -/
def SameHeadOrFree (r r' : List Token) : Prop :=
  SameHead r r' ∨ ∃ u us, r' = u :: us ∧ u.isFixed = false

/-- What is put in front makes rows begin alike. -/
theorem SameHead.append (h : SameHead r r') (w : List Token) : SameHead (w ++ r) (w ++ r') := by
  cases w with
  | nil => exact h
  | cons t w => rfl

namespace Phrase

/-- **A reader takes a front.**  It takes the same front of any row that goes on as `alike` asks. -/
def TakesFront (alike : List Token → List Token → Prop)
    (x : List Token → Except Stop (α × List Token)) : Prop :=
  ∀ ts v r, x ts = .ok (v, r) → ∃ w, ts = w ++ r ∧ ∀ r', alike r r' → x (w ++ r') = .ok (v, r')

/-- The reader sees nothing of what is behind the front. -/
abbrev TakesFrontAlone (x : List Token → Except Stop (α × List Token)) : Prop :=
  TakesFront (fun _ _ => True) x

section Except

variable {ε : Type} {x : Except ε α}

/-- What was made of a result was made of one. -/
theorem exists_of_map_eq_ok {f : α → β} {b : β} (h : x.map f = .ok b) :
    ∃ a, x = .ok a ∧ f a = b := by
  cases x with
  | error e => cases h
  | ok a => exact ⟨a, rfl, Except.ok.inj h⟩

/-- Where two readers in a row read something, the first one did, and the second one from its rest. -/
theorem exists_of_bind_eq_ok {f : α → Except ε β} {b : β} (h : x >>= f = .ok b) :
    ∃ a, x = .ok a ∧ f a = .ok b := by
  cases x with
  | error e => cases h
  | ok a => exact ⟨a, rfl, h⟩

/-- Behind what was read goes on what comes next. -/
theorem bind_of_eq_ok {a : α} {f : α → Except ε β} (h : x = .ok a) : x >>= f = f a := by
  rw [h]
  rfl

end Except

/-- A reader that sees nothing behind its front does not ask how the row goes on. -/
theorem TakesFrontAlone.of_alike {x : List Token → Except Stop (α × List Token)}
    (h : TakesFrontAlone x) (alike : List Token → List Token → Prop) : TakesFront alike x :=
  fun ts v r hread => (h ts v r hread).imp fun _ hw => ⟨hw.1, fun r' _ => hw.2 r' trivial⟩

/-- **Behind some tokens that it reads itself** a reader takes a front with the reader it goes on with. -/
theorem TakesFront.behind {alike : List Token → List Token → Prop} {l us : List Token} {v : β}
    {x : List Token → Except Stop (α × List Token)} {y : List Token → Except Stop (β × List Token)}
    {f : α → β} (hx : TakesFront alike x) (hy : ∀ us, y (l ++ us) = (x us).map fun p => (f p.1, p.2))
    (h : y (l ++ us) = .ok (v, r)) :
    ∃ w, l ++ us = w ++ r ∧ ∀ r', alike r r' → y (w ++ r') = .ok (v, r') := by
  rw [hy] at h
  obtain ⟨⟨a, r₁⟩, hread, heq⟩ := exists_of_map_eq_ok h
  cases heq
  obtain ⟨w, rfl, hw⟩ := hx _ _ _ hread
  refine ⟨l ++ w, (List.append_assoc l w _).symm, fun r' hr' => ?_⟩
  rw [List.append_assoc, hy, hw r' hr']
  rfl

/-! ## 1. Labels and modifiers of operators -/

/-- The labels behind the first one end with their parenthesis, so nothing behind it is seen. -/
theorem takesFront_labelsRest : TakesFrontAlone readLabelsRest := by
  intro ts v r h
  fun_induction readLabelsRest ts generalizing v r with
  | case1 ts =>
    cases h
    exact ⟨[.rightParen], rfl, fun _ _ => rfl⟩
  | case2 ts =>
    cases h
    exact ⟨[.comma, .rightParen], rfl, fun _ _ => rfl⟩
  | case3 t ts _ l hl ih =>
    obtain ⟨⟨ls, r⟩, hls, heq⟩ := exists_of_map_eq_ok h
    cases heq
    obtain ⟨w, rfl, hw⟩ := ih _ _ hls
    refine ⟨.comma :: t :: w, rfl, fun r' hr' => ?_⟩
    rw [List.cons_append, List.cons_append, readLabelsRest_label hl, hw r' hr']
    rfl
  | case4 => cases h
  | case5 => cases h

/-- **Labels in parentheses**, likewise. -/
theorem takesFront_labels : TakesFrontAlone readLabels := by
  intro ts v r h
  unfold readLabels at h
  split at h
  · cases h
    exact ⟨[.leftParen, .rightParen], rfl, fun _ _ => rfl⟩
  · next t ts _ =>
    cases hl : label? t with
    | none => rw [hl] at h; cases h
    | some l =>
      rw [hl] at h
      obtain ⟨⟨ls, r⟩, hls, heq⟩ := exists_of_map_eq_ok h
      cases heq
      obtain ⟨w, rfl, hw⟩ := takesFront_labelsRest _ _ _ hls
      refine ⟨.leftParen :: t :: w, rfl, fun r' hr' => ?_⟩
      rw [List.cons_append, List.cons_append, readLabels_label _ hl, hw r' hr']
      rfl
  · cases h

/-- A row that goes on alike begins with no fixed token that the other one does not begin with. -/
theorem ne_cons_of_sameHeadOrFree {t : Token} (h : SameHeadOrFree r r') (ht : t.isFixed = true)
    (hr : ∀ us, r ≠ t :: us) (us : List Token) : r' ≠ t :: us := by
  rintro rfl
  rcases h with hhead | ⟨u, vs, heq, hu⟩
  · cases r with
    | nil => cases hhead
    | cons v r =>
      cases hhead
      exact hr r rfl
  · obtain ⟨rfl, -⟩ := List.cons.inj heq
    exact absurd ht (by simp [hu])

/-- Nor with any token, where the heads are the same. -/
theorem ne_cons_of_sameHead {t : Token} (h : SameHead r r') (hr : ∀ us, r ≠ t :: us)
    (us : List Token) : r' ≠ t :: us := by
  rintro rfl
  cases r with
  | nil => cases h
  | cons v r =>
    cases h
    exact hr r rfl

/-- The labels of a group may be left out, so a parenthesis behind them is seen. -/
theorem takesFront_groupLabels : TakesFront SameHeadOrFree readGroupLabels := by
  intro ts v r h
  unfold readGroupLabels at h
  split at h
  · obtain ⟨w, heq, hw⟩ := takesFront_labels _ _ _ h
    refine ⟨w, heq, fun r' _ => ?_⟩
    -- the labels begin with a parenthesis, so the front is not empty
    cases w with
    | nil =>
      have := hw [] trivial
      simp [readLabels] at this
    | cons t w =>
      obtain ⟨rfl, -⟩ := List.cons.inj heq
      exact hw r' trivial
  · next hts =>
    cases h
    refine ⟨[], rfl, fun r' hr' => ?_⟩
    rw [List.nil_append, readGroupLabels]
    exact fun us => ne_cons_of_sameHeadOrFree hr' rfl hts us

/-- What is matched on, and then perhaps a group: only `group_left` and `group_right` behind it are
seen. -/
theorem takesFront_matching (bool on : Bool) : TakesFront SameHeadOrFree (readMatching bool on) := by
  intro ts v r h
  obtain ⟨⟨ls, r₁⟩, hls, hgroup⟩ := exists_of_bind_eq_ok h
  clear h
  obtain ⟨w, rfl, hw⟩ := takesFront_labels _ _ _ hls
  dsimp only at hgroup
  split at hgroup
  · next left text us =>
    obtain ⟨⟨gs, r₂⟩, hgs, heq⟩ := exists_of_bind_eq_ok hgroup
    cases heq
    obtain ⟨w', rfl, hw'⟩ := takesFront_groupLabels _ _ _ hgs
    refine ⟨w ++ .keyword (.groupSide left) text :: w', by simp, fun r' hr' => ?_⟩
    unfold readMatching
    rw [List.append_assoc, hw _ trivial]
    exact bind_of_eq_ok (hw' r' hr')
  · next hnone =>
    cases hgroup
    refine ⟨w, rfl, fun r' hr' => ?_⟩
    unfold readMatching
    rw [hw _ trivial]
    dsimp only [Bind.bind, Except.bind]
    split
    · exact absurd rfl (ne_cons_of_sameHeadOrFree hr' rfl (hnone _ _) _)
    · rfl

/-- **The modifier of an operator** ends before an operand; whatever could go on with it is a fixed
token. -/
theorem takesFront_modifier : TakesFront SameHeadOrFree readModifier := by
  intro ts v r h
  unfold readModifier at h
  split at h
  · obtain ⟨w, rfl, hw⟩ := takesFront_matching _ _ _ _ _ h
    exact ⟨_ :: _ :: w, rfl, fun r' hr' => hw r' hr'⟩
  · next hnone =>
    cases h
    refine ⟨[_], rfl, fun r' hr' => ?_⟩
    rw [List.cons_append, List.nil_append, readModifier]
    exact fun on text us => ne_cons_of_sameHeadOrFree hr' rfl (hnone on text) us
  · obtain ⟨w, rfl, hw⟩ := takesFront_matching _ _ _ _ _ h
    exact ⟨_ :: w, rfl, fun r' hr' => hw r' hr'⟩
  · next left text us =>
    exact (takesFront_labels.of_alike _).behind (l := [.keyword (.groupSide left) text])
      (y := readModifier) (f := fun _ => .strayGroup left) (fun _ => rfl) h
  · next hbool hmatching hgroup =>
    cases h
    refine ⟨[], rfl, fun r' hr' => ?_⟩
    rw [List.nil_append, readModifier]
    · exact fun _ _ _ us => ne_cons_of_sameHeadOrFree hr' rfl (hbool _) _
    · exact fun _ us => ne_cons_of_sameHeadOrFree hr' rfl (hbool _) us
    · exact fun _ _ us => ne_cons_of_sameHeadOrFree hr' rfl (hmatching _ _) us
    · exact fun _ _ us => ne_cons_of_sameHeadOrFree hr' rfl (hgroup _ _) us

/-! ## 2. Matchers -/

/-- The value of a matcher; a second operator takes the token behind it as well. -/
theorem takesFront_matcherValue (name : String) (op : MatchOperator) :
    TakesFront SameHead (readMatcherValue name op) := by
  intro ts v r h
  unfold readMatcherValue at h
  split at h
  · cases h
    exact ⟨[_], rfl, fun _ _ => rfl⟩
  · cases h
    exact ⟨[_], rfl, fun _ _ => rfl⟩
  · next t ts hstring hidentifier =>
    cases hop : matchOperator? t with
    | none => rw [hop] at h; cases h
    | some second =>
      rw [hop] at h
      cases h
      have hread : ∀ us, readMatcherValue name op (t :: us) =
          .ok (.twoOperators second, dropValue us) := by
        intro us
        cases t <;> simp_all [matchOperator?, readMatcherValue]
      -- a value after the second operator belongs to the front
      unfold dropValue
      split
      · next text us =>
        exact ⟨[t, .string text], rfl, fun r' _ => hread _⟩
      · next text us =>
        exact ⟨[t, .identifier text], rfl, fun r' _ => hread _⟩
      · next hs hi =>
        refine ⟨[t], rfl, fun r' hr' => (hread r').trans ?_⟩
        rw [dropValue]
        · exact fun _ us => ne_cons_of_sameHead hr' (hs _) us
        · exact fun _ us => ne_cons_of_sameHead hr' (hi _) us
  · cases h

/-- A matcher, or a name alone where no operator follows. -/
theorem takesFront_matcher : TakesFront SameHead readMatcher := by
  intro ts v r h
  unfold readMatcher at h
  split at h
  · next name t ts =>
    cases hop : matchOperator? t with
    | none =>
      rw [hop] at h
      cases h
      refine ⟨[.identifier name], rfl, fun r' hr' => ?_⟩
      cases r' with
      | nil => cases hr'
      | cons t' r' =>
        cases hr'
        simp [readMatcher, hop]
    | some op =>
      rw [hop] at h
      obtain ⟨w, rfl, hw⟩ := takesFront_matcherValue name op _ _ _ h
      refine ⟨.identifier name :: t :: w, rfl, fun r' hr' => ?_⟩
      simpa [readMatcher, hop] using hw r' hr'
  · cases h

/-- The matchers end with a brace, and fuel for their tokens is enough. -/
theorem takesFront_matchersRest {fuel : Nat} {v : List (Bool × MatcherPhrase)}
    (h : readMatchersRest fuel ts = .ok (v, r)) :
    ∃ w, ts = w ++ r ∧ w ≠ [] ∧
      ∀ r' fuel', w.length ≤ fuel' → readMatchersRest fuel' (w ++ r') = .ok (v, r') := by
  induction fuel generalizing ts v with
  | zero => cases h
  | succ fuel ih =>
    -- one more matcher behind a token that tells whether it stands `apart`
    have hnext : ∀ {ts v} (apart : Bool), (readMatcher ts >>= fun p =>
          readMatchersRest fuel p.2 >>= fun q => .ok ((apart, p.1) :: q.1, q.2)) = .ok (v, r) →
        ∃ w, ts = w ++ r ∧ (∀ us, w ++ r ≠ .rightBrace :: us) ∧ w ≠ [] ∧
          ∀ r' fuel', w.length ≤ fuel' →
            (readMatcher (w ++ r') >>= fun p => readMatchersRest fuel' p.2 >>= fun q =>
              (.ok ((apart, p.1) :: q.1, q.2) : Except Stop _)) = .ok (v, r') := by
      intro ts v apart h
      obtain ⟨⟨m, r₁⟩, hm, h⟩ := exists_of_bind_eq_ok h
      obtain ⟨⟨ms, r₂⟩, hms, h⟩ := exists_of_bind_eq_ok h
      cases h
      obtain ⟨w₁, rfl, hw₁⟩ := takesFront_matcher _ _ _ hm
      obtain ⟨w₂, rfl, hne, hw₂⟩ := ih hms
      refine ⟨w₁ ++ w₂, by simp, ?_, by simp [hne], fun r' fuel' hfuel => ?_⟩
      · intro us heq
        rw [List.append_assoc] at heq
        rw [heq] at hm
        cases hm
      · rw [List.length_append] at hfuel
        have hhead : SameHead (w₂ ++ r₂) (w₂ ++ r') := by
          obtain ⟨t, w₂, rfl⟩ := List.exists_cons_of_ne_nil hne
          rfl
        rw [List.append_assoc, hw₁ _ hhead]
        exact bind_of_eq_ok (hw₂ r' fuel' (by omega))
    rw [readMatchersRest.eq_def] at h
    split at h
    · next heq => exact absurd heq (by simp)
    · cases h
      refine ⟨[.rightBrace], rfl, by simp, fun r' fuel' hfuel => ?_⟩
      obtain ⟨fuel', rfl⟩ := Nat.exists_eq_succ_of_ne_zero (n := fuel') (by simp at hfuel; omega)
      rfl
    · cases h
      refine ⟨[.comma, .rightBrace], rfl, by simp, fun r' fuel' hfuel => ?_⟩
      obtain ⟨fuel', rfl⟩ := Nat.exists_eq_succ_of_ne_zero (n := fuel') (by simp at hfuel; omega)
      rfl
    · next hnone heq =>
      cases heq
      obtain ⟨w, rfl, hbrace, hne, hw⟩ := hnext false h
      refine ⟨.comma :: w, rfl, by simp, fun r' fuel' hfuel => ?_⟩
      obtain ⟨fuel', rfl⟩ := Nat.exists_eq_succ_of_ne_zero (n := fuel') (by simp at hfuel; omega)
      rw [List.cons_append, readMatchersRest_comma, hw r' fuel' (by simpa using hfuel)]
      intro us hus
      obtain ⟨t, w, rfl⟩ := List.exists_cons_of_ne_nil hne
      obtain ⟨rfl, -⟩ := List.cons.inj hus
      exact hbrace _ rfl
    · next heq =>
      cases heq
      obtain ⟨w, rfl, -, hne, hw⟩ := hnext true h
      refine ⟨_ :: w, rfl, by simp, fun r' fuel' hfuel => ?_⟩
      obtain ⟨fuel', rfl⟩ := Nat.exists_eq_succ_of_ne_zero (n := fuel') (by simp at hfuel; omega)
      exact hw r' fuel' (by simpa using hfuel)
    · cases h

/-- **The matchers of a selection** end with their brace. -/
theorem takesFront_matchers : TakesFrontAlone readMatchers := by
  intro ts v r h
  rw [readMatchers.eq_def] at h
  split at h
  · cases h
    exact ⟨[.rightBrace], rfl, fun _ _ => rfl⟩
  · cases h
    exact ⟨[.comma, .rightBrace], rfl, fun _ _ => rfl⟩
  · next hbrace hcomma =>
    obtain ⟨⟨m, r₁⟩, hm, h⟩ := exists_of_bind_eq_ok h
    obtain ⟨⟨ms, r₂⟩, hms, h⟩ := exists_of_bind_eq_ok h
    cases h
    obtain ⟨w₁, rfl, hw₁⟩ := takesFront_matcher _ _ _ hm
    obtain ⟨w₂, rfl, hne, hw₂⟩ := takesFront_matchersRest hms
    refine ⟨w₁ ++ w₂, by simp, fun r' _ => ?_⟩
    obtain ⟨t, w₂, rfl⟩ := List.exists_cons_of_ne_nil hne
    have hmatcher := hw₁ (t :: w₂ ++ r') rfl
    rw [List.append_assoc, readMatchers_list, hmatcher]
    · exact bind_of_eq_ok (hw₂ r' _ (by simp))
    · intro us heq
      rw [heq] at hmatcher
      cases hmatcher
    · intro us heq
      rw [heq] at hmatcher
      cases hmatcher

/-- A selector may have matchers, so a brace behind its name is seen. -/
theorem takesFront_selector (name : Option String) : TakesFront SameHead (readSelector name) := by
  intro ts v r h
  unfold readSelector at h
  split at h
  · exact (takesFront_matchers.of_alike _).behind (l := [.leftBrace]) (y := readSelector name)
      (f := fun ms => .vector name (some ms)) (fun _ => rfl) h
  · next hbrace =>
    cases h
    refine ⟨[], rfl, fun r' hr' => ?_⟩
    rw [List.nil_append, readSelector]
    exact fun us => ne_cons_of_sameHead hr' hbrace us

/-! ## 3. Lengths of time and modifiers of operands -/

/-- A length of time is read where the token behind it may follow one. -/
theorem takesFront_span {follows : List Token → Bool}
    (hfollows : ∀ r r', SameHead r r' → follows r' = follows r) :
    TakesFront SameHead (readSpan follows) := by
  intro ts v r h
  unfold readSpan at h
  split at h
  · cases h
    exact ⟨[_], rfl, fun _ _ => rfl⟩
  · next text us =>
    split at h
    · cases h
    · next hok =>
      split at h
      · cases h
      · next hfits =>
        cases h
        refine ⟨[.number text], rfl, fun r' hr' => ?_⟩
        show readSpan follows (.number text :: r') = _
        simp only [readSpan, hfollows _ _ hr', if_neg hok, if_neg hfits]
  · cases h

/-- What may follow a length of time in brackets is told by its first token. -/
theorem followsSpan_congr (r r' : List Token) (h : SameHead r r') :
    followsSpan r' = followsSpan r := by
  cases r with
  | nil =>
    cases r' with
    | nil => rfl
    | cons t r' => cases h
  | cons t r =>
    cases r' with
    | nil => cases h
    | cons t' r' =>
      cases h
      cases t <;> rfl

/-- Likewise what may follow an expression. -/
theorem followsExpr_congr (r r' : List Token) (h : SameHead r r') :
    followsExpr r' = followsExpr r := by
  cases r with
  | nil =>
    cases r' with
    | nil => rfl
    | cons t r' => cases h
  | cons t r =>
    cases r' with
    | nil => cases h
    | cons t' r' =>
      cases h
      cases t with
      | keyword word _ => cases word <;> rfl
      | _ => rfl

theorem takesFront_instant (negative : Bool) : TakesFrontAlone (readInstant negative) := by
  intro ts v r h
  unfold readInstant at h
  split at h
  · cases h
    exact ⟨[_], rfl, fun _ _ => rfl⟩
  · cases h
    exact ⟨[_], rfl, fun _ _ => rfl⟩
  · cases h

/-- What follows the first length of time ends with the bracket. -/
theorem takesFront_afterSpan (e : Phrase) (span : Span) :
    TakesFrontAlone (readAfterSpan e span) := by
  intro ts v r h
  unfold readAfterSpan at h
  split at h
  · cases h
    exact ⟨[_], rfl, fun _ _ => rfl⟩
  · cases h
    exact ⟨[_, _], rfl, fun _ _ => rfl⟩
  · next ts hnone =>
    obtain ⟨⟨st, r₁⟩, hst, hlast⟩ := exists_of_bind_eq_ok h
    dsimp only at hlast
    split at hlast
    · cases hlast
      obtain ⟨w, rfl, hw⟩ := takesFront_span followsSpan_congr _ _ _ hst
      refine ⟨.colon :: w ++ [.rightBracket], by simp, fun r' _ => ?_⟩
      have hstep := hw (.rightBracket :: r') rfl
      rw [List.append_assoc, List.cons_append, readAfterSpan]
      · exact bind_of_eq_ok hstep
      · intro us heq
        have heq : w ++ .rightBracket :: r' = .rightBracket :: us := heq
        rw [heq] at hstep
        cases hstep
    · cases hlast
  · cases h

/-- **A range or the range of a subquery**, up to its bracket. -/
theorem takesFront_brackets (e : Phrase) : TakesFrontAlone (readBrackets e) := by
  intro ts v r h
  by_cases hend : ∃ us, ts = .rightBracket :: us
  · obtain ⟨us, rfl⟩ := hend
    cases h
    exact ⟨[_], rfl, fun _ _ => rfl⟩
  rw [readBrackets_span fun us hus => hend ⟨us, hus⟩] at h
  obtain ⟨⟨s, r₁⟩, hs, hrest⟩ := exists_of_bind_eq_ok h
  obtain ⟨w, rfl, hw⟩ := takesFront_span followsSpan_congr _ _ _ hs
  obtain ⟨w', rfl, hw'⟩ := takesFront_afterSpan e s _ _ _ hrest
  refine ⟨w ++ w', by simp, fun r' _ => ?_⟩
  -- the front behind the span is not empty, so the span sees the same token there
  have hne : w' ≠ [] := by
    rintro rfl
    have := hw' [] trivial
    cases this
  obtain ⟨t, w', rfl⟩ := List.exists_cons_of_ne_nil hne
  have hspan := hw (t :: w' ++ r') rfl
  rw [List.append_assoc, readBrackets_span fun us heq => ?_, hspan]
  · exact hw' r' trivial
  · rw [heq] at hspan
    cases hspan

/-- **An `offset`**, whose length of time sees the token behind it. -/
theorem takesFront_offset (e : Phrase) : TakesFront SameHead (readOffset e) := by
  intro ts v r h
  have hspan := takesFront_span followsExpr_congr
  rw [readOffset.eq_def] at h
  split at h
  · cases h
    exact ⟨[_], rfl, fun _ _ => rfl⟩
  · exact hspan.behind (l := [_]) (y := readOffset e) (fun _ => rfl) h
  · exact hspan.behind (l := [_]) (y := readOffset e) (fun _ => rfl) h
  · obtain ⟨⟨s, r⟩, hs, heq⟩ := exists_of_map_eq_ok h
    cases heq
    obtain ⟨w, rfl, hw⟩ := hspan _ _ _ hs
    refine ⟨w, rfl, fun r' hr' => ?_⟩
    have hread := hw r' hr'
    rw [readOffset, hread]
    · rfl
    all_goals
      intro us heq
      rw [heq] at hread
      cases hread

/-- **An `@`**, with a number or with `start()` and `end()`. -/
theorem takesFront_time (e : Phrase) : TakesFrontAlone (readTime e) := by
  intro ts v r h
  rw [readTime.eq_def] at h
  split at h
  · cases h
    exact ⟨[_], rfl, fun _ _ => rfl⟩
  · exact (takesFront_instant false).behind (l := [_]) (y := readTime e) (fun _ => rfl) h
  · exact (takesFront_instant true).behind (l := [_]) (y := readTime e) (fun _ => rfl) h
  · cases h
    exact ⟨[_, _, _], rfl, fun _ _ => rfl⟩
  · obtain ⟨⟨s, r⟩, hs, heq⟩ := exists_of_map_eq_ok h
    cases heq
    obtain ⟨w, rfl, hw⟩ := takesFront_instant _ _ _ _ hs
    refine ⟨w, rfl, fun r' hr' => ?_⟩
    have hread := hw r' hr'
    rw [readTime, hread]
    · rfl
    all_goals
      intros
      simp_all [readInstant]

end Phrase

end PanelLint.Promql
