import Mathlib.Data.List.Infix
import PanelLint.Promql.Parse
import PanelLint.Proofs.Promql.Readers
/-!
# Lengths of time beyond all bounds

The parser gives up on a query only for a number of seconds that is no length of time, and only where
a length of time is due: behind a square bracket, behind the colon of a subquery, or behind `offset`
and its sign.  `Endless` says that there is such a place in a row of tokens.

Every reader of the grammar leaves an end of the row that it was given, and gives up only on a row
with such a place.  `Within` says both of what a reader gives, so it passes from the readers of the
parts to those of the whole.

* `readings_within`: the readers of expressions, by induction on their fuel;
* `endlessText_of_aborted`: what this says about a text.
-/

namespace PanelLint.Promql

variable {α β : Type} {ts us : List Token}

/-! ## 1. Where a length of time is due -/

/-- **Tokens begin with a length of time beyond all bounds**, and with what it stands behind. -/
def opensEndless : List Token → Bool
  | .leftBracket :: .number n :: _ => spanOverflows n
  | .colon :: .number n :: _ => spanOverflows n
  | .keyword .offset _ :: .number n :: _ => spanOverflows n
  | .keyword .offset _ :: .operator .add :: .number n :: _ => spanOverflows n
  | .keyword .offset _ :: .operator .sub :: .number n :: _ => spanOverflows n
  | _ => false

/-- **A length of time beyond all bounds stands somewhere in a row of tokens.** -/
def Endless (ts : List Token) : Prop := ∃ tail ∈ ts.tails, opensEndless tail = true

instance (ts : List Token) : Decidable (Endless ts) :=
  inferInstanceAs (Decidable (∃ tail ∈ ts.tails, opensEndless tail = true))

/-- The row itself is an end of it. -/
theorem endless_of_opens (h : opensEndless ts = true) : Endless ts :=
  ⟨ts, (List.mem_tails _ _).mpr List.suffix_rfl, h⟩

/-- What stands in an end of a row stands in the row. -/
theorem Endless.mono (h : Endless us) (hsuffix : us <:+ ts) : Endless ts := by
  obtain ⟨tail, htail, hopens⟩ := h
  have htail := (List.mem_tails _ _).mp htail
  exact ⟨tail, (List.mem_tails _ _).mpr (htail.trans hsuffix), hopens⟩

/-! ## 2. What readers leave

Ends of ends are ends, so this passes through readers that go on in the rest of others.
-/

/-- **A reader stays within its tokens**: it leaves an end of them, and gives up only on a length of
time beyond all bounds among them. -/
structure Within (ts : List Token) (x : Except Stop (α × List Token)) : Prop where
  rest : ∀ a rest, x = .ok (a, rest) → rest <:+ ts
  endless : x = .error .overflow → Endless ts

/-- A reader that leaves an end of its tokens stays within them. -/
theorem within_ok {a : α} (h : us <:+ ts) : Within ts (.ok (a, us)) := by
  refine ⟨fun b rest heq => ?_, fun heq => (nomatch heq)⟩
  cases heq
  exact h

/-- To refuse a token is not to give up. -/
theorem within_badToken : Within ts (.error .badToken : Except Stop (α × List Token)) :=
  ⟨fun _ _ heq => (nomatch heq), fun heq => (nomatch heq)⟩

/-- A reader of an end of some tokens stays within all of them. -/
theorem Within.mono {x : Except Stop (α × List Token)} (h : Within us x) (hsuffix : us <:+ ts) :
    Within ts x :=
  ⟨fun a rest heq => (h.rest a rest heq).trans hsuffix, fun heq => (h.endless heq).mono hsuffix⟩

/-- A reader may go on in the rest of another one. -/
theorem Within.bind {x : Except Stop (α × List Token)} {f : α × List Token → Except Stop (β × List Token)}
    (h : Within ts x) (hf : ∀ a rest, rest <:+ ts → Within ts (f (a, rest))) :
    Within ts (x >>= f) := by
  cases x with
  | error e =>
    refine ⟨fun b rest heq => ?_, fun heq => ?_⟩
    · cases heq
    · cases heq
      exact h.endless rfl
  | ok r => exact hf r.1 r.2 (h.rest r.1 r.2 rfl)

/-- What is made of the result leaves the same rest. -/
theorem Within.map {x : Except Stop (α × List Token)} {f : α × List Token → β × List Token}
    (h : Within ts x) (hf : ∀ r, (f r).2 = r.2) : Within ts (x.map f) := by
  cases x with
  | error e =>
    refine ⟨fun b rest heq => ?_, fun heq => ?_⟩
    · cases heq
    · cases heq
      exact h.endless rfl
  | ok r =>
    refine ⟨fun b rest heq => ?_, fun heq => (nomatch heq)⟩
    have hrest : r.2 = rest := (hf r).symm.trans (congrArg Prod.snd (Except.ok.inj heq))
    exact hrest ▸ h.rest r.1 r.2 rfl

namespace Phrase

/-! ## 3. Labels, matchers and modifiers

None of these readers knows of lengths of time, so all there is to see is what they leave.
-/

/-- Labels, by recursion on their tokens. -/
theorem within_labelsRest : Within ts (readLabelsRest ts) := by
  fun_induction readLabelsRest ts with
  | case1 ts => exact within_ok ⟨[_], rfl⟩
  | case2 ts => exact within_ok ⟨[_, _], rfl⟩
  | case3 t ts _ l _ ih => exact (ih.mono ⟨[_, _], rfl⟩).map fun _ => rfl
  | case4 => exact within_badToken
  | case5 => exact within_badToken

theorem within_labels : Within ts (readLabels ts) := by
  unfold readLabels
  split
  · exact within_ok ⟨[_, _], rfl⟩
  · split
    · exact (within_labelsRest.mono ⟨[_, _], rfl⟩).map fun _ => rfl
    · exact within_badToken
  · exact within_badToken

/-- The labels of a group, which may be left out. -/
theorem within_groupLabels : Within ts (readGroupLabels ts) := by
  unfold readGroupLabels
  split
  · exact within_labels
  · exact within_ok List.suffix_rfl

/-- A value that is passed over is one token, or none. -/
theorem dropValue_suffix : dropValue ts <:+ ts := by
  unfold dropValue
  split
  · exact ⟨[_], rfl⟩
  · exact ⟨[_], rfl⟩
  · exact List.suffix_rfl

/-- The value of a matcher, or what stands in its place. -/
theorem within_matcherValue (name : String) (op : MatchOperator) :
    Within ts (readMatcherValue name op ts) := by
  unfold readMatcherValue
  split
  · exact within_ok ⟨[_], rfl⟩
  · exact within_ok ⟨[_], rfl⟩
  · split
    · exact within_ok (dropValue_suffix.trans ⟨[_], rfl⟩)
    · exact within_badToken
  · exact within_badToken

theorem within_matcher : Within ts (readMatcher ts) := by
  unfold readMatcher
  split
  · split
    · exact (within_matcherValue _ _).mono ⟨[_, _], rfl⟩
    · exact within_ok ⟨[_], rfl⟩
  · exact within_badToken

/-- The matchers behind the first one, by induction on the fuel. -/
theorem within_matchersRest (fuel : Nat) : Within ts (readMatchersRest fuel ts) := by
  induction fuel generalizing ts with
  | zero => exact within_badToken
  | succ fuel ih =>
    rw [readMatchersRest.eq_def]
    split
    · exact within_badToken
    · exact within_ok ⟨[_], rfl⟩
    · exact within_ok ⟨[_, _], rfl⟩
    · next heq =>
      cases heq
      refine (within_matcher.mono ⟨[_], rfl⟩).bind fun m rest hrest => ?_
      exact (ih.mono hrest).bind fun ms rest hrest => within_ok hrest
    · next heq =>
      cases heq
      refine (within_matcher.mono ⟨[_], rfl⟩).bind fun m rest hrest => ?_
      exact (ih.mono hrest).bind fun ms rest hrest => within_ok hrest
    · exact within_badToken

theorem within_matchers : Within ts (readMatchers ts) := by
  unfold readMatchers
  split
  · exact within_ok ⟨[_], rfl⟩
  · exact within_ok ⟨[_, _], rfl⟩
  · refine within_matcher.bind fun m rest hrest => ?_
    exact ((within_matchersRest _).mono hrest).bind fun ms rest hrest => within_ok hrest

theorem within_matching (bool on : Bool) : Within ts (readMatching bool on ts) := by
  unfold readMatching
  refine within_labels.bind fun labels rest hrest => ?_
  dsimp only
  split
  · refine (within_groupLabels.mono ?_).bind fun group rest hrest => within_ok hrest
    exact List.IsSuffix.trans ⟨[_], rfl⟩ hrest
  · exact within_ok hrest

theorem within_modifier : Within ts (readModifier ts) := by
  unfold readModifier
  split
  · exact (within_matching _ _).mono ⟨[_, _], rfl⟩
  · exact within_ok ⟨[_], rfl⟩
  · exact (within_matching _ _).mono ⟨[_], rfl⟩
  · exact (within_labels.mono ⟨[_], rfl⟩).map fun _ => rfl
  · exact within_ok List.suffix_rfl

theorem within_selector (name : Option String) : Within ts (readSelector name ts) := by
  unfold readSelector
  split
  · exact (within_matchers.mono ⟨[_], rfl⟩).map fun _ => rfl
  · exact within_ok List.suffix_rfl

/-! ## 4. Lengths of time -/

/-- Where a length of time is due, the reader gives up on a number out of bounds. -/
theorem within_span {follows : List Token → Bool} (hsuffix : us <:+ ts)
    (hopens : ∀ n vs, us = .number n :: vs → spanOverflows n = true → Endless ts) :
    Within ts (readSpan follows us) := by
  unfold readSpan
  split
  · exact within_ok (List.IsSuffix.trans ⟨[_], rfl⟩ hsuffix)
  · split
    · exact within_badToken
    split
    · next hover => exact ⟨fun _ _ heq => (nomatch heq), fun _ => hopens _ _ rfl hover⟩
    · exact within_ok (List.IsSuffix.trans ⟨[_], rfl⟩ hsuffix)
  · exact within_badToken

/-- The number of an `@` is no length of time, and is never given up on. -/
theorem within_instant (negative : Bool) : Within ts (readInstant negative ts) := by
  unfold readInstant
  split
  · exact within_ok ⟨[_], rfl⟩
  · exact within_ok ⟨[_], rfl⟩
  · exact within_badToken

/-- **In brackets** a length of time is due twice: behind the bracket, and behind the colon. -/
theorem within_brackets (e : Phrase) : Within (.leftBracket :: ts) (readBrackets e ts) := by
  unfold readBrackets
  split
  · exact within_ok ⟨[_, _], rfl⟩
  refine (within_span ⟨[_], rfl⟩ ?_).bind fun span rest hrest => ?_
  · rintro n vs rfl hover
    exact endless_of_opens hover
  dsimp only
  split
  · exact within_ok (List.IsSuffix.trans ⟨[_], rfl⟩ hrest)
  · exact within_ok (List.IsSuffix.trans ⟨[_, _], rfl⟩ hrest)
  · refine (within_span (List.IsSuffix.trans ⟨[_], rfl⟩ hrest) ?_).bind fun step rest hrest => ?_
    · rintro n vs rfl hover
      have hcolon : Endless (.colon :: .number n :: vs) := endless_of_opens hover
      exact hcolon.mono hrest
    dsimp only
    split
    · exact within_ok (List.IsSuffix.trans ⟨[_], rfl⟩ hrest)
    · exact within_badToken
  · exact within_badToken

/-- **Behind `offset`** one is due, with a sign before it or without one. -/
theorem within_offset (e : Phrase) (word : String) :
    Within (.keyword .offset word :: ts) (readOffset e ts) := by
  unfold readOffset
  split
  · exact within_ok ⟨[_, _], rfl⟩
  · refine (within_span ⟨[_, _], rfl⟩ ?_).map fun _ => rfl
    rintro n vs rfl hover
    exact endless_of_opens hover
  · refine (within_span ⟨[_, _], rfl⟩ ?_).map fun _ => rfl
    rintro n vs rfl hover
    exact endless_of_opens hover
  · refine (within_span ⟨[_], rfl⟩ ?_).map fun _ => rfl
    rintro n vs rfl hover
    exact endless_of_opens hover

theorem within_time (e : Phrase) : Within ts (readTime e ts) := by
  unfold readTime
  split
  · exact within_ok ⟨[_], rfl⟩
  · exact ((within_instant _).mono ⟨[_], rfl⟩).map fun _ => rfl
  · exact ((within_instant _).mono ⟨[_], rfl⟩).map fun _ => rfl
  · exact within_ok ⟨[_, _, _], rfl⟩
  · exact (within_instant _).map fun _ => rfl

/-- The modifiers after an operand, by induction on the fuel. -/
theorem within_postfixed (fuel : Nat) (e : Phrase) : Within ts (readPostfix fuel e ts) := by
  induction fuel generalizing e ts with
  | zero => exact within_badToken
  | succ fuel ih =>
    rw [readPostfix.eq_def]
    split
    · exact within_badToken
    · next heq =>
      cases heq
      exact (within_brackets _).bind fun e rest hrest => (ih e).mono hrest
    · next heq =>
      cases heq
      exact (within_offset _ _).bind fun e rest hrest => (ih e).mono hrest
    · next heq =>
      cases heq
      exact ((within_time _).mono ⟨[_], rfl⟩).bind fun e rest hrest => (ih e).mono hrest
    · exact within_ok List.suffix_rfl

/-! ## 5. Expressions

The readers of expressions call each other with less fuel; each is treated under the assumption that
all of them stay within their tokens with the fuel that is left.
-/

/-- **All readers of expressions stay within their tokens**, with some fuel. -/
structure ReadingsWithin (fuel : Nat) : Prop where
  expr : ∀ {ts} (level : Nat), Within ts (readExpr fuel level ts)
  operators : ∀ {ts} (level : Nat) (e : Phrase), Within ts (readOperators fuel level e ts)
  operand : ∀ {ts}, Within ts (readOperand fuel ts)
  primary : ∀ {ts}, Within ts (readPrimary fuel ts)
  body : ∀ {ts}, Within ts (readBody fuel ts)
  args : ∀ {ts}, Within ts (readArgs fuel ts)

variable {fuel : Nat}

/-- An expression is an operand and the operators that follow it. -/
theorem within_expr (ih : ReadingsWithin fuel) (level : Nat) :
    Within ts (readExpr (fuel + 1) level ts) := by
  rw [readExpr]
  exact ih.operand.bind fun e rest hrest => (ih.operators level e).mono hrest

/-- The operators after an operand, each with its modifier and what is to its right. -/
theorem within_operators (ih : ReadingsWithin fuel) (level : Nat) (e : Phrase) :
    Within ts (readOperators (fuel + 1) level e ts) := by
  cases ts with
  | nil => exact within_ok List.suffix_rfl
  | cons t ts =>
    rw [readOperators]
    split
    · exact within_ok List.suffix_rfl
    split
    · exact within_ok List.suffix_rfl
    refine (within_modifier.mono ⟨[_], rfl⟩).bind fun modifier rest hrest => ?_
    refine ((ih.expr _).mono hrest).bind fun right rest hrest => ?_
    exact (ih.operators level _).mono hrest

/-- An operand with its sign and its modifiers. -/
theorem within_operand (ih : ReadingsWithin fuel) : Within ts (readOperand (fuel + 1) ts) := by
  rw [readOperand.eq_def]
  split
  · exact within_badToken
  · next heq =>
    cases heq
    exact ((ih.expr _).mono ⟨[_], rfl⟩).bind fun e rest hrest => within_ok hrest
  · next heq =>
    cases heq
    exact ((ih.expr _).mono ⟨[_], rfl⟩).bind fun e rest hrest => within_ok hrest
  · next heq _ _ =>
    cases heq
    exact ih.primary.bind fun e rest hrest => (within_postfixed _ e).mono hrest

/-- **A primary expression**: only parentheses, calls and aggregations have other expressions in them. -/
theorem within_primary (ih : ReadingsWithin fuel) : Within ts (readPrimary (fuel + 1) ts) := by
  rw [readPrimary.eq_def]
  split
  · exact within_badToken
  · exact within_ok ⟨[_], rfl⟩
  · exact within_ok ⟨[_], rfl⟩
  · exact within_ok ⟨[_], rfl⟩
  · -- parentheses
    next heq =>
    cases heq
    refine ((ih.expr 0).mono ⟨[_], rfl⟩).bind fun e rest hrest => ?_
    dsimp only
    split
    · exact within_ok (List.IsSuffix.trans ⟨[_], rfl⟩ hrest)
    · exact within_badToken
  · -- a call
    next heq =>
    cases heq
    exact (ih.body.mono ⟨[_], rfl⟩).bind fun body rest hrest => within_ok hrest
  · exact (within_selector _).mono ⟨[_], rfl⟩
  · exact (within_selector _).mono ⟨[_], rfl⟩
  · exact within_selector _
  · -- an aggregation with its grouping in front
    next heq =>
    cases heq
    refine (within_labels.mono ⟨[_, _], rfl⟩).bind fun labels rest hrest => ?_
    exact (ih.body.mono hrest).bind fun body rest hrest => within_ok hrest
  · -- an aggregation that may have it behind
    next heq =>
    cases heq
    refine (ih.body.mono ⟨[_], rfl⟩).bind fun body rest hrest => ?_
    dsimp only
    split
    · refine (within_labels.mono (List.IsSuffix.trans ⟨[_], rfl⟩ hrest)).bind ?_
      exact fun labels rest hrest => within_ok hrest
    · exact within_ok hrest
  · exact (within_selector _).mono ⟨[_], rfl⟩
  · exact (within_selector _).mono ⟨[_], rfl⟩
  · split
    · exact (within_selector _).mono ⟨[_], rfl⟩
    · exact within_badToken
  · exact (within_selector _).mono ⟨[_], rfl⟩
  · exact (within_selector _).mono ⟨[_], rfl⟩
  · exact within_badToken

theorem within_body (ih : ReadingsWithin fuel) : Within ts (readBody (fuel + 1) ts) := by
  rw [readBody.eq_def]
  split
  · exact within_badToken
  · exact within_ok ⟨[_, _], rfl⟩
  · next heq =>
    cases heq
    refine ((ih.expr 0).mono ⟨[_], rfl⟩).bind fun e rest hrest => ?_
    exact (ih.args.mono hrest).bind fun args rest hrest => within_ok hrest
  · exact within_badToken

theorem within_args (ih : ReadingsWithin fuel) : Within ts (readArgs (fuel + 1) ts) := by
  rw [readArgs.eq_def]
  split
  · exact within_badToken
  · exact within_ok ⟨[_], rfl⟩
  · next heq =>
    cases heq
    exact (ih.args.mono ⟨[_], rfl⟩).bind fun args rest hrest => within_ok hrest
  · exact within_ok ⟨[_, _], rfl⟩
  · next heq =>
    cases heq
    refine ((ih.expr 0).mono ⟨[_], rfl⟩).bind fun e rest hrest => ?_
    exact (ih.args.mono hrest).bind fun args rest hrest => within_ok hrest
  · exact within_badToken

/-- **All readers of expressions stay within their tokens**, by induction on the fuel. -/
theorem readings_within (fuel : Nat) : ReadingsWithin fuel := by
  induction fuel with
  | zero =>
    exact ⟨fun _ => within_badToken, fun _ _ => within_badToken, within_badToken, within_badToken,
      within_badToken, within_badToken⟩
  | succ fuel ih =>
    exact ⟨within_expr ih, within_operators ih, within_operand ih, within_primary ih,
      within_body ih, within_args ih⟩

/-- The grammar gives up only on a length of time beyond all bounds. -/
theorem endless_of_overflow (h : ofTokens ts = .error .overflow) : Endless ts := by
  unfold ofTokens at h
  split at h
  · cases h
  · cases hread : readExpr (8 * ts.length + 8) 0 ts with
    | error e =>
      rw [hread] at h
      cases h
      exact ((readings_within _).expr 0).endless hread
    | ok r =>
      rw [hread] at h
      dsimp only [bind, Except.bind] at h
      split at h <;> cases h

end Phrase

/-! ## 6. Texts -/

/-- A text with a length of time beyond all bounds. -/
def EndlessText (text : List Char) : Prop := ∃ ts, Lexer.tokens text = .ok ts ∧ Endless ts

instance (text : List Char) : Decidable (EndlessText text) :=
  match h : Lexer.tokens text with
  | .ok ts => decidable_of_iff (Endless ts) (by simp [EndlessText, h])
  | .error e => isFalse (by simp [EndlessText, h])

/-- **The parser gives up on a text only where a length of time in it is beyond all bounds.** -/
theorem endlessText_of_aborted {text : List Char} (h : parse text = .error .aborted) :
    EndlessText text := by
  unfold parse at h
  split at h
  · cases h
  · next ts hts =>
    refine ⟨ts, hts, ?_⟩
    split at h
    · cases h
    · next hover => exact Phrase.endless_of_overflow hover
    · cases h
    · split at h <;> cases h

end PanelLint.Promql
