import PanelLint.Proofs.Promql.Endless
import PanelLint.Proofs.Promql.Expressions
/-!
# Durations in other spellings

The grammar never asks what a duration says.  So a row of tokens with its durations spelled in
another way is read as the same phrase, with those spellings in it.
-/

namespace PanelLint.Promql

variable (f : String → String)

/-! ## 1. Other spellings

The spelling is any function of texts.  It need not give durations, since the grammar would not notice. -/

/-- A token in another spelling, if it is a duration. -/
def Token.respell : Token → Token
  | .duration text => .duration (f text)
  | t => t

/-- A length of time in another spelling. -/
def Span.respell : Span → Span
  | .units text => .units (f text)
  | .seconds text => .seconds text

/-- A fixed time in another spelling. -/
def TimePhrase.respell : TimePhrase → TimePhrase
  | .fixed negative s => .fixed negative (s.respell f)
  | .edge start => .edge start

mutual

/-- A phrase with its durations in another spelling. -/
def Phrase.respell : Phrase → Phrase
  | .number s => .number (s.respell f)
  | .string t => .string t
  | .vector name ms => .vector name ms
  | .paren p => .paren p.respell
  | .plus p => .plus p.respell
  | .minus p => .minus p.respell
  | .binary op m l r => .binary op m l.respell r.respell
  | .call name ps extra => .call name (Phrase.respellAll ps) extra
  | .aggregate op g ps extra => .aggregate op g (Phrase.respellAll ps) extra
  | .range p s => .range p.respell (s.respell f)
  | .noRange p => .noRange p.respell
  | .subquery p s step => .subquery p.respell (s.respell f) (step.map (Span.respell f))
  | .offset p negative s => .offset p.respell negative (s.respell f)
  | .noOffset p => .noOffset p.respell
  | .atTime p t => .atTime p.respell (t.respell f)
  | .noTime p => .noTime p.respell

/-- Several phrases with their durations in another spelling. -/
def Phrase.respellAll : List Phrase → List Phrase
  | [] => []
  | p :: ps => p.respell :: Phrase.respellAll ps

end

/-- What a reader gives, with the durations in another spelling: in its result, as `g` says, and in
the tokens it leaves. -/
def respelled {α : Type} (g : α → α) (x : Except Stop (α × List Token)) :
    Except Stop (α × List Token) :=
  x.map fun r => (g r.1, r.2.map (Token.respell f))

section Respelled

variable {α β : Type} {g : α → α} {x : Except Stop (α × List Token)}

@[simp] theorem respelled_ok (a : α) (ts : List Token) :
    respelled f g (.ok (a, ts)) = .ok (g a, ts.map (Token.respell f)) := rfl

/-- What is done with such a result is done with the one that is spelled anew. -/
theorem respelled_bind (k : α × List Token → Except Stop (β × List Token)) (h : β → β) :
    respelled f h (x >>= k) = x >>= fun r => respelled f h (k r) := by
  cases x <;> rfl

/-- A reader that goes on behind such a result gets the result in the other spelling. -/
theorem bind_respelled (k : α × List Token → Except Stop (β × List Token)) :
    respelled f g x >>= k = x >>= fun r => k (g r.1, r.2.map (Token.respell f)) := by
  cases x <;> rfl

end Respelled

namespace Phrase

variable {f} {ts : List Token}

/-! ## 2. Labels, matchers and modifiers

Nothing that is read here holds a duration: the results are the same, and only the tokens that are left
are spelled anew. -/

/-- No label is a duration. -/
theorem label_respell (t : Token) : label? (t.respell f) = label? t := by
  cases t <;> rfl

/-- Labels are read past durations in any spelling: those that are left come out spelled anew. -/
theorem readLabelsRest_respell (ts : List Token) :
    readLabelsRest (ts.map (Token.respell f)) = respelled f id (readLabelsRest ts) := by
  fun_induction readLabelsRest ts with
  | case1 => rfl
  | case2 => rfl
  | case3 t ts h l hl ih =>
    rw [List.map_cons, List.map_cons]
    show readLabelsRest (.comma :: t.respell f :: _) = _
    rw [readLabelsRest_label (label_respell t ▸ hl), ih]
    cases readLabelsRest ts <;> rfl
  | case4 t ts h hl =>
    cases t <;> first | rfl | exact absurd rfl h | cases hl
  | case5 ts h₁ h₂ h₃ =>
    cases ts with
    | nil => rfl
    | cons t ts =>
      cases t with
      | rightParen => exact absurd rfl (h₁ _)
      | comma =>
        cases ts with
        | nil => rfl
        | cons t ts => exact absurd rfl (h₃ _ _)
      | _ => rfl

theorem readLabels_respell (ts : List Token) :
    readLabels (ts.map (Token.respell f)) = respelled f id (readLabels ts) := by
  cases ts with
  | nil => rfl
  | cons t ts =>
    cases t with
    | leftParen =>
      cases ts with
      | nil => rfl
      | cons t ts =>
        cases hl : label? t with
        | none => cases t <;> first | rfl | cases hl
        | some l =>
          rw [List.map_cons, List.map_cons]
          show readLabels (.leftParen :: t.respell f :: _) = _
          rw [readLabels_label _ (label_respell t ▸ hl), readLabels_label ts hl,
            readLabelsRest_respell]
          cases readLabelsRest ts <;> rfl
    | _ => rfl

theorem readGroupLabels_respell (ts : List Token) :
    readGroupLabels (ts.map (Token.respell f)) = respelled f id (readGroupLabels ts) := by
  cases ts with
  | nil => rfl
  | cons t us =>
    cases t with
    | leftParen => exact readLabels_respell (.leftParen :: us)
    | _ => rfl

/-- A match may have a list of labels and another one for its group, and both are read first. -/
theorem readMatching_respell (bool on : Bool) (ts : List Token) :
    readMatching bool on (ts.map (Token.respell f)) = respelled f id (readMatching bool on ts) := by
  rw [readMatching, readMatching, readLabels_respell, bind_respelled, respelled_bind]
  refine congrArg _ (funext fun r => ?_)
  obtain ⟨labels, ts⟩ := r
  cases ts with
  | nil => rfl
  | cons t ts =>
    cases t with
    | keyword word text =>
      cases word with
      | groupSide left =>
        show (readGroupLabels (ts.map (Token.respell f)) >>= _) = respelled f id (readGroupLabels ts >>= _)
        rw [readGroupLabels_respell, bind_respelled, respelled_bind]
        rfl
      | _ => rfl
    | _ => rfl

theorem readModifier_respell (ts : List Token) :
    readModifier (ts.map (Token.respell f)) = respelled f id (readModifier ts) := by
  cases ts with
  | nil => rfl
  | cons t ts =>
    cases t with
    | keyword word text =>
      cases word with
      | bool =>
        cases ts with
        | nil => rfl
        | cons t ts =>
          cases t with
          | keyword word text =>
            cases word with
            | matching on => exact readMatching_respell true on ts
            | _ => rfl
          | _ => rfl
      | matching on => exact readMatching_respell false on ts
      | groupSide left =>
        show (readLabels (ts.map (Token.respell f))).map _ = respelled f id ((readLabels ts).map _)
        rw [readLabels_respell]
        cases readLabels ts <;> rfl
      | _ => rfl
    | _ => rfl

theorem matchOperator_respell (t : Token) : matchOperator? (t.respell f) = matchOperator? t := by
  cases t <;> rfl

theorem dropValue_respell (ts : List Token) :
    dropValue (ts.map (Token.respell f)) = (dropValue ts).map (Token.respell f) := by
  cases ts with
  | nil => rfl
  | cons t ts => cases t <;> rfl

/-- Behind the operator of a matcher, a value that is none is dropped with what it says. -/
theorem readMatcherValue_respell (name : String) (op : MatchOperator) (ts : List Token) :
    readMatcherValue name op (ts.map (Token.respell f)) =
      respelled f id (readMatcherValue name op ts) := by
  cases ts with
  | nil => rfl
  | cons t ts =>
    have hvalue : ∀ second : MatchOperator,
        (.ok (.twoOperators second, dropValue (ts.map (Token.respell f))) :
          Except Stop (MatcherPhrase × List Token)) =
            respelled f id (.ok (.twoOperators second, dropValue ts)) := fun second => by
      rw [dropValue_respell, respelled_ok, id]
    cases t with
    | operator second =>
      cases second with
      | ne => exact hvalue _
      | _ => rfl
    | equal => exact hvalue _
    | regex => exact hvalue _
    | notRegex => exact hvalue _
    | _ => rfl

theorem readMatcher_respell (ts : List Token) :
    readMatcher (ts.map (Token.respell f)) = respelled f id (readMatcher ts) := by
  cases ts with
  | nil => rfl
  | cons t ts =>
    cases t with
    | identifier name =>
      cases ts with
      | nil => rfl
      | cons t ts =>
        have hop := matchOperator_respell (f := f) t
        rw [List.map_cons, List.map_cons, readMatcher]
        show readMatcher (.identifier name :: t.respell f :: _) = _
        rw [readMatcher, hop]
        cases matchOperator? t with
        | none => rfl
        | some op => exact readMatcherValue_respell name op ts
    | _ => rfl

/-- The fuel bounds the matchers, and the row in the other spelling has as many tokens. -/
theorem readMatchersRest_respell (fuel : Nat) (ts : List Token) :
    readMatchersRest fuel (ts.map (Token.respell f)) =
      respelled f id (readMatchersRest fuel ts) := by
  induction fuel generalizing ts with
  | zero => rfl
  | succ fuel ih =>
    have hmatcher : ∀ (apart : Bool) (us : List Token),
        (readMatcher (us.map (Token.respell f)) >>= fun r => readMatchersRest fuel r.2 >>= fun s =>
          .ok ((apart, r.1) :: s.1, s.2)) =
        respelled f id (readMatcher us >>= fun r => readMatchersRest fuel r.2 >>= fun s =>
          .ok ((apart, r.1) :: s.1, s.2)) := by
      intro apart us
      rw [readMatcher_respell, bind_respelled, respelled_bind]
      refine congrArg _ (funext fun r => ?_)
      rw [ih, bind_respelled, respelled_bind]
      rfl
    cases ts with
    | nil => rfl
    | cons t us =>
      cases t with
      | comma =>
        cases us with
        | nil => exact hmatcher false []
        | cons t us =>
          cases t with
          | rightBrace => rfl
          | _ => exact hmatcher false (_ :: us)
      | keyword word text =>
        cases word with
        | operator op =>
          cases op with
          | or => exact hmatcher true us
          | _ => rfl
        | _ => rfl
      | _ => rfl

theorem readMatchers_respell (ts : List Token) :
    readMatchers (ts.map (Token.respell f)) = respelled f id (readMatchers ts) := by
  have hlist : ∀ us : List Token,
      (readMatcher (us.map (Token.respell f)) >>= fun r =>
        readMatchersRest r.2.length r.2 >>= fun s => .ok (MatchersPhrase.list r.1 s.1, s.2)) =
      respelled f id (readMatcher us >>= fun r =>
        readMatchersRest r.2.length r.2 >>= fun s => .ok (MatchersPhrase.list r.1 s.1, s.2)) := by
    intro us
    rw [readMatcher_respell, bind_respelled, respelled_bind]
    refine congrArg _ (funext fun r => ?_)
    rw [List.length_map, readMatchersRest_respell, bind_respelled, respelled_bind]
    rfl
  cases ts with
  | nil => rfl
  | cons t us =>
    cases t with
    | rightBrace => rfl
    | comma =>
      cases us with
      | nil => rfl
      | cons t us =>
        cases t with
        | rightBrace => rfl
        | _ => exact hlist (.comma :: _ :: us)
    | _ => exact hlist (_ :: us)

/-- A selector is the first thing to be a phrase, so its result is spelled anew too. -/
theorem readSelector_respell (name : Option String) (ts : List Token) :
    readSelector name (ts.map (Token.respell f)) =
      respelled f (Phrase.respell f) (readSelector name ts) := by
  cases ts with
  | nil => rfl
  | cons t ts =>
    cases t with
    | leftBrace =>
      show (readMatchers (ts.map (Token.respell f))).map _ =
        respelled f _ ((readMatchers ts).map _)
      rw [readMatchers_respell]
      cases readMatchers ts <;> rfl
    | _ => rfl

/-! ## 3. Lengths of time and modifiers of operands

Durations are read by `readSpan` and `readInstant` alone, and all else here is built on these two. -/

/-- What may follow a length of time is told by the kind of the token. -/
theorem followsSpan_respell (ts : List Token) :
    followsSpan (ts.map (Token.respell f)) = followsSpan ts := by
  cases ts with
  | nil => rfl
  | cons t ts => cases t <;> rfl

theorem operator_respell (t : Token) : operator? (t.respell f) = operator? t := by
  cases t <;> rfl

theorem followsExpr_respell (ts : List Token) :
    followsExpr (ts.map (Token.respell f)) = followsExpr ts := by
  cases ts with
  | nil => rfl
  | cons t ts =>
    cases t with
    | keyword word text => cases word <;> rfl
    | _ => rfl

/-- **A length of time is where the spelling comes in**: what is read of a duration is its text, and
what is read of a number is not touched. -/
theorem readSpan_respell {follows : List Token → Bool}
    (hfollows : ∀ us, follows (us.map (Token.respell f)) = follows us) (ts : List Token) :
    readSpan follows (ts.map (Token.respell f)) =
      respelled f (Span.respell f) (readSpan follows ts) := by
  cases ts with
  | nil => rfl
  | cons t ts =>
    cases t with
    | number text =>
      show readSpan follows (.number text :: ts.map (Token.respell f)) = _
      rw [readSpan, readSpan, hfollows]
      split
      · rfl
      · split <;> rfl
    | _ => rfl

/-- So it is in a time behind `@`. -/
theorem readInstant_respell (negative : Bool) (ts : List Token) :
    readInstant negative (ts.map (Token.respell f)) =
      respelled f (TimePhrase.respell f) (readInstant negative ts) := by
  cases ts with
  | nil => rfl
  | cons t ts => cases t <;> rfl

/-- What the brackets of a subquery end with, behind its step. -/
def endStep (e : Phrase) (span : Span) (r : Span × List Token) : Except Stop (Phrase × List Token) :=
  match r.2 with
  | .rightBracket :: ts => .ok (.subquery e span (some r.1), ts)
  | _ => .error .badToken

/-- The end of a subquery has its length of time and its step in the other spelling. -/
theorem endStep_respell (e : Phrase) (span step : Span) (ts : List Token) :
    endStep (e.respell f) (span.respell f) (step.respell f, ts.map (Token.respell f)) =
      respelled f (Phrase.respell f) (endStep e span (step, ts)) := by
  cases ts with
  | nil => rfl
  | cons t ts => cases t <;> rfl

/-- Brackets hold a range, or the two lengths of time of a subquery; an empty pair is recognised before
any length of time is read. -/
theorem readBrackets_respell (e : Phrase) (ts : List Token) :
    readBrackets (e.respell f) (ts.map (Token.respell f)) =
      respelled f (Phrase.respell f) (readBrackets e ts) := by
  by_cases hend : ∃ us, ts = .rightBracket :: us
  · obtain ⟨us, rfl⟩ := hend
    rfl
  · have hts : ∀ us, ts ≠ .rightBracket :: us := fun us hus => hend ⟨us, hus⟩
    have hts' : ∀ us, ts.map (Token.respell f) ≠ .rightBracket :: us := by
      intro us hus
      cases ts with
      | nil => cases hus
      | cons t ts =>
        cases t with
        | rightBracket => exact hts ts rfl
        | _ => cases hus
    rw [readBrackets_span hts, readBrackets_span hts', readSpan_respell followsSpan_respell,
      bind_respelled, respelled_bind]
    refine congrArg _ (funext fun r => ?_)
    obtain ⟨span, ts⟩ := r
    cases ts with
    | nil => rfl
    | cons t us =>
      cases t with
      | colon =>
        have hstep : ∀ vs : List Token,
            (readSpan followsSpan (vs.map (Token.respell f)) >>=
              endStep (e.respell f) (span.respell f)) =
            respelled f (Phrase.respell f) (readSpan followsSpan vs >>= endStep e span) := by
          intro vs
          rw [readSpan_respell followsSpan_respell, bind_respelled, respelled_bind]
          exact congrArg _ (funext fun r => endStep_respell e span r.1 r.2)
        cases us with
        | nil => exact hstep []
        | cons t vs =>
          cases t with
          | rightBracket => rfl
          | number text => exact hstep (.number text :: vs)
          | duration text => exact hstep (.duration text :: vs)
          | _ => rfl
      | _ => rfl

theorem readOffset_respell (e : Phrase) (ts : List Token) :
    readOffset (e.respell f) (ts.map (Token.respell f)) =
      respelled f (Phrase.respell f) (readOffset e ts) := by
  have hspan : ∀ (negative : Bool) (us : List Token),
      ((readSpan followsExpr (us.map (Token.respell f))).map fun r =>
        (.offset (e.respell f) negative r.1, r.2)) =
      respelled f (Phrase.respell f) ((readSpan followsExpr us).map fun r =>
        (.offset e negative r.1, r.2)) := by
    intro negative us
    rw [readSpan_respell followsExpr_respell]
    cases readSpan followsExpr us <;> rfl
  cases ts with
  | nil => rfl
  | cons t us =>
    cases t with
    | finish => rfl
    | operator op =>
      cases op with
      | add => exact hspan false us
      | sub => exact hspan true us
      | _ => rfl
    | number text => exact hspan false (.number text :: us)
    | _ => rfl

theorem readTime_respell (e : Phrase) (ts : List Token) :
    readTime (e.respell f) (ts.map (Token.respell f)) =
      respelled f (Phrase.respell f) (readTime e ts) := by
  have hinstant : ∀ (negative : Bool) (us : List Token),
      ((readInstant negative (us.map (Token.respell f))).map fun r =>
        (.atTime (e.respell f) r.1, r.2)) =
      respelled f (Phrase.respell f) ((readInstant negative us).map fun r =>
        (.atTime e r.1, r.2)) := by
    intro negative us
    rw [readInstant_respell]
    cases readInstant negative us <;> rfl
  cases ts with
  | nil => rfl
  | cons t us =>
    cases t with
    | operator op =>
      cases op with
      | add => exact hinstant false us
      | sub => exact hinstant true us
      | _ => rfl
    | keyword word text =>
      cases word with
      | edge start =>
        cases us with
        | nil => rfl
        | cons t vs =>
          cases t with
          | leftParen =>
            cases vs with
            | nil => rfl
            | cons t vs => cases t <;> rfl
          | _ => rfl
      | _ => rfl
    | _ => rfl

/-- Modifiers are read one by one, each onto the phrase that is there already. -/
theorem readPostfix_respell (fuel : Nat) (e : Phrase) (ts : List Token) :
    readPostfix fuel (e.respell f) (ts.map (Token.respell f)) =
      respelled f (Phrase.respell f) (readPostfix fuel e ts) := by
  induction fuel generalizing e ts with
  | zero => rfl
  | succ fuel ih =>
    cases ts with
    | nil => rfl
    | cons t us =>
      cases t with
      | leftBracket =>
        show (readBrackets (e.respell f) (us.map (Token.respell f)) >>= _) =
          respelled f _ (readBrackets e us >>= _)
        rw [readBrackets_respell, bind_respelled, respelled_bind]
        exact congrArg _ (funext fun r => ih r.1 r.2)
      | keyword word text =>
        cases word with
        | offset =>
          show (readOffset (e.respell f) (us.map (Token.respell f)) >>= _) =
            respelled f _ (readOffset e us >>= _)
          rw [readOffset_respell, bind_respelled, respelled_bind]
          exact congrArg _ (funext fun r => ih r.1 r.2)
        | _ => rfl
      | atSign =>
        show (readTime (e.respell f) (us.map (Token.respell f)) >>= _) =
          respelled f _ (readTime e us >>= _)
        rw [readTime_respell, bind_respelled, respelled_bind]
        exact congrArg _ (funext fun r => ih r.1 r.2)
      | _ => rfl

/-! ## 4. Expressions

The readers of expressions call each other with less fuel, so what is said of them is said of all at once
and by induction on the fuel. -/

/-- Arguments in another spelling, with whether there is a comma too many. -/
def respellBody (f : String → String) (b : List Phrase × Bool) : List Phrase × Bool :=
  (respellAll f b.1, b.2)

/-- **All readers of expressions at once**, with some fuel. -/
structure ReadsRespelled (f : String → String) (fuel : Nat) : Prop where
  expr : ∀ level ts, readExpr fuel level (ts.map (Token.respell f)) =
    respelled f (respell f) (readExpr fuel level ts)
  operators : ∀ level e ts, readOperators fuel level (e.respell f) (ts.map (Token.respell f)) =
    respelled f (respell f) (readOperators fuel level e ts)
  operand : ∀ ts, readOperand fuel (ts.map (Token.respell f)) =
    respelled f (respell f) (readOperand fuel ts)
  primary : ∀ ts, readPrimary fuel (ts.map (Token.respell f)) =
    respelled f (respell f) (readPrimary fuel ts)
  body : ∀ ts, readBody fuel (ts.map (Token.respell f)) =
    respelled f (respellBody f) (readBody fuel ts)
  args : ∀ ts, readArgs fuel (ts.map (Token.respell f)) =
    respelled f (respellBody f) (readArgs fuel ts)

theorem readsRespelled_zero : ReadsRespelled f 0 where
  expr _ _ := rfl
  operators _ _ _ := rfl
  operand _ := rfl
  primary _ := rfl
  body _ := rfl
  args _ := rfl

section Step

variable {fuel : Nat} (ih : ReadsRespelled f fuel)

include ih

/-- An expression is an operand and what follows it. -/
theorem readExpr_respell (level : Nat) (ts : List Token) :
    readExpr (fuel + 1) level (ts.map (Token.respell f)) =
      respelled f (respell f) (readExpr (fuel + 1) level ts) := by
  rw [readExpr, readExpr, ih.operand, bind_respelled, respelled_bind]
  exact congrArg _ (funext fun r => ih.operators level r.1 r.2)

/-- Whether an operator binds here does not depend on what stands behind it, so both rows take the same
ones. -/
theorem readOperators_respell (level : Nat) (e : Phrase) (ts : List Token) :
    readOperators (fuel + 1) level (e.respell f) (ts.map (Token.respell f)) =
      respelled f (respell f) (readOperators (fuel + 1) level e ts) := by
  cases ts with
  | nil => rfl
  | cons t ts =>
    rw [List.map_cons, readOperators, readOperators, operator_respell]
    cases operator? t with
    | none => rfl
    | some op =>
      dsimp only
      split
      · rfl
      · rw [readModifier_respell, bind_respelled, respelled_bind]
        refine congrArg _ (funext fun r => ?_)
        dsimp only
        rw [ih.expr, bind_respelled, respelled_bind]
        exact congrArg _ (funext fun s => ih.operators level (.binary op r.1 e s.1) s.2)

/-- An operand is a primary expression with its modifiers, or a sign before an expression that binds as
tightly as a power. -/
theorem readOperand_respell (ts : List Token) :
    readOperand (fuel + 1) (ts.map (Token.respell f)) =
      respelled f (respell f) (readOperand (fuel + 1) ts) := by
  have hprimary : ∀ us : List Token,
      (readPrimary fuel (us.map (Token.respell f)) >>= fun r =>
        readPostfix (r.2.length + 1) r.1 r.2) =
      respelled f (respell f) (readPrimary fuel us >>= fun r =>
        readPostfix (r.2.length + 1) r.1 r.2) := by
    intro us
    rw [ih.primary, bind_respelled, respelled_bind]
    refine congrArg _ (funext fun r => ?_)
    rw [List.length_map]
    exact readPostfix_respell _ r.1 r.2
  have hsigned : ∀ (sign : Phrase → Phrase) (us : List Token),
      (∀ e, sign (e.respell f) = (sign e).respell f) →
      (readExpr fuel Operator.pow.precedence (us.map (Token.respell f)) >>= fun r =>
        .ok (sign r.1, r.2)) =
      respelled f (respell f) (readExpr fuel Operator.pow.precedence us >>= fun r =>
        .ok (sign r.1, r.2)) := by
    intro sign us hsign
    rw [ih.expr, bind_respelled, respelled_bind]
    exact congrArg _ (funext fun r => by rw [hsign, respelled_ok])
  cases ts with
  | nil => exact hprimary []
  | cons t us =>
    cases t with
    | operator op =>
      cases op with
      | add => exact hsigned .plus us fun _ => rfl
      | sub => exact hsigned .minus us fun _ => rfl
      | _ => exact hprimary (.operator _ :: us)
    | _ => exact hprimary (_ :: us)

theorem readParen_respell (ts : List Token) :
    readPrimary (fuel + 1) ((.leftParen :: ts).map (Token.respell f)) =
      respelled f (respell f) (readPrimary (fuel + 1) (.leftParen :: ts)) := by
  show (readExpr fuel 0 (ts.map (Token.respell f)) >>= _) = respelled f _ (readExpr fuel 0 ts >>= _)
  rw [ih.expr, bind_respelled, respelled_bind]
  refine congrArg _ (funext fun r => ?_)
  obtain ⟨e, ts⟩ := r
  cases ts with
  | nil => rfl
  | cons t ts => cases t <;> rfl

/-- The grouping of an aggregation stands before its arguments or behind them. -/
theorem readAggregation_respell (op : Aggregation) (text : String) (ts : List Token) :
    readPrimary (fuel + 1) ((.keyword (.aggregation op) text :: ts).map (Token.respell f)) =
      respelled f (respell f) (readPrimary (fuel + 1) (.keyword (.aggregation op) text :: ts)) := by
  cases ts with
  | nil => rfl
  | cons t us =>
    cases t with
    | keyword word label =>
      cases word with
      | grouping keeps =>
        show (readLabels (us.map (Token.respell f)) >>= _) = respelled f _ (readLabels us >>= _)
        rw [readLabels_respell, bind_respelled, respelled_bind]
        refine congrArg _ (funext fun r => ?_)
        dsimp only
        rw [ih.body, bind_respelled, respelled_bind]
        rfl
      | _ => rfl
    | leftParen =>
      show (readBody fuel ((.leftParen :: us).map (Token.respell f)) >>= _) =
        respelled f _ (readBody fuel (.leftParen :: us) >>= _)
      rw [ih.body, bind_respelled, respelled_bind]
      refine congrArg _ (funext fun r => ?_)
      obtain ⟨⟨args, extra⟩, ts⟩ := r
      cases ts with
      | nil => rfl
      | cons t vs =>
        cases t with
        | keyword word label =>
          cases word with
          | grouping keeps =>
            show (readLabels (vs.map (Token.respell f)) >>= _) = respelled f _ (readLabels vs >>= _)
            rw [readLabels_respell, bind_respelled, respelled_bind]
            rfl
          | _ => rfl
        | _ => rfl
    | leftBrace => exact readSelector_respell (some text) (.leftBrace :: us)
    | _ => rfl

/-- The forms of a primary expression are told apart by the first token, and sometimes the second;
neither is told by the text of a duration. -/
theorem readPrimary_respell (ts : List Token) :
    readPrimary (fuel + 1) (ts.map (Token.respell f)) =
      respelled f (respell f) (readPrimary (fuel + 1) ts) := by
  cases ts with
  | nil => rfl
  | cons t us =>
    cases t with
    | leftParen => exact readParen_respell ih us
    | identifier name =>
      cases us with
      | nil => rfl
      | cons t vs =>
        cases t with
        | leftParen =>
          show (readBody fuel ((.leftParen :: vs).map (Token.respell f)) >>= _) =
            respelled f _ (readBody fuel (.leftParen :: vs) >>= _)
          rw [ih.body, bind_respelled, respelled_bind]
          rfl
        | leftBrace => exact readSelector_respell (some name) (.leftBrace :: vs)
        | _ => rfl
    | metric name => exact readSelector_respell (some name) us
    | leftBrace => exact readSelector_respell none (.leftBrace :: us)
    | keyword word text =>
      cases word with
      | aggregation op => exact readAggregation_respell ih op text us
      | grouping keeps => exact readSelector_respell (some text) us
      | operator op =>
        rw [List.map_cons]
        show readPrimary (fuel + 1) (.keyword (.operator op) text :: us.map (Token.respell f)) = _
        rw [readPrimary, readPrimary]
        split
        · exact readSelector_respell (some text) us
        · rfl
      | offset => exact readSelector_respell (some text) us
      | edge start => exact readSelector_respell (some text) us
      | _ => rfl
    | _ => rfl

/-- One more argument in front. -/
theorem readArgument_respell (ts : List Token) :
    (readExpr fuel 0 (ts.map (Token.respell f)) >>= fun r => readArgs fuel r.2 >>= fun s =>
      .ok ((r.1 :: s.1.1, s.1.2), s.2)) =
    respelled f (respellBody f) (readExpr fuel 0 ts >>= fun r => readArgs fuel r.2 >>= fun s =>
      .ok ((r.1 :: s.1.1, s.1.2), s.2)) := by
  rw [ih.expr, bind_respelled, respelled_bind]
  refine congrArg _ (funext fun r => ?_)
  dsimp only
  rw [ih.args, bind_respelled, respelled_bind]
  rfl

/-- Arguments begin behind a parenthesis, and there may be none. -/
theorem readBody_respell (ts : List Token) :
    readBody (fuel + 1) (ts.map (Token.respell f)) =
      respelled f (respellBody f) (readBody (fuel + 1) ts) := by
  cases ts with
  | nil => rfl
  | cons t us =>
    cases t with
    | leftParen =>
      cases us with
      | nil => exact readArgument_respell ih []
      | cons t vs =>
        cases t with
        | rightParen => rfl
        | _ => exact readArgument_respell ih (_ :: vs)
    | _ => rfl

theorem readArgs_respell (ts : List Token) :
    readArgs (fuel + 1) (ts.map (Token.respell f)) =
      respelled f (respellBody f) (readArgs (fuel + 1) ts) := by
  cases ts with
  | nil => rfl
  | cons t us =>
    cases t with
    | rightParen => rfl
    | comma =>
      cases us with
      | nil => exact readArgument_respell ih []
      | cons t vs =>
        cases t with
        | comma =>
          show (readArgs fuel ((.comma :: vs).map (Token.respell f)) >>= _) =
            respelled f _ (readArgs fuel (.comma :: vs) >>= _)
          rw [ih.args, bind_respelled, respelled_bind]
          rfl
        | rightParen => rfl
        | _ => exact readArgument_respell ih (_ :: vs)
    | _ => rfl

end Step

/-- **Every reader reads the other spelling**, whatever its fuel. -/
theorem readsRespelled (fuel : Nat) : ReadsRespelled f fuel := by
  induction fuel with
  | zero => exact readsRespelled_zero
  | succ fuel ih =>
    exact ⟨readExpr_respell ih, readOperators_respell ih, readOperand_respell ih,
      readPrimary_respell ih, readBody_respell ih, readArgs_respell ih⟩

/-- What the tokens of a query end with, behind its expression. -/
def endQuery (r : Phrase × List Token) : Except Stop (Option Phrase) :=
  match r.2 with
  | [] => .ok (some r.1)
  | [.finish] => .ok (some r.1)
  | _ => .error .badToken

/-- Behind the expression of a query nothing is left, in either spelling. -/
theorem endQuery_respell (e : Phrase) (ts : List Token) :
    endQuery (e.respell f, ts.map (Token.respell f)) =
      (endQuery (e, ts)).map (Option.map (respell f)) := by
  cases ts with
  | nil => rfl
  | cons t ts =>
    cases t with
    | finish => cases ts <;> rfl
    | _ => rfl

/-- **The grammar reads durations in any spelling**: the phrase of a row of tokens with its durations
spelled in another way is that of the row, with the same other spellings. -/
theorem ofTokens_respell (ts : List Token) :
    ofTokens (ts.map (Token.respell f)) = (ofTokens ts).map (Option.map (respell f)) := by
  have hquery : ∀ us : List Token,
      (readExpr (8 * (us.map (Token.respell f)).length + 8) 0 (us.map (Token.respell f)) >>= endQuery) =
      (readExpr (8 * us.length + 8) 0 us >>= endQuery).map (Option.map (respell f)) := by
    intro us
    rw [List.length_map, (readsRespelled _).expr]
    cases readExpr (8 * us.length + 8) 0 us with
    | error e => rfl
    | ok r => exact endQuery_respell r.1 r.2
  cases ts with
  | nil => exact hquery []
  | cons t us =>
    cases t with
    | finish =>
      cases us with
      | nil => rfl
      | cons t us => exact hquery (.finish :: t :: us)
    | _ => exact hquery (_ :: us)

end Phrase

end PanelLint.Promql
