import PanelLint.Proofs.Promql.Readers
/-!
# Expressions on rows of tokens that differ in single operands

The readers of expressions call each other with less and less fuel.  `Readings fuel` says of all of
them at once that they do on the second row what they do on the first, and `readings` proves it by
induction on the fuel: rows that are related are equally long, so the fuel is the same on both sides.

* `reads_ofTokens`: the phrase of the second row stands in for that of the first;
* `check_of_exchange`: so a whole query is accepted when the other is.
-/

namespace PanelLint.Promql.Phrase

variable {renamed : Prop} {literal : Bool} {prev prev' ts ts' : List Token} {t t' : Token}
  {e e' : Phrase}

/-! ## 1. Modifiers after an operand -/

/-- What follows the first length of time in square brackets after `e`. -/
def readAfterSpan (e : Phrase) (span : Span) : List Token → Except Stop (Phrase × List Token)
  | .rightBracket :: ts => .ok (.range e span, ts)
  | .colon :: .rightBracket :: ts => .ok (.subquery e span none, ts)
  | .colon :: ts => do
    let (step, ts) ← readSpan followsSpan ts
    match ts with
    | .rightBracket :: ts => .ok (.subquery e span (some step), ts)
    | _ => .error .badToken
  | _ => .error .badToken

/-- Brackets that are not empty begin with a length of time. -/
theorem readBrackets_span (h : ∀ us, ts ≠ .rightBracket :: us) :
    readBrackets e ts =
      readSpan followsSpan ts >>= fun (span, ts) => readAfterSpan e span ts := by
  rw [readBrackets.eq_def]
  split
  · exact absurd rfl (h _)
  · rfl

/-- **A range or the range of a subquery**: its lengths of time may be others. -/
theorem reads_brackets (he : StandsIn False literal e e')
    (h : Exchange renamed (.leftBracket :: prev) ts ts') :
    Reads renamed false (StandsIn False literal) (readBrackets e ts)
      (readBrackets e' ts') := by
  by_cases hend : ∃ us, ts = .rightBracket :: us
  · obtain ⟨us, rfl⟩ := hend
    obtain ⟨us', rfl, htail⟩ := h.cons_kept rfl
    exact reads_ok standsIn_noRange htail
  · have hts : ∀ us, ts ≠ .rightBracket :: us := fun us hus => hend ⟨us, hus⟩
    have hts' : ∀ us, ts' ≠ .rightBracket :: us := by
      rintro us rfl
      obtain ⟨vs, rfl⟩ := h.eq_cons_of_isFixed rfl
      exact hts vs rfl
    rw [readBrackets_span hts, readBrackets_span hts']
    refine (reads_span followsSpan_eq h rfl).bind ?_
    rintro ⟨s, r⟩ ⟨s', r'⟩ ⟨hs, prev, -, hr⟩
    dsimp only at hs hr ⊢
    unfold readAfterSpan
    split
    · obtain ⟨us, rfl, htail⟩ := hr.cons_kept rfl
      exact reads_ok (he.range hs) htail
    · obtain ⟨us, rfl, hcolon⟩ := hr.cons_kept rfl
      obtain ⟨us, rfl, htail⟩ := hcolon.cons_kept rfl
      exact reads_ok (he.operand.subquery hs StepLike.none) htail
    · next hnone =>
      obtain ⟨us, rfl, hstep⟩ := hr.cons_kept rfl
      split
      · next heq => cases heq
      · next heq =>
        obtain rfl := (List.cons.inj heq).2
        obtain ⟨vs, rfl⟩ := hstep.eq_cons_of_isFixed rfl
        exact absurd rfl (hnone vs)
      · next heq =>
        obtain rfl := (List.cons.inj heq).2
        refine (reads_span followsSpan_eq hstep rfl).bind ?_
        rintro ⟨st, r⟩ ⟨st', r'⟩ ⟨hst, prev, -, hr⟩
        dsimp only at hst hr ⊢
        split
        · obtain ⟨us, rfl, htail⟩ := hr.cons_kept rfl
          exact reads_ok (he.operand.subquery hs (StepLike.some hst)) htail
        · exact carriesOver_error
      · next hcolon => exact absurd rfl (hcolon _)
    · exact carriesOver_error

/-- **An `offset`**, likewise. -/
theorem reads_offset {text : String} (he : StandsIn False literal e e')
    (h : Exchange renamed (.keyword .offset text :: prev) ts ts') :
    Reads renamed false (StandsIn False literal) (readOffset e ts)
      (readOffset e' ts') := by
  have hspan : ∀ {prev ts ts'} (negative : Bool), inSpan prev = true →
      Exchange renamed prev ts ts' →
      Reads renamed false (StandsIn False literal)
        ((readSpan followsExpr ts).map fun (d, ts) => (.offset e negative d, ts))
        ((readSpan followsExpr ts').map fun (d, ts) => (.offset e' negative d, ts)) :=
    fun negative hs h => (reads_span followsExpr_eq h hs).map fun _ _ hlike =>
      ⟨he.offset negative negative hlike.1, hlike.2⟩
  rw [readOffset.eq_def e ts]
  split
  · obtain ⟨us, rfl, htail⟩ := h.cons_kept rfl
    exact reads_ok standsIn_noOffset htail
  · obtain ⟨us, rfl, htail⟩ := h.cons_kept rfl
    exact hspan false rfl htail
  · obtain ⟨us, rfl, htail⟩ := h.cons_kept rfl
    exact hspan true rfl htail
  · next hfinish hadd hsub =>
    rw [readOffset]
    · exact hspan false rfl h
    · rintro us rfl
      obtain ⟨vs, rfl⟩ := h.eq_cons_of_isFixed rfl
      exact hfinish vs rfl
    · rintro us rfl
      obtain ⟨vs, rfl⟩ := h.eq_cons_of_isFixed rfl
      exact hadd vs rfl
    · rintro us rfl
      obtain ⟨vs, rfl⟩ := h.eq_cons_of_isFixed rfl
      exact hsub vs rfl

/-- **An `@`**, with another number perhaps. -/
theorem reads_time (he : StandsIn False literal e e')
    (h : Exchange renamed (.atSign :: prev) ts ts') :
    Reads renamed false (StandsIn False literal) (readTime e ts)
      (readTime e' ts') := by
  have hinstant : ∀ {prev ts ts'} (negative : Bool), Exchange renamed prev ts ts' →
      Reads renamed false (StandsIn False literal)
        ((readInstant negative ts).map fun r => (.atTime e r.1, r.2))
        ((readInstant negative ts').map fun r => (.atTime e' r.1, r.2)) :=
    fun negative h => (reads_instant negative h).map fun _ _ hlike =>
      ⟨he.atTime hlike.1, hlike.2⟩
  rw [readTime.eq_def e ts]
  split
  · obtain ⟨us, rfl, htail⟩ := h.cons_kept rfl
    exact reads_ok standsIn_noTime htail
  · obtain ⟨us, rfl, htail⟩ := h.cons_kept rfl
    exact hinstant false htail
  · obtain ⟨us, rfl, htail⟩ := h.cons_kept rfl
    exact hinstant true htail
  · next start _ _ =>
    obtain ⟨us, rfl, hleft⟩ := h.cons_kept rfl
    obtain ⟨us, rfl, hright⟩ := hleft.cons_kept rfl
    obtain ⟨us, rfl, htail⟩ := hright.cons_kept rfl
    exact reads_ok (he.atTime (TimePhrase.Like.same _)) htail
  · -- what is left is a number, or no time at all
    next hfinish hadd hsub hedge =>
    intro a ha
    cases ts with
    | nil => cases ha
    | cons t ts =>
      obtain ⟨t', us, prev', rfl, hswap, -, -, htail⟩ := h.cons_inv
      have hq : t.isQuantity = true := by
        cases t <;> first | rfl | cases ha
      have hnew : readTime e' (t' :: us) =
          (readInstant false (t' :: us)).map fun r => (.atTime e' r.1, r.2) := by
        rcases hswap.sound_of_isQuantity hq with rfl | ⟨text, rfl, -⟩ | ⟨rfl, -⟩
        · cases t' <;> first | rfl | cases hq
        · rfl
        · rfl
      rw [hnew]
      exact hinstant false h a ha

/-- All modifiers after an operand, by induction on the fuel: each is told by a fixed token. -/
theorem reads_postfixed (he : StandsIn False literal e e')
    (h : Exchange renamed prev ts ts') (fuel : Nat) :
    Reads renamed false (StandsIn False literal) (readPostfix fuel e ts)
      (readPostfix fuel e' ts') := by
  induction fuel generalizing prev ts ts' e e' with
  | zero => exact carriesOver_error
  | succ fuel ih =>
    rw [readPostfix.eq_def (fuel + 1) e ts]
    split
    · next heq => exact absurd heq (by simp)
    · next heq =>
      cases heq
      obtain ⟨us, rfl, htail⟩ := h.cons_kept rfl
      refine (reads_brackets he htail).bind ?_
      rintro ⟨e, r⟩ ⟨e', r'⟩ ⟨he, prev, -, hr⟩
      exact ih he hr
    · next heq =>
      cases heq
      obtain ⟨us, rfl, htail⟩ := h.cons_kept rfl
      refine (reads_offset he htail).bind ?_
      rintro ⟨e, r⟩ ⟨e', r'⟩ ⟨he, prev, -, hr⟩
      exact ih he hr
    · next heq =>
      cases heq
      obtain ⟨us, rfl, htail⟩ := h.cons_kept rfl
      refine (reads_time he htail).bind ?_
      rintro ⟨e, r⟩ ⟨e', r'⟩ ⟨he, prev, -, hr⟩
      exact ih he hr
    · next heq hbracket hoffset hat =>
      rw [readPostfix]
      · exact reads_ok he h
      · rintro us rfl
        obtain ⟨vs, rfl⟩ := h.eq_cons_of_isFixed rfl
        exact hbracket vs rfl
      · rintro text us rfl
        obtain ⟨vs, rfl⟩ := h.eq_cons_of_isFixed rfl
        exact hoffset text vs rfl
      · rintro us rfl
        obtain ⟨vs, rfl⟩ := h.eq_cons_of_isFixed rfl
        exact hat vs rfl

/-! ## 2. Operands and operators -/

/-- What is read where a part begins: a phrase that stands in for the other one, with the same
number where a function with a domain sees it. -/
abbrev ReadsPhrase (renamed : Prop) (literal : Bool) (x y : Except Stop (Phrase × List Token)) :
    Prop :=
  Reads renamed false (StandsIn False literal) x y

/-- Phrases that stand in for others one by one, wherever they are arguments. -/
def ArgumentsStandIn (literal : Bool) (ps ps' : List Phrase) : Prop :=
  ∀ due i, AllStandIn due i literal ps ps'

/-- Arguments and whether there is a comma too many. -/
abbrev ReadsBody (renamed : Prop) (literal : Bool)
    (x y : Except Stop ((List Phrase × Bool) × List Token)) : Prop :=
  Reads renamed false (fun b b' => ArgumentsStandIn literal b.1 b'.1 ∧ b'.2 = b.2) x y

/-- **All readers of expressions at once**, with some fuel. -/
structure Readings (renamed : Prop) (fuel : Nat) : Prop where
  expr : ∀ {prev ts ts'} (level : Nat), Exchange renamed prev ts ts' →
    ReadsPhrase renamed (inDomainCall prev) (readExpr fuel level ts) (readExpr fuel level ts')
  operators : ∀ {prev ts ts' literal e e'} (level : Nat), StandsIn False literal e e' →
    Exchange renamed prev ts ts' → ReadsPhrase renamed literal
      (readOperators fuel level e ts) (readOperators fuel level e' ts')
  operand : ∀ {prev ts ts'}, Exchange renamed prev ts ts' →
    ReadsPhrase renamed (inDomainCall prev) (readOperand fuel ts) (readOperand fuel ts')
  primary : ∀ {prev ts ts'}, Exchange renamed prev ts ts' →
    ReadsPhrase renamed (inDomainCall prev) (readPrimary fuel ts) (readPrimary fuel ts')
  body : ∀ {prev ts ts'}, Exchange renamed prev ts ts' →
    ReadsBody renamed (inDomainCall (.leftParen :: prev)) (readBody fuel ts) (readBody fuel ts')
  args : ∀ {prev ts ts'}, Exchange renamed prev ts ts' →
    ReadsBody renamed false (readArgs fuel ts) (readArgs fuel ts')

theorem readings_zero : Readings renamed 0 where
  expr _ _ := carriesOver_error
  operators _ _ _ := carriesOver_error
  operand _ := carriesOver_error
  primary _ := carriesOver_error
  body _ := carriesOver_error
  args _ := carriesOver_error

variable {fuel : Nat}

/-- An expression: its first operand and the operators behind it. -/
theorem reads_expr (ih : Readings renamed fuel) (level : Nat)
    (h : Exchange renamed prev ts ts') :
    ReadsPhrase renamed (inDomainCall prev) (readExpr (fuel + 1) level ts)
      (readExpr (fuel + 1) level ts') := by
  rw [readExpr, readExpr]
  refine (ih.operand h).bind ?_
  rintro ⟨e, r⟩ ⟨e', r'⟩ ⟨he, prev, -, hr⟩
  exact ih.operators level he hr

/-- An operator is told by a fixed token. -/
theorem operator_of_swap {next : List Token} (h : Swap renamed prev t t' next) :
    operator? t' = operator? t := by
  refine h.congr operator? none fun u hu => ?_
  cases u with
  | keyword word _ => cases word <;> first | rfl | exact absurd hu (by simp [Token.isFixed])
  | _ => first | rfl | exact absurd hu (by simp [Token.isFixed])

/-- The modifier behind an operator is told with whether it shares a label. -/
theorem reads_modifier_apart (h : Exchange renamed prev ts ts')
    (hlabels : renamed → sharesLabel ts' = false) :
    Reads renamed false
      (fun m m' => ModifierPhrase.Like renamed m m' ∧ (renamed → m'.sharesLabel = false))
      (readModifier ts) (readModifier ts') := by
  intro a ha
  obtain ⟨b, hb, hm, hrest⟩ := reads_modifier h a ha
  refine ⟨b, hb, ⟨hm, fun hr => ?_⟩, hrest⟩
  have hshares := hlabels hr
  unfold sharesLabel at hshares
  rwa [hb] at hshares

/-- **The operators after an operand.** The level that each binds at is that of a fixed token, so both
sides group alike. -/
theorem reads_operators (ih : Readings renamed fuel) (level : Nat)
    (he : StandsIn False literal e e') (h : Exchange renamed prev ts ts') :
    ReadsPhrase renamed literal (readOperators (fuel + 1) level e ts)
      (readOperators (fuel + 1) level e' ts') := by
  cases ts with
  | nil =>
    cases h
    exact reads_ok he (Exchange.nil : Exchange renamed prev [] [])
  | cons t ts =>
    obtain ⟨t', us, prev', rfl, hswap, -, hlabels, htail⟩ := h.cons_inv
    rw [readOperators, readOperators, operator_of_swap hswap]
    cases operator? t with
    | none => exact reads_ok he h
    | some op =>
      dsimp only
      split
      · exact reads_ok he h
      · refine (reads_modifier_apart htail hlabels).bind ?_
        rintro ⟨m, r⟩ ⟨m', r'⟩ ⟨⟨hm, hapart⟩, prev, -, hr⟩
        refine (ih.expr op.rightPrecedence hr).bind ?_
        rintro ⟨right, r⟩ ⟨right', r'⟩ ⟨hright, prev, -, hr⟩
        refine ih.operators level ?_ hr
        exact (he.operand.weaken id (by simp)).binary op (carriesOver_modifier hm hapart)
          (hright.operand.weaken id (by simp))

/-- **An operand**: a sign is a fixed token, and so is each of its modifiers. -/
theorem reads_operand (ih : Readings renamed fuel) (h : Exchange renamed prev ts ts') :
    ReadsPhrase renamed (inDomainCall prev) (readOperand (fuel + 1) ts)
      (readOperand (fuel + 1) ts') := by
  rw [readOperand.eq_def (fuel + 1) ts]
  split
  · next heq => exact absurd heq (by simp)
  · next heq =>
    cases heq
    obtain ⟨us, rfl, htail⟩ := h.cons_kept rfl
    refine (ih.expr Operator.pow.precedence htail).bind ?_
    rintro ⟨e, r⟩ ⟨e', r'⟩ ⟨he, prev, -, hr⟩
    exact reads_ok he.plus hr
  · next heq =>
    cases heq
    obtain ⟨us, rfl, htail⟩ := h.cons_kept rfl
    refine (ih.expr Operator.pow.precedence htail).bind ?_
    rintro ⟨e, r⟩ ⟨e', r'⟩ ⟨he, prev, -, hr⟩
    exact reads_ok he.operand.minus hr
  · next heq hadd hsub =>
    cases heq
    rw [readOperand]
    · refine (ih.primary h).bind ?_
      rintro ⟨e, r⟩ ⟨e', r'⟩ ⟨he, prev, -, hr⟩
      dsimp only at he hr ⊢
      rw [hr.length]
      exact reads_postfixed he hr _
    · rintro us rfl
      obtain ⟨vs, rfl⟩ := h.eq_cons_of_isFixed rfl
      exact hadd vs rfl
    · rintro us rfl
      obtain ⟨vs, rfl⟩ := h.eq_cons_of_isFixed rfl
      exact hsub vs rfl

/-! ## 3. Primary expressions -/

/-- What opens no body is no parenthesis. -/
theorem ne_leftParen_of_opensBody (hbody : opensBody ts = false) (us : List Token) :
    ts ≠ .leftParen :: us := by
  rintro rfl
  exact absurd hbody (by simp [opensBody, Token.opensBody])

/-- An identifier that no parenthesis follows is a selector. -/
theorem readPrimary_identifier (fuel : Nat) (name : String) (hbody : opensBody ts = false) :
    readPrimary (fuel + 1) (.identifier name :: ts) = readSelector (some name) ts := by
  rw [readPrimary]
  exact ne_leftParen_of_opensBody hbody

/-- A name that no parentheses and no grouping follow is a selector. -/
theorem readPrimary_name (fuel : Nat) (hname : t.IsName) (hbody : opensBody ts = false) :
    ∃ name, readPrimary (fuel + 1) (t :: ts) = readSelector (some name) ts := by
  have hgrouping : ∀ keeps text us, ts ≠ .keyword (.grouping keeps) text :: us := by
    rintro keeps text us rfl
    exact absurd hbody (by simp [opensBody, Token.opensBody])
  cases hname with
  | identifier name _ _ => exact ⟨name, readPrimary_identifier fuel name hbody⟩
  | aggregation op text _ =>
    refine ⟨text, ?_⟩
    rw [readPrimary]
    · exact hgrouping
    · exact ne_leftParen_of_opensBody hbody

/-- A quantity becomes another one. -/
theorem reads_quantity {s : Span} (h : Exchange renamed prev (t :: ts) ts')
    (hq : t.isQuantity = true)
    (hs : ∀ us, readPrimary (fuel + 1) (t :: us) = .ok (.number s, us)) :
    ReadsPhrase renamed (inDomainCall prev) (.ok (.number s, ts))
      (readPrimary (fuel + 1) ts') := by
  obtain ⟨t', us, prev', rfl, hswap, -, -, htail⟩ := h.cons_inv
  cases hswap with
  | same =>
    rw [hs]
    exact reads_ok (standsIn_refl _) htail
  | span _ hdomain hsound =>
    rw [hdomain, readPrimary]
    exact reads_ok (standsIn_sound s hsound) htail
  | scalar _ hdomain _ =>
    rw [hdomain, readPrimary]
    exact reads_ok (standsIn_sound s isSound_one) htail
  | label _ _ _ => cases hq
  | renamed _ hname _ _ _ => cases t <;> simp [Token.isQuantity, Token.isNamed] at hq hname
  | metric _ => cases hq

/-- A name that may become another one is read as a selector. -/
theorem reads_named {name : String} (h : Exchange renamed prev (t :: ts) ts')
    (hn : t.isNamed = true)
    (hs : ∀ {prev us}, Exchange renamed prev ts us →
      readPrimary (fuel + 1) (t :: us) = readSelector (some name) us) :
    ReadsPhrase renamed literal (readSelector (some name) ts)
      (readPrimary (fuel + 1) ts') := by
  obtain ⟨t', us, prev', rfl, hswap, -, -, htail⟩ := h.cons_inv
  cases hswap with
  | same =>
    rw [hs htail]
    exact reads_selector rfl htail
  | span hq _ => cases t <;> simp [Token.isQuantity, Token.isNamed] at hq hn
  | scalar hq _ _ => cases t <;> simp [Token.isQuantity, Token.isNamed] at hq hn
  | @label _ name' _ _ _ hbody =>
    rw [← htail.opensBody_eq] at hbody
    rw [readPrimary_identifier fuel name' hbody]
    exact reads_selector rfl htail
  | renamed _ _ hname _ hbody =>
    rw [← htail.opensBody_eq] at hbody
    obtain ⟨name', hnew⟩ := readPrimary_name fuel hname hbody
    rw [hnew]
    exact reads_selector rfl htail
  | metric _ =>
    rw [readPrimary]
    exact reads_selector rfl htail

theorem reads_parens (ih : Readings renamed fuel)
    (h : Exchange renamed prev (.leftParen :: ts) ts') :
    ReadsPhrase renamed (inDomainCall prev) (readPrimary (fuel + 1) (.leftParen :: ts))
      (readPrimary (fuel + 1) ts') := by
  obtain ⟨us, rfl, htail⟩ := h.cons_kept rfl
  rw [readPrimary, readPrimary]
  refine (ih.expr 0 htail).bind ?_
  rintro ⟨e, r⟩ ⟨e', r'⟩ ⟨he, prev, -, hr⟩
  dsimp only at he hr ⊢
  split
  · obtain ⟨us, rfl, hend⟩ := hr.cons_kept rfl
    exact reads_ok he.operand.paren hend
  · exact carriesOver_error

/-- The name of a function is never exchanged. -/
theorem reads_call (ih : Readings renamed fuel) {name : String}
    (h : Exchange renamed prev (.identifier name :: .leftParen :: ts) ts') :
    ReadsPhrase renamed (inDomainCall prev)
      (readPrimary (fuel + 1) (.identifier name :: .leftParen :: ts))
      (readPrimary (fuel + 1) ts') := by
  obtain ⟨t', us, prev', rfl, hswap, hpassed, -, hparen⟩ := h.cons_inv
  obtain rfl := hpassed.eq_of_opensBody rfl
  cases hswap with
  | span hq _ => cases hq
  | scalar hq _ _ => cases hq
  | label _ _ hbody => cases hbody
  | renamed _ _ _ _ hbody => cases hbody
  | same =>
    obtain ⟨us, rfl, htail⟩ := hparen.cons_kept rfl
    rw [readPrimary, readPrimary]
    refine (ih.body hparen).bind ?_
    rintro ⟨⟨args, extra⟩, r⟩ ⟨⟨args', extra'⟩, r'⟩ ⟨⟨hargs, rfl⟩, prev, -, hr⟩
    exact reads_ok (AllStandIn.call _ (hargs _ _)) hr

/-- An aggregation with its grouping before the arguments. -/
theorem reads_aggregation_grouped (ih : Readings renamed fuel) {op : Aggregation}
    {keeps : Bool} {text word : String}
    (h : Exchange renamed prev
      (.keyword (.aggregation op) text :: .keyword (.grouping keeps) word :: ts) ts') :
    ReadsPhrase renamed literal
      (readPrimary (fuel + 1)
        (.keyword (.aggregation op) text :: .keyword (.grouping keeps) word :: ts))
      (readPrimary (fuel + 1) ts') := by
  obtain ⟨us, prev', rfl, hgrouping⟩ := h.cons_aggregation
  obtain ⟨us, rfl, htail⟩ := hgrouping.cons_kept rfl
  rw [readPrimary, readPrimary]
  refine (reads_labels htail).bind ?_
  rintro ⟨ls, r⟩ ⟨ls', r'⟩ ⟨hls, prev, -, hr⟩
  refine (ih.body hr).bind ?_
  rintro ⟨⟨args, extra⟩, r⟩ ⟨⟨args', extra'⟩, r'⟩ ⟨⟨hargs, rfl⟩, prev, -, hr⟩
  exact reads_ok (((hargs _ _).weaken (by simp)).aggregate _ _
    (carriesOver_grouping _ hls)) hr

/-- An aggregation with its arguments first. -/
theorem reads_aggregation (ih : Readings renamed fuel) {op : Aggregation} {text : String}
    (h : Exchange renamed prev (.keyword (.aggregation op) text :: .leftParen :: ts) ts') :
    ReadsPhrase renamed literal
      (readPrimary (fuel + 1) (.keyword (.aggregation op) text :: .leftParen :: ts))
      (readPrimary (fuel + 1) ts') := by
  obtain ⟨us, prev', rfl, hparen⟩ := h.cons_aggregation
  obtain ⟨us, rfl, htail⟩ := hparen.cons_kept rfl
  rw [readPrimary, readPrimary]
  refine (ih.body hparen).bind ?_
  rintro ⟨⟨args, extra⟩, r⟩ ⟨⟨args', extra'⟩, r'⟩ ⟨⟨hargs, rfl⟩, prev, -, hr⟩
  dsimp only at hargs hr ⊢
  split
  · obtain ⟨us, rfl, htail⟩ := hr.cons_kept rfl
    refine (reads_labels htail).bind ?_
    rintro ⟨ls, r⟩ ⟨ls', r'⟩ ⟨hls, prev, -, hr⟩
    exact reads_ok (((hargs _ _).weaken (by simp)).aggregate _ _
      (carriesOver_grouping _ hls)) hr
  · next hnone =>
    split
    · obtain ⟨us, rfl⟩ := hr.eq_cons_of_isFixed rfl
      exact absurd rfl (hnone _ _ us)
    · exact reads_ok (((hargs _ _).weaken (by simp)).aggregate _ _ (carriesOver_ok trivial)) hr

/-- **A primary expression**, by its first token; each kind that goes on reading has a lemma above. -/
theorem reads_primary (ih : Readings renamed fuel) (h : Exchange renamed prev ts ts') :
    ReadsPhrase renamed (inDomainCall prev) (readPrimary (fuel + 1) ts)
      (readPrimary (fuel + 1) ts') := by
  rw [readPrimary.eq_def (fuel + 1) ts]
  split
  · next heq => exact absurd heq (by simp)
  · next heq =>
    cases heq
    exact reads_quantity h rfl fun us => by rw [readPrimary]
  · next heq =>
    cases heq
    exact reads_quantity h rfl fun us => by rw [readPrimary]
  · next heq =>
    cases heq
    obtain ⟨us, rfl, htail⟩ := h.cons_kept rfl
    rw [readPrimary]
    exact reads_ok (standsIn_refl _) htail
  · next heq =>
    cases heq
    exact reads_parens ih h
  · next heq =>
    cases heq
    exact reads_call ih h
  · next hparen heq =>
    cases heq
    refine reads_named h rfl fun htail => ?_
    rw [readPrimary]
    rintro vs rfl
    obtain ⟨ws, rfl⟩ := htail.eq_cons_of_isFixed rfl
    exact hparen ws rfl
  · next heq =>
    cases heq
    exact reads_named h rfl fun _ => by rw [readPrimary]
  · next heq =>
    cases heq
    obtain ⟨us, rfl, htail⟩ := h.cons_kept rfl
    rw [readPrimary]
    exact reads_selector rfl h
  · next heq =>
    cases heq
    exact reads_aggregation_grouped ih h
  · next heq =>
    cases heq
    exact reads_aggregation ih h
  · next hgrouping hparen heq =>
    cases heq
    obtain ⟨us, prev', rfl, htail⟩ := h.cons_aggregation
    rw [readPrimary]
    · exact reads_selector rfl htail
    · rintro keeps text vs rfl
      obtain ⟨ws, rfl⟩ := htail.eq_cons_of_isFixed rfl
      exact hgrouping keeps text ws rfl
    · rintro vs rfl
      obtain ⟨ws, rfl⟩ := htail.eq_cons_of_isFixed rfl
      exact hparen ws rfl
  · next heq =>
    cases heq
    obtain ⟨us, rfl, htail⟩ := h.cons_kept rfl
    rw [readPrimary]
    exact reads_selector rfl htail
  · next heq =>
    cases heq
    obtain ⟨us, rfl, htail⟩ := h.cons_kept rfl
    rw [readPrimary]
    split
    · exact reads_selector rfl htail
    · exact carriesOver_error
  · next heq =>
    cases heq
    obtain ⟨us, rfl, htail⟩ := h.cons_kept rfl
    rw [readPrimary]
    exact reads_selector rfl htail
  · next heq =>
    cases heq
    obtain ⟨us, rfl, htail⟩ := h.cons_kept rfl
    rw [readPrimary]
    exact reads_selector rfl htail
  · exact carriesOver_error

/-! ## 4. Arguments -/

/-- Arguments that are not empty have a first one. -/
theorem readBody_expr (h : ∀ us, ts ≠ .rightParen :: us) :
    readBody (fuel + 1) (.leftParen :: ts) =
      readExpr fuel 0 ts >>= fun (e, ts) => readArgs fuel ts >>= fun ((es, extra), ts) =>
        .ok ((e :: es, extra), ts) := by
  rw [readBody]
  · exact h

/-- One more argument in front. -/
theorem reads_argument (ih : Readings renamed fuel)
    (h : Exchange renamed prev ts ts') :
    ReadsBody renamed (inDomainCall prev)
      (readExpr fuel 0 ts >>= fun (e, ts) => readArgs fuel ts >>= fun ((es, extra), ts) =>
        .ok ((e :: es, extra), ts))
      (readExpr fuel 0 ts' >>= fun (e, ts) => readArgs fuel ts >>= fun ((es, extra), ts) =>
        .ok ((e :: es, extra), ts)) := by
  refine (ih.expr 0 h).bind ?_
  rintro ⟨e, r⟩ ⟨e', r'⟩ ⟨he, prev, -, hr⟩
  refine (ih.args hr).bind ?_
  rintro ⟨⟨es, extra⟩, r⟩ ⟨⟨es', extra'⟩, r'⟩ ⟨⟨hes, rfl⟩, prev, -, hr⟩
  refine reads_ok ⟨fun due i => ?_, rfl⟩ hr
  exact (he.operand.weaken False.elim id).cons (hes due (i + 1))

/-- Arguments in parentheses: none, or a first one and the rest. -/
theorem reads_body (ih : Readings renamed fuel) (h : Exchange renamed prev ts ts') :
    ReadsBody renamed (inDomainCall (.leftParen :: prev)) (readBody (fuel + 1) ts)
      (readBody (fuel + 1) ts') := by
  rw [readBody.eq_def (fuel + 1) ts]
  split
  · next heq => exact absurd heq (by simp)
  · next heq =>
    cases heq
    obtain ⟨us, rfl, hparen⟩ := h.cons_kept rfl
    obtain ⟨us, rfl, htail⟩ := hparen.cons_kept rfl
    rw [readBody]
    exact reads_ok ⟨fun _ _ => allStandIn_nil, rfl⟩ htail
  · next hnone heq =>
    cases heq
    obtain ⟨us, rfl, htail⟩ := h.cons_kept rfl
    rw [readBody_expr]
    · exact reads_argument ih htail
    · rintro vs rfl
      obtain ⟨ws, rfl⟩ := htail.eq_cons_of_isFixed rfl
      exact hnone ws rfl
  · exact carriesOver_error

/-- The arguments behind one: the end, a comma too many, or another argument. -/
theorem reads_args (ih : Readings renamed fuel) (h : Exchange renamed prev ts ts') :
    ReadsBody renamed false (readArgs (fuel + 1) ts) (readArgs (fuel + 1) ts') := by
  rw [readArgs.eq_def (fuel + 1) ts]
  split
  · next heq => exact absurd heq (by simp)
  · next heq =>
    cases heq
    obtain ⟨us, rfl, htail⟩ := h.cons_kept rfl
    rw [readArgs]
    exact reads_ok ⟨fun _ _ => allStandIn_nil, rfl⟩ htail
  · next heq =>
    cases heq
    obtain ⟨us, rfl, hcomma⟩ := h.cons_kept rfl
    obtain ⟨us, rfl, htail⟩ := hcomma.cons_kept rfl
    rw [readArgs]
    refine (ih.args hcomma).bind ?_
    rintro ⟨⟨es, extra⟩, r⟩ ⟨⟨es', extra'⟩, r'⟩ ⟨⟨hes, rfl⟩, prev, -, hr⟩
    exact reads_ok ⟨hes, rfl⟩ hr
  · next heq =>
    cases heq
    obtain ⟨us, rfl, hcomma⟩ := h.cons_kept rfl
    obtain ⟨us, rfl, htail⟩ := hcomma.cons_kept rfl
    rw [readArgs]
    exact reads_ok ⟨fun _ _ => allStandIn_nil, rfl⟩ htail
  · next hcomma hparen heq =>
    cases heq
    obtain ⟨us, rfl, htail⟩ := h.cons_kept rfl
    have hnew : readArgs (fuel + 1) (.comma :: us) =
        readExpr fuel 0 us >>= fun (e, ts) => readArgs fuel ts >>= fun ((es, extra), ts) =>
          .ok ((e :: es, extra), ts) := by
      rw [readArgs]
      · rintro vs rfl
        obtain ⟨ws, rfl⟩ := htail.eq_cons_of_isFixed rfl
        exact hcomma ws rfl
      · rintro vs rfl
        obtain ⟨ws, rfl⟩ := htail.eq_cons_of_isFixed rfl
        exact hparen ws rfl
    rw [hnew]
    exact reads_argument ih htail
  · exact carriesOver_error

/-! ## 5. Queries -/

/-- **All readers of expressions at once**, by induction on the fuel. -/
theorem readings (fuel : Nat) : Readings renamed fuel := by
  induction fuel with
  | zero => exact readings_zero
  | succ fuel ih =>
    exact ⟨reads_expr ih, reads_operators ih, reads_operand ih, reads_primary ih, reads_body ih,
      reads_args ih⟩

/-- The phrases of whole queries: both have none, or one stands in for the other. -/
inductive QueryLike : Option Phrase → Option Phrase → Prop
  | none : QueryLike none none
  | some {p p' : Phrase} : StandsIn False false p p' → QueryLike (some p) (some p')

/-- **The phrase of the second row stands in for that of the first.** -/
theorem reads_ofTokens (h : Exchange renamed [] ts ts') :
    CarriesOver QueryLike (ofTokens ts) (ofTokens ts') := by
  by_cases hfinish : ts = [.finish]
  · subst hfinish
    obtain ⟨us, rfl, htail⟩ := h.cons_kept rfl
    cases htail
    exact carriesOver_ok QueryLike.none
  · have hfinish' : ts' ≠ [.finish] := by
      rintro rfl
      obtain ⟨us, rfl⟩ := h.eq_cons_of_isFixed rfl
      have hlength := h.length
      simp only [List.length_cons, List.length_nil, Nat.zero_add] at hlength
      obtain rfl : us = [] := List.length_eq_zero_iff.mp (by omega)
      exact hfinish rfl
    rw [ofTokens.eq_def ts, ofTokens.eq_def ts']
    split
    · exact absurd rfl hfinish
    rw [h.length]
    refine ((readings (8 * ts.length + 8)).expr 0 h).bind ?_
    rintro ⟨e, r⟩ ⟨e', r'⟩ ⟨he, prev, -, hr⟩
    dsimp only at he hr ⊢
    split
    · cases hr
      exact carriesOver_ok (QueryLike.some (he.weaken id (by simp)))
    · obtain ⟨us, rfl, htail⟩ := hr.cons_kept rfl
      cases htail
      exact carriesOver_ok (QueryLike.some (he.weaken id (by simp)))
    · exact carriesOver_error

/-- **A query accepted in one spelling is accepted in the other.** -/
theorem check_of_exchange {p : Phrase} {a : Expr} (h : Exchange renamed [] ts ts')
    (hp : ofTokens ts = .ok (some p)) (ha : p.check = .ok a) :
    ∃ p' a', ofTokens ts' = .ok (some p') ∧ p'.check = .ok a' := by
  obtain ⟨q, hq, hlike⟩ := reads_ofTokens h _ hp
  cases hlike with
  | some hstands =>
    obtain ⟨a', ha', -⟩ := hstands a ha
    exact ⟨_, a', hq, ha'⟩

end PanelLint.Promql.Phrase
