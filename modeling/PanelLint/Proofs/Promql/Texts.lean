import PanelLint.Proofs.Promql.Endless
import PanelLint.Proofs.Promql.Sources
/-!
# The texts of a phrase

A phrase is put together from the texts of tokens: names, labels, numbers, durations and the insides
of string literals.  No reader of the grammar makes up a text.  `PassesOn` says this of what a reader
gives and of what it leaves, so it passes from the readers of the parts to those of the whole.

* `readings_pass`: the readers of expressions, by induction on their fuel;
* `texts_ofTokens`: what holds of the texts of all tokens holds of those of their phrase.
-/

namespace PanelLint.Promql

/-! ## 1. Texts -/

/-- The text of a length of time. -/
@[simp] def Span.text : Span → String
  | .units text | .seconds text => text

/-- The texts of a matcher. -/
@[simp] def MatcherPhrase.texts : MatcherPhrase → List String
  | .complete label _ value => [label, value]
  | .twoOperators _ => []
  | .bareValue value => [value]
  | .nameOnly name => [name]

/-- The texts between braces. -/
@[simp] def MatchersPhrase.texts : MatchersPhrase → List String
  | .list first rest => first.texts ++ rest.flatMap fun m => m.2.texts
  | _ => []

/-- The labels of a modifier. -/
@[simp] def ModifierPhrase.texts : ModifierPhrase → List String
  | .matching _ _ labels none => labels
  | .matching _ _ labels (some (_, extra)) => labels ++ extra
  | _ => []

/-- The text of a time. -/
@[simp] def TimePhrase.texts : TimePhrase → List String
  | .fixed _ number => [number.text]
  | .edge _ => []

mutual

/-- **The texts of a phrase.** -/
@[simp] def Phrase.texts : Phrase → List String
  | .number span => [span.text]
  | .string text => [text]
  | .vector name matchers => name.toList ++ (matchers.map MatchersPhrase.texts).getD []
  | .paren e | .plus e | .minus e | .noRange e | .noOffset e | .noTime e => e.texts
  | .binary _ modifier l r => modifier.texts ++ l.texts ++ r.texts
  | .call name args _ => name :: Phrase.allTexts args
  | .aggregate _ grouping args _ => (grouping.map (·.labels)).getD [] ++ Phrase.allTexts args
  | .range e span => span.text :: e.texts
  | .subquery e span step => span.text :: (step.map Span.text).toList ++ e.texts
  | .offset e _ span => span.text :: e.texts
  | .atTime e time => time.texts ++ e.texts

/-- The texts of several phrases. -/
@[simp] def Phrase.allTexts : List Phrase → List String
  | [] => []
  | p :: ps => p.texts ++ Phrase.allTexts ps

end

variable {α β : Type} {P : String → Prop} {ts us : List Token} {f : α → List String}
  {g : β → List String}

/-- All texts of some tokens have a property. -/
def AllTexts (P : String → Prop) (ts : List Token) : Prop := ∀ t ∈ ts, ∀ text ∈ t.text?, P text

/-- Tokens have a property if the first one has and the others have. -/
@[simp] theorem allTexts_cons {t : Token} :
    AllTexts P (t :: ts) ↔ (∀ text ∈ t.text?, P text) ∧ AllTexts P ts := List.forall_mem_cons

/-! ## 2. Readers that make up no text -/

/-- **A reader makes up no text**: if all tokens that it is given have a property, so have the texts
of what it gives and the tokens that it leaves. -/
def PassesOn (P : String → Prop) (f : α → List String) (x : Except Stop (α × List Token)) : Prop :=
  ∀ a rest, x = .ok (a, rest) → (∀ s ∈ f a, P s) ∧ AllTexts P rest

/-- A result is what its texts and the tokens that are left make it. -/
theorem passes_ok {a : α} (ha : ∀ s ∈ f a, P s) (h : AllTexts P us) : PassesOn P f (.ok (a, us)) := by
  rintro _ _ ⟨⟩
  exact ⟨ha, h⟩

/-- A reader that refuses gives no texts at all. -/
theorem passes_error {e : Stop} : PassesOn P f (.error e) := fun _ _ h => nomatch h

/-- **A reader made of two makes up no text if neither does**: the second one starts from what the first
one gives and leaves. -/
theorem PassesOn.bind {x : Except Stop (α × List Token)}
    {k : α × List Token → Except Stop (β × List Token)} (h : PassesOn P f x)
    (hk : ∀ a rest, (∀ s ∈ f a, P s) → AllTexts P rest → PassesOn P g (k (a, rest))) :
    PassesOn P g (x >>= k) := by
  cases x with
  | error e => exact passes_error
  | ok r => exact hk r.1 r.2 (h r.1 r.2 rfl).1 (h r.1 r.2 rfl).2

theorem PassesOn.map {x : Except Stop (α × List Token)} {k : α × List Token → β × List Token}
    (h : PassesOn P f x) (hrest : ∀ r, (k r).2 = r.2)
    (hk : ∀ r, (∀ s ∈ f r.1, P s) → ∀ s ∈ g (k r).1, P s) : PassesOn P g (x.map k) := by
  cases x with
  | error e => exact passes_error
  | ok r =>
    obtain ⟨ha, hr⟩ := h r.1 r.2 rfl
    exact passes_ok (hk r ha) (by rwa [hrest r])

namespace Phrase

/-! ## 3. Labels, matchers and modifiers -/

/-- A label is the text of its token, whether that is a name or a keyword. -/
theorem text?_of_label? {t : Token} {l : String} (h : label? t = some l) : t.text? = some l := by
  unfold label? at h
  split at h
  · exact h
  · exact h
  · exact h
  · cases h

/-- Labels behind the first one, with a comma before each and perhaps one at the end. -/
theorem passes_labelsRest (h : AllTexts P ts) : PassesOn P id (readLabelsRest ts) := by
  fun_induction readLabelsRest ts with
  | case1 ts => exact passes_ok (by simp) (by simp_all)
  | case2 ts => exact passes_ok (by simp) (by simp_all)
  | case3 t ts _ l hl ih =>
    simp only [allTexts_cons, text?_of_label? hl] at h
    refine (ih h.2.2).map (fun _ => rfl) fun r hr => ?_
    exact List.forall_mem_cons.mpr ⟨h.2.1 l rfl, hr⟩
  | case4 => exact passes_error
  | case5 => exact passes_error

theorem passes_labels (h : AllTexts P ts) : PassesOn P id (readLabels ts) := by
  unfold readLabels
  split
  · exact passes_ok (by simp) (by simp_all)
  · split
    · next hl =>
      simp only [allTexts_cons, text?_of_label? hl] at h
      refine (passes_labelsRest h.2.2).map (fun _ => rfl) fun r hr => ?_
      exact List.forall_mem_cons.mpr ⟨h.2.1 _ rfl, hr⟩
    · exact passes_error
  · exact passes_error

theorem passes_groupLabels (h : AllTexts P ts) : PassesOn P id (readGroupLabels ts) := by
  unfold readGroupLabels
  split
  · exact passes_labels h
  · exact passes_ok (by simp) h

/-- What is dropped behind two operators takes no texts along. -/
theorem allTexts_dropValue (h : AllTexts P ts) : AllTexts P (dropValue ts) := by
  unfold dropValue
  split <;> simp_all

/-- A matcher has the texts of its name and of its value; with two operators in a row the value is
dropped. -/
theorem passes_matcherValue {name : String} (hname : P name) (op : MatchOperator)
    (h : AllTexts P ts) : PassesOn P MatcherPhrase.texts (readMatcherValue name op ts) := by
  unfold readMatcherValue
  split
  · exact passes_ok (by simp_all) (by simp_all)
  · exact passes_ok (by simp_all) (by simp_all)
  · split
    · exact passes_ok (by simp) (allTexts_dropValue (allTexts_cons.mp h).2)
    · exact passes_error
  · exact passes_error

theorem passes_matcher (h : AllTexts P ts) : PassesOn P MatcherPhrase.texts (readMatcher ts) := by
  unfold readMatcher
  split
  · split
    · exact passes_matcherValue (by simp_all) _ (by simp_all)
    · exact passes_ok (by simp_all) (by simp_all)
  · exact passes_error

/-- Further matchers are read one by one, with a comma or `or` before each. -/
theorem passes_matchersRest (fuel : Nat) (h : AllTexts P ts) :
    PassesOn P (fun ms => ms.flatMap fun m => m.2.texts) (readMatchersRest fuel ts) := by
  induction fuel generalizing ts with
  | zero => exact passes_error
  | succ fuel ih =>
    rw [readMatchersRest.eq_def]
    split
    · exact passes_error
    · exact passes_ok (by simp) (by simp_all)
    · exact passes_ok (by simp) (by simp_all)
    · next heq =>
      cases heq
      refine (passes_matcher (allTexts_cons.mp h).2).bind fun m rest hm hrest => ?_
      refine (ih hrest).bind fun ms rest hms hrest => passes_ok ?_ hrest
      exact List.forall_mem_append.mpr ⟨hm, hms⟩
    · next heq =>
      cases heq
      refine (passes_matcher (allTexts_cons.mp h).2).bind fun m rest hm hrest => ?_
      refine (ih hrest).bind fun ms rest hms hrest => passes_ok ?_ hrest
      exact List.forall_mem_append.mpr ⟨hm, hms⟩
    · exact passes_error

theorem passes_matchers (h : AllTexts P ts) : PassesOn P MatchersPhrase.texts (readMatchers ts) := by
  unfold readMatchers
  split
  · exact passes_ok (by simp) (by simp_all)
  · exact passes_ok (by simp) (by simp_all)
  · refine (passes_matcher h).bind fun m rest hm hrest => ?_
    refine (passes_matchersRest _ hrest).bind fun ms rest hms hrest => passes_ok ?_ hrest
    exact List.forall_mem_append.mpr ⟨hm, hms⟩

/-- A match has its own labels and those of its group. -/
theorem passes_matching (bool on : Bool) (h : AllTexts P ts) :
    PassesOn P ModifierPhrase.texts (readMatching bool on ts) := by
  unfold readMatching
  refine (passes_labels h).bind fun labels rest hlabels hrest => ?_
  dsimp only
  split
  · refine (passes_groupLabels (allTexts_cons.mp hrest).2).bind fun group rest hgroup hrest => ?_
    exact passes_ok (List.forall_mem_append.mpr ⟨hlabels, hgroup⟩) hrest
  · exact passes_ok hlabels hrest

theorem passes_modifier (h : AllTexts P ts) :
    PassesOn P ModifierPhrase.texts (readModifier ts) := by
  unfold readModifier
  split
  · exact passes_matching _ _ (by simp_all)
  · exact passes_ok (by simp) (by simp_all)
  · exact passes_matching _ _ (by simp_all)
  · refine (passes_labels ?_).map (fun _ => rfl) fun r hr => by simp
    exact (allTexts_cons.mp h).2
  · exact passes_ok (by simp) h

/-- A selector has the text of its name, if it has one, and those of its matchers. -/
theorem passes_selector {name : Option String} (hname : ∀ n ∈ name, P n) (h : AllTexts P ts) :
    PassesOn P Phrase.texts (readSelector name ts) := by
  unfold readSelector
  split
  · refine (passes_matchers (allTexts_cons.mp h).2).map (fun _ => rfl) fun r hr => ?_
    exact List.forall_mem_append.mpr ⟨by simpa using hname, hr⟩
  · exact passes_ok (by simpa using hname) h

/-! ## 4. Lengths of time and modifiers of an operand

A modifier is read onto a phrase, so the texts of that phrase are asked to have the property too. -/

/-- A length of time is one token. -/
theorem passes_span {follows : List Token → Bool} (h : AllTexts P ts) :
    PassesOn P (fun span => [span.text]) (readSpan follows ts) := by
  unfold readSpan
  split
  · exact passes_ok (by simp_all) (by simp_all)
  · split
    · exact passes_error
    split
    · exact passes_error
    · exact passes_ok (by simp_all) (by simp_all)
  · exact passes_error

theorem passes_instant (negative : Bool) (h : AllTexts P ts) :
    PassesOn P TimePhrase.texts (readInstant negative ts) := by
  unfold readInstant
  split
  · exact passes_ok (by simp_all) (by simp_all)
  · exact passes_ok (by simp_all) (by simp_all)
  · exact passes_error

variable {e : Phrase}

/-- In brackets there are one or two lengths of time. -/
theorem passes_brackets (he : ∀ s ∈ e.texts, P s) (h : AllTexts P ts) :
    PassesOn P Phrase.texts (readBrackets e ts) := by
  unfold readBrackets
  split
  · exact passes_ok he (by simp_all)
  refine (passes_span h).bind fun span rest hspan hrest => ?_
  dsimp only
  split
  · exact passes_ok (by simp_all) (by simp_all)
  · exact passes_ok (by simp_all) (by simp_all)
  · refine (passes_span (allTexts_cons.mp hrest).2).bind fun step rest hstep hrest => ?_
    dsimp only
    split
    · exact passes_ok (by simp_all) (by simp_all)
    · exact passes_error
  · exact passes_error

theorem passes_offset (he : ∀ s ∈ e.texts, P s) (h : AllTexts P ts) :
    PassesOn P Phrase.texts (readOffset e ts) := by
  have hspan (negative : Bool) {us : List Token} (hus : AllTexts P us) : PassesOn P Phrase.texts
      ((readSpan followsExpr us).map fun r => (.offset e negative r.1, r.2)) := by
    refine (passes_span hus).map (fun _ => rfl) fun r hr => ?_
    exact List.forall_mem_cons.mpr ⟨hr _ List.mem_cons_self, he⟩
  unfold readOffset
  split
  · exact passes_ok he (by simp_all)
  · exact hspan false (allTexts_cons.mp h).2
  · exact hspan true (allTexts_cons.mp h).2
  · exact hspan false h

theorem passes_time (he : ∀ s ∈ e.texts, P s) (h : AllTexts P ts) :
    PassesOn P Phrase.texts (readTime e ts) := by
  have htime (negative : Bool) {us : List Token} (hus : AllTexts P us) : PassesOn P Phrase.texts
      ((readInstant negative us).map fun r => (.atTime e r.1, r.2)) := by
    refine (passes_instant negative hus).map (fun _ => rfl) fun r hr => ?_
    exact List.forall_mem_append.mpr ⟨hr, he⟩
  unfold readTime
  split
  · exact passes_ok he (by simp_all)
  · exact htime false (allTexts_cons.mp h).2
  · exact htime true (allTexts_cons.mp h).2
  · exact passes_ok he (by simp_all)
  · exact htime false h

/-- Modifiers put further texts beside those of the phrase that they follow. -/
theorem passes_postfixed (fuel : Nat) (he : ∀ s ∈ e.texts, P s) (h : AllTexts P ts) :
    PassesOn P Phrase.texts (readPostfix fuel e ts) := by
  induction fuel generalizing e ts with
  | zero => exact passes_error
  | succ fuel ih =>
    rw [readPostfix.eq_def]
    split
    · exact passes_error
    · next heq =>
      cases heq
      exact (passes_brackets he (allTexts_cons.mp h).2).bind fun e rest he hrest => ih he hrest
    · next heq =>
      cases heq
      exact (passes_offset he (allTexts_cons.mp h).2).bind fun e rest he hrest => ih he hrest
    · next heq =>
      cases heq
      exact (passes_time he (allTexts_cons.mp h).2).bind fun e rest he hrest => ih he hrest
    · exact passes_ok he h

/-! ## 5. Expressions

The readers call each other with less fuel; each lemma is about one of them with one more step of fuel,
and `readings_pass` ties them together. -/

/-- The texts of arguments. -/
abbrev argTexts (args : List Phrase × Bool) : List String := allTexts args.1

/-- **All readers of expressions make up no text**, with some fuel. -/
structure ReadingsPass (P : String → Prop) (fuel : Nat) : Prop where
  expr : ∀ {ts} (level : Nat), AllTexts P ts → PassesOn P Phrase.texts (readExpr fuel level ts)
  operators : ∀ {ts} (level : Nat) {e : Phrase}, (∀ s ∈ e.texts, P s) → AllTexts P ts →
    PassesOn P Phrase.texts (readOperators fuel level e ts)
  operand : ∀ {ts}, AllTexts P ts → PassesOn P Phrase.texts (readOperand fuel ts)
  primary : ∀ {ts}, AllTexts P ts → PassesOn P Phrase.texts (readPrimary fuel ts)
  body : ∀ {ts}, AllTexts P ts → PassesOn P argTexts (readBody fuel ts)
  args : ∀ {ts}, AllTexts P ts → PassesOn P argTexts (readArgs fuel ts)

variable {fuel : Nat}

theorem passes_expr (ih : ReadingsPass P fuel) (level : Nat) (h : AllTexts P ts) :
    PassesOn P Phrase.texts (readExpr (fuel + 1) level ts) := by
  rw [readExpr]
  exact (ih.operand h).bind fun e rest he hrest => ih.operators level he hrest

/-- An operator puts a right operand beside the texts that are there. -/
theorem passes_operators (ih : ReadingsPass P fuel) (level : Nat) (he : ∀ s ∈ e.texts, P s)
    (h : AllTexts P ts) : PassesOn P Phrase.texts (readOperators (fuel + 1) level e ts) := by
  cases ts with
  | nil => exact passes_ok he h
  | cons t ts =>
    rw [readOperators]
    split
    · exact passes_ok he h
    split
    · exact passes_ok he h
    refine (passes_modifier (allTexts_cons.mp h).2).bind fun modifier rest hmodifier hrest => ?_
    refine (ih.expr _ hrest).bind fun right rest hright hrest => ?_
    refine ih.operators level ?_ hrest
    exact List.forall_mem_append.mpr ⟨List.forall_mem_append.mpr ⟨hmodifier, he⟩, hright⟩

theorem passes_operand (ih : ReadingsPass P fuel) (h : AllTexts P ts) :
    PassesOn P Phrase.texts (readOperand (fuel + 1) ts) := by
  rw [readOperand.eq_def]
  split
  · exact passes_error
  · next heq =>
    cases heq
    exact (ih.expr _ (allTexts_cons.mp h).2).bind fun e rest he hrest => passes_ok he hrest
  · next heq =>
    cases heq
    exact (ih.expr _ (allTexts_cons.mp h).2).bind fun e rest he hrest => passes_ok he hrest
  · next heq _ _ =>
    cases heq
    exact (ih.primary h).bind fun e rest he hrest => passes_postfixed _ he hrest

/-- The cases are those of the first token, which is the name where there is one. -/
theorem passes_primary (ih : ReadingsPass P fuel) (h : AllTexts P ts) :
    PassesOn P Phrase.texts (readPrimary (fuel + 1) ts) := by
  rw [readPrimary.eq_def]
  split
  · exact passes_error
  · exact passes_ok (by simp_all) (by simp_all)
  · exact passes_ok (by simp_all) (by simp_all)
  · exact passes_ok (by simp_all) (by simp_all)
  · -- parentheses
    next heq =>
    cases heq
    refine (ih.expr 0 (allTexts_cons.mp h).2).bind fun e rest he hrest => ?_
    dsimp only
    split
    · exact passes_ok he (allTexts_cons.mp hrest).2
    · exact passes_error
  · -- a call
    next heq =>
    cases heq
    obtain ⟨hname, hargs⟩ := allTexts_cons.mp h
    refine (ih.body hargs).bind fun body rest hbody hrest => passes_ok ?_ hrest
    exact List.forall_mem_cons.mpr ⟨hname _ rfl, hbody⟩
  · exact passes_selector (by simp_all) (by simp_all)
  · exact passes_selector (by simp_all) (by simp_all)
  · exact passes_selector (by simp) h
  · -- an aggregation with its grouping in front
    next heq =>
    cases heq
    refine (passes_labels (by simp_all)).bind fun labels rest hlabels hrest => ?_
    refine (ih.body hrest).bind fun body rest hbody hrest => passes_ok ?_ hrest
    exact List.forall_mem_append.mpr ⟨hlabels, hbody⟩
  · -- an aggregation that may have it behind
    next heq =>
    cases heq
    refine (ih.body (allTexts_cons.mp h).2).bind fun body rest hbody hrest => ?_
    dsimp only
    split
    · refine (passes_labels (allTexts_cons.mp hrest).2).bind fun labels rest hlabels hrest => ?_
      exact passes_ok (List.forall_mem_append.mpr ⟨hlabels, hbody⟩) hrest
    · exact passes_ok (List.forall_mem_append.mpr ⟨by simp, hbody⟩) hrest
  · exact passes_selector (by simp_all) (by simp_all)
  · exact passes_selector (by simp_all) (by simp_all)
  · split
    · exact passes_selector (by simp_all) (by simp_all)
    · exact passes_error
  · exact passes_selector (by simp_all) (by simp_all)
  · exact passes_selector (by simp_all) (by simp_all)
  · exact passes_error

theorem passes_body (ih : ReadingsPass P fuel) (h : AllTexts P ts) :
    PassesOn P argTexts (readBody (fuel + 1) ts) := by
  rw [readBody.eq_def]
  split
  · exact passes_error
  · exact passes_ok (by simp [argTexts]) (by simp_all)
  · next heq =>
    cases heq
    refine (ih.expr 0 (allTexts_cons.mp h).2).bind fun e rest he hrest => ?_
    refine (ih.args hrest).bind fun args rest hargs hrest => passes_ok ?_ hrest
    exact List.forall_mem_append.mpr ⟨he, hargs⟩
  · exact passes_error

/-- Each argument has texts of its own, and commas have none. -/
theorem passes_args (ih : ReadingsPass P fuel) (h : AllTexts P ts) :
    PassesOn P argTexts (readArgs (fuel + 1) ts) := by
  rw [readArgs.eq_def]
  split
  · exact passes_error
  · exact passes_ok (by simp [argTexts]) (by simp_all)
  · next heq =>
    cases heq
    exact (ih.args (allTexts_cons.mp h).2).bind fun args rest hargs hrest => passes_ok hargs hrest
  · exact passes_ok (by simp [argTexts]) (by simp_all)
  · next heq =>
    cases heq
    refine (ih.expr 0 (allTexts_cons.mp h).2).bind fun e rest he hrest => ?_
    refine (ih.args hrest).bind fun args rest hargs hrest => passes_ok ?_ hrest
    exact List.forall_mem_append.mpr ⟨he, hargs⟩
  · exact passes_error

/-- **No reader of expressions makes up a text**, whatever its fuel. -/
theorem readings_pass (fuel : Nat) : ReadingsPass P fuel := by
  induction fuel with
  | zero =>
    exact ⟨fun _ _ => passes_error, fun _ _ _ _ => passes_error, fun _ => passes_error,
      fun _ => passes_error, fun _ => passes_error, fun _ => passes_error⟩
  | succ fuel ih =>
    exact ⟨passes_expr ih, fun level _ => passes_operators ih level, passes_operand ih,
      passes_primary ih, passes_body ih, passes_args ih⟩

/-- **The phrase of a query is made of the texts of its tokens.** -/
theorem texts_ofTokens {p : Phrase} (h : AllTexts P ts) (hp : ofTokens ts = .ok (some p)) :
    ∀ s ∈ p.texts, P s := by
  unfold ofTokens at hp
  split at hp
  · cases hp
  · cases hread : readExpr (8 * ts.length + 8) 0 ts with
    | error e =>
      rw [hread] at hp
      cases hp
    | ok r =>
      have hr := ((readings_pass _).expr 0 h r.1 r.2 hread).1
      rw [hread] at hp
      dsimp only [bind, Except.bind] at hp
      split at hp
      · cases hp
        exact hr
      · cases hp
        exact hr
      · cases hp

end Phrase

end PanelLint.Promql
