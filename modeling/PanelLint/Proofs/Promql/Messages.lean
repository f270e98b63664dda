import PanelLint.Proofs.Promql.Texts
/-!
# The messages of the parser

An error of the checks shows texts of the phrase that it is about, numbers in lower case among them,
beside words of its own.  With what is known of tokens and of phrases this goes for the whole parser:
its message has no line break unless the text has one.

* `CheckError.oneLine_message`: a message is on one line if the texts that it shows are;
* `tells_check`: the checks of a phrase, by recursion on it;
* `oneLine_of_rejected`: the parser.
-/

namespace PanelLint.Promql

open PanelLint.Text PanelLint.Number

/-! ## 1. What errors show -/

/-- The text that an error of a number or duration shows. -/
def QuantityError.shown : QuantityError → List String
  | .notInteger text | .notDecimal text | .notDuration text => [text]
  | .emptyDuration => []

/-- **The texts of a query that an error of a check shows.** -/
def CheckError.shown : CheckError → List String
  | .quantity e => e.shown
  | .badPattern text | .bareValue text | .nameOnly text | .badLabel text => [text]
  | .unknownFunction text | .labelOnBothSides text => [text]
  | .tooFewArguments _ name _ | .tooManyArguments _ name _ | .wrongArguments _ name _ => [name]
  | .argumentType _ name _ => [name]
  | .nameTwice name value => [name, value]
  | _ => []

/-- Quoting brings in no line break. -/
theorem oneLine_inQuotes {s : String} (h : OneLine s) : OneLine (inQuotes s) := by
  simp only [inQuotes, oneLine_append]
  exact ⟨⟨oneLine_ofList.mpr (by decide), h⟩, oneLine_ofList.mpr (by decide)⟩

theorem ValueType.oneLine_text (t : ValueType) : OneLine t.text := by
  cases t <;> exact oneLine_ofList.mpr (by decide)

theorem Operator.oneLine_text (op : Operator) : OneLine op.text := by
  cases op <;> exact oneLine_ofList.mpr (by decide)

theorem Aggregation.oneLine_text (op : Aggregation) : OneLine op.text := by
  cases op <;> exact oneLine_ofList.mpr (by decide)

theorem MatchOperator.oneLine_text (op : MatchOperator) : OneLine op.text := by
  cases op <;> exact oneLine_ofList.mpr (by decide)

/-- The line about the number of arguments has no line break but those of the bound and the name in it. -/
theorem oneLine_argumentCount {bound name : String} (expected got : Nat) (hbound : OneLine bound)
    (hname : OneLine name) : OneLine (argumentCount bound expected name got) := by
  simp only [argumentCount, oneLine_append, hbound, oneLine_toString_nat, oneLine_inQuotes hname,
    and_true]
  exact ⟨⟨oneLine_ofList.mpr (by decide), oneLine_ofList.mpr (by decide)⟩,
    oneLine_ofList.mpr (by decide)⟩

/-- What is said of a number or a duration is on one line if the text that it shows is. -/
theorem QuantityError.oneLine_message {e : QuantityError} (h : ∀ s ∈ e.shown, OneLine s) :
    OneLine e.message := by
  rw [QuantityError.message.eq_def]
  cases e with
  | notInteger text | notDecimal text =>
    have htext := h text List.mem_cons_self
    simp only [oneLine_append, htext, and_true]
    exact ⟨oneLine_ofList.mpr (by decide), oneLine_ofList.mpr (by decide)⟩
  | notDuration text =>
    have htext := h text List.mem_cons_self
    simp only [oneLine_append, htext, and_true]
    exact oneLine_ofList.mpr (by decide)
  | emptyDuration =>
    dsimp only
    exact oneLine_ofList.mpr (by decide)

/-- **A message is on one line if the texts that it shows are.** -/
theorem CheckError.oneLine_message {e : CheckError} (h : ∀ s ∈ e.shown, OneLine s) :
    OneLine e.message := by
  rw [CheckError.message.eq_def]
  cases e with
  | quantity e => exact e.oneLine_message h
  | strayGroup left => cases left <;> exact oneLine_ofList.mpr (by decide)
  | badPattern text =>
    simp only [oneLine_append, h text List.mem_cons_self, and_true]
    exact oneLine_ofList.mpr (by decide)
  | badLabel text =>
    simp only [oneLine_append, h text List.mem_cons_self, true_and]
    exact oneLine_ofList.mpr (by decide)
  | nameOnly text | unknownFunction text =>
    have htext := oneLine_inQuotes (h text List.mem_cons_self)
    simp only [oneLine_append, htext, and_true]
    exact oneLine_ofList.mpr (by decide)
  | bareValue text | labelOnBothSides text =>
    have htext := oneLine_inQuotes (h text List.mem_cons_self)
    simp only [oneLine_append, htext, and_true]
    exact ⟨oneLine_ofList.mpr (by decide), oneLine_ofList.mpr (by decide)⟩
  | nameTwice name value =>
    have hname := oneLine_inQuotes (h name List.mem_cons_self)
    have hvalue := oneLine_inQuotes (h value (List.mem_cons_of_mem _ List.mem_cons_self))
    simp only [oneLine_append, hname, hvalue, and_true]
    exact ⟨oneLine_ofList.mpr (by decide), oneLine_ofList.mpr (by decide)⟩
  | tooFewArguments expected name got | tooManyArguments expected name got
  | wrongArguments expected name got =>
    exact oneLine_argumentCount _ _ (oneLine_ofList.mpr (by decide)) (h name List.mem_cons_self)
  | argumentType expected name got =>
    have hname := oneLine_inQuotes (h name List.mem_cons_self)
    simp only [oneLine_append, hname, ValueType.oneLine_text, and_true]
    exact ⟨⟨oneLine_ofList.mpr (by decide), oneLine_ofList.mpr (by decide)⟩,
      oneLine_ofList.mpr (by decide)⟩
  | timeOutOfBounds time =>
    simp only [oneLine_append, time.oneLine_positional, and_true]
    exact oneLine_ofList.mpr (by decide)
  | twoOperators op =>
    simp only [oneLine_append, oneLine_inQuotes op.oneLine_text, and_true]
    exact ⟨oneLine_ofList.mpr (by decide), oneLine_ofList.mpr (by decide)⟩
  | noArguments op | setOfScalar op | setWithGroup op =>
    simp only [oneLine_append, oneLine_inQuotes op.oneLine_text, and_true]
    exact ⟨oneLine_ofList.mpr (by decide), oneLine_ofList.mpr (by decide)⟩
  | unaryOf type colon =>
    simp only [oneLine_append, type.oneLine_text, and_true]
    refine ⟨oneLine_ofList.mpr (by decide), ?_⟩
    split <;> exact oneLine_ofList.mpr (by decide)
  | subqueryOf type =>
    simp only [oneLine_append, type.oneLine_text, and_true]
    exact ⟨oneLine_ofList.mpr (by decide), oneLine_ofList.mpr (by decide)⟩
  | aggregateCount expected got =>
    simp only [oneLine_append, oneLine_toString_nat, and_true]
    exact ⟨oneLine_ofList.mpr (by decide), oneLine_ofList.mpr (by decide)⟩
  | aggregateType expected got =>
    simp only [oneLine_append, ValueType.oneLine_text, and_true]
    exact ⟨oneLine_ofList.mpr (by decide), oneLine_ofList.mpr (by decide)⟩
  | _ =>
    dsimp only
    exact oneLine_ofList.mpr (by decide)

/-! ## 2. Numbers and durations

A number is read from its text in lower case, so it is not the text of the query that its error shows.
-/

/-- No other character has a line break as its lower case: the letters that change are `A` to `Z`. -/
theorem toLower_ne_break {c : Char} (h : c ≠ '\n') : c.toLower ≠ '\n' := by
  unfold Char.toLower
  split
  · next hc =>
    intro heq
    have hval : c.val + 32 = 10 := congrArg Char.val heq
    have hlow : 65 ≤ c.val := hc.1
    have hhigh : c.val ≤ 90 := hc.2
    grind
  · exact h

/-- So a text that is put in lower case stays on one line. -/
theorem oneLine_lower {text : String} (h : OneLine text) :
    OneLine (String.ofList (text.toList.map Char.toLower)) := by
  rw [oneLine_ofList, List.mem_map]
  rintro ⟨c, hc, hlower⟩
  exact toLower_ne_break (fun hbreak => h (hbreak ▸ hc)) hlower

/-- **A number that is refused is shown in lower case**, whichever notation it failed in. -/
theorem shown_readNumber {text : String} {e : QuantityError} (htext : OneLine text)
    (h : readNumber text = .error e) : ∀ s ∈ e.shown, OneLine s := by
  have hlower := oneLine_lower htext
  unfold readNumber at h
  dsimp only at h
  split at h
  · split at h
    · cases h
    · cases h
      exact List.forall_mem_singleton.mpr hlower
  split at h
  · split at h
    · cases h
    · cases h
      exact List.forall_mem_singleton.mpr hlower
  split at h
  · cases h
  · cases h
    exact List.forall_mem_singleton.mpr hlower

/-- A duration that is refused is shown as it is written, and an empty one is not shown. -/
theorem shown_readDuration {text : String} {e : QuantityError} (htext : OneLine text)
    (h : readDuration text = .error e) : ∀ s ∈ e.shown, OneLine s := by
  unfold readDuration at h
  dsimp only at h
  split at h
  · cases h
    exact List.forall_mem_singleton.mpr htext
  · cases h
    exact fun s hs => nomatch hs
  · cases h

/-! ## 3. Checks

The parts of a phrase have checks of their own.  Each is one `Tells`; those that hand on texts of the
query, such as the values of matchers and the labels of modifiers, say of these that they are on one line.
-/

variable {α β : Type} {Q : α → Prop} {R : β → Prop}

/-- **A check tells on one line** what is wrong, and what it gives has a property. -/
structure Tells (Q : α → Prop) (x : Except CheckError α) : Prop where
  error : ∀ e, x = .error e → OneLine e.message
  ok : ∀ a, x = .ok a → Q a

/-- A check that passes tells nothing. -/
theorem tells_ok {a : α} (h : Q a) : Tells Q (.ok a) := by
  refine ⟨fun _ he => (nomatch he), ?_⟩
  rintro _ ⟨⟩
  exact h

/-- A check that fails with an error tells on one line if the texts that the error shows are. -/
theorem tells_error {e : CheckError} (h : ∀ s ∈ e.shown, OneLine s) : Tells Q (.error e) := by
  refine ⟨?_, fun _ he => (nomatch he)⟩
  rintro _ ⟨⟩
  exact e.oneLine_message h

/-- An error that shows no text of the query. -/
theorem tells_plain {e : CheckError} (h : e.shown = []) : Tells Q (.error e) :=
  tells_error fun s hs => by simp [h] at hs

/-- **Checks one after the other** tell on one line: the second starts from what the first gave. -/
theorem Tells.bind {x : Except CheckError α} {f : α → Except CheckError β} (h : Tells Q x)
    (hf : ∀ a, Q a → Tells R (f a)) : Tells R (x >>= f) := by
  cases x with
  | error e =>
    refine ⟨?_, fun _ he => (nomatch he)⟩
    rintro _ ⟨⟩
    exact h.error e rfl
  | ok a => exact hf a (h.ok a rfl)

/-- What is made of the result of a check does not change what the check tells. -/
theorem Tells.map {x : Except CheckError α} {f : α → β} (h : Tells Q x) (hf : ∀ a, Q a → R (f a)) :
    Tells R (x.map f) := by
  cases x with
  | error e =>
    refine ⟨?_, fun _ he => (nomatch he)⟩
    rintro _ ⟨⟩
    exact h.error e rfl
  | ok a => exact tells_ok (hf a (h.ok a rfl))

/-- A refusal by a condition shows no text. -/
theorem tells_refuseIf {condition : Bool} {e : CheckError} (h : e.shown = []) :
    Tells (fun _ => True) (refuseIf condition e) := by
  unfold refuseIf
  split
  · exact tells_plain h
  · exact tells_ok trivial

/-- A span as a number: an error shows the span. -/
theorem tells_value {span : Span} (h : OneLine span.text) :
    Tells (fun _ => True) span.value := by
  cases span with
  | units text =>
    rw [Span.value]
    split
    · exact tells_ok trivial
    · next he => exact tells_error (shown_readDuration h he)
  | seconds text =>
    rw [Span.value]
    split
    · exact tells_ok trivial
    · next he => exact tells_error (shown_readNumber h he)

/-- A span as a length of time, likewise. -/
theorem tells_length {span : Span} (h : OneLine span.text) :
    Tells (fun _ => True) span.length := by
  cases span with
  | units text =>
    rw [Span.length]
    split
    · exact tells_ok trivial
    · next he => exact tells_error (shown_readDuration h he)
  | seconds text =>
    rw [Span.length]
    split
    · exact tells_ok trivial
    · next he => exact tells_error (shown_readNumber h he)

/-- The time of an `@`: `start()` and `end()` pass, a number is shown when it is refused. -/
theorem tells_time {time : TimePhrase} (h : ∀ s ∈ time.texts, OneLine s) :
    Tells (fun _ => True) time.check := by
  cases time with
  | edge start => exact tells_ok trivial
  | fixed negative number =>
    refine (tells_value (h _ List.mem_cons_self)).bind fun x _ => ?_
    exact (tells_refuseIf rfl).bind fun _ _ => tells_ok trivial

/-- A matcher: a pattern that is refused, a value or a name that stands alone is shown. -/
theorem tells_matcher {m : MatcherPhrase} (h : ∀ s ∈ m.texts, OneLine s) :
    Tells (fun m => OneLine m.value) m.check := by
  cases m with
  | complete label op value =>
    obtain ⟨-, hvalue⟩ := List.forall_mem_cons.mp h
    rw [MatcherPhrase.check]
    split
    · exact tells_error hvalue
    · exact tells_ok (hvalue value List.mem_cons_self)
  | twoOperators second => exact tells_plain rfl
  | bareValue value => exact tells_error h
  | nameOnly name => exact tells_error h

/-- The values of matchers in groups are on one line. -/
def OneLineValues (groups : List (List Matcher)) : Prop := ∀ m ∈ groups.flatten, OneLine m.value

theorem oneLineValues_nil : OneLineValues [] := by simp [OneLineValues]

/-- The matchers behind the first one, by induction on them; each joins the last group or opens a new
one, and the values met so far are carried along. -/
theorem tells_matchersRest {rest : List (Bool × MatcherPhrase)} {groups : List (List Matcher)}
    (h : ∀ m ∈ rest, ∀ s ∈ m.2.texts, OneLine s) (hgroups : OneLineValues groups) :
    Tells OneLineValues (rest.foldlM
      (fun groups (p : Bool × MatcherPhrase) => (p.2.check).map (addMatcher groups p.1))
      groups) := by
  induction rest generalizing groups with
  | nil => exact tells_ok hgroups
  | cons p rest ih =>
    obtain ⟨hp, hrest⟩ := List.forall_mem_cons.mp h
    rw [List.foldlM_cons]
    refine Tells.bind ((tells_matcher hp).map fun m hm => ?_) fun groups hgroups => ih hrest hgroups
    show OneLineValues _
    rw [OneLineValues, flatten_addMatcher, List.forall_mem_append]
    exact ⟨hgroups, List.forall_mem_singleton.mpr hm⟩

/-- All matchers of a selection, and their values are on one line. -/
theorem tells_matchers {ms : MatchersPhrase} (h : ∀ s ∈ ms.texts, OneLine s) :
    Tells OneLineValues ms.check := by
  cases ms with
  | empty => exact tells_ok oneLineValues_nil
  | comma => exact tells_plain rfl
  | list first rest =>
    obtain ⟨hfirst, hrest⟩ := List.forall_mem_append.mp h
    refine (tells_matcher hfirst).bind fun m hm => tells_matchersRest ?_ ?_
    · exact fun p hp s hs => hrest s (List.mem_flatMap.mpr ⟨p, hp, hs⟩)
    · simpa [OneLineValues] using hm

/-- A list of labels: the first one that is no label is shown. -/
theorem tells_labels {labels : List String} (h : ∀ s ∈ labels, OneLine s) :
    Tells (fun labels => ∀ s ∈ labels, OneLine s) (checkLabels labels) := by
  unfold checkLabels
  split
  · next l hl =>
    exact tells_error (List.forall_mem_singleton.mpr (h l (List.mem_of_find?_eq_some hl)))
  · exact tells_ok h

/-- A selection: the name that is given twice is shown, with the value of the matcher that repeats it. -/
theorem tells_selection {name : Option String} {groups : List (List Matcher)}
    (hname : ∀ n ∈ name, OneLine n) (hgroups : OneLineValues groups) :
    Tells (fun _ => True) (checkSelection name groups) := by
  unfold checkSelection
  cases name with
  | some n =>
    dsimp only
    split
    · next m hm =>
      refine tells_error (List.forall_mem_cons.mpr ⟨hname n rfl, ?_⟩)
      exact List.forall_mem_singleton.mpr (hgroups m (List.mem_of_find?_eq_some hm))
    · exact tells_ok trivial
  | none => exact (tells_refuseIf rfl).bind fun _ _ => tells_ok trivial

/-- The labels of a modifier to match on are on one line. -/
def OneLineLabels (m : Modifier) : Prop :=
  ∀ matching ∈ m.matching, ∀ l ∈ matching.labels, OneLine l

/-- **The modifier of a binary operator**, with both of its lists of labels; the labels that it passes
on are on one line. -/
theorem tells_modifier {m : ModifierPhrase} (h : ∀ s ∈ m.texts, OneLine s) :
    Tells OneLineLabels m.check := by
  rcases m with bool | ⟨bool, on, labels, _ | ⟨left, extra⟩⟩ | left
  · exact tells_ok fun _ hm => nomatch hm
  · refine (tells_labels h).bind fun labels hlabels => tells_ok ?_
    rintro _ ⟨⟩
    exact hlabels
  · obtain ⟨hlabels, hextra⟩ := List.forall_mem_append.mp h
    refine (tells_labels hlabels).bind fun labels hlabels => ?_
    refine (tells_labels hextra).bind fun extra _ => tells_ok ?_
    rintro _ ⟨⟩
    exact hlabels
  · exact tells_plain rfl

/-- The label that stands on both sides is one of those that are matched on. -/
theorem oneLine_sharedLabel? {m : Modifier} (h : OneLineLabels m) :
    ∀ l ∈ sharedLabel? m, OneLine l := by
  intro l hl
  unfold sharedLabel? at hl
  dsimp only at hl
  split at hl
  · next labels hm => exact h _ hm l (List.mem_of_find?_eq_some hl)
  · cases hl

/-! ## 4. Checks of expressions

What is checked of an expression that is built already shows types, numbers and names of functions.
-/

variable {e : Expr} {args : List Expr} {f : Function}

/-- A range asks for an instant vector selector, and shows nothing of what it found in its place. -/
theorem tells_range (range : Length) : Tells (fun _ => True) (checkRange e range) := by
  unfold checkRange
  split
  · exact tells_plain rfl
  · exact tells_plain rfl
  · exact tells_ok trivial
  · exact tells_plain rfl

/-- Likewise an offset, for a selector or a subquery. -/
theorem tells_offset (offset : Offset) : Tells (fun _ => True) (checkOffset e offset) := by
  unfold checkOffset
  split
  · exact tells_ok trivial
  · exact tells_ok trivial
  · exact tells_ok trivial
  all_goals exact tells_plain rfl

theorem tells_atTime (time : Instant) : Tells (fun _ => True) (checkTime e time) := by
  unfold checkTime
  split
  · exact tells_ok trivial
  · exact tells_ok trivial
  · exact tells_ok trivial
  all_goals exact tells_plain rfl

/-- A minus sign shows the type of its operand. -/
theorem tells_minus : Tells (fun _ => True) (checkMinus e) := by
  unfold checkMinus
  split
  · exact tells_ok trivial
  · exact tells_plain rfl
  · exact tells_plain rfl
  · split
    · exact tells_ok trivial
    · exact tells_plain rfl

/-- **A binary operator** shows the label that stands on both sides, and of its operands their types. -/
theorem tells_binary {op : Operator} {m : Modifier} {l r : Expr} (h : OneLineLabels m) :
    Tells (fun _ => True) (checkBinary op m l r) := by
  unfold checkBinary
  refine (tells_refuseIf rfl).bind fun _ _ => (tells_refuseIf rfl).bind fun _ _ => ?_
  split
  · next label hlabel =>
    exact tells_error (List.forall_mem_singleton.mpr (oneLine_sharedLabel? h label hlabel))
  · refine (tells_refuseIf rfl).bind fun _ _ => (tells_refuseIf rfl).bind fun _ _ => ?_
    refine (tells_refuseIf rfl).bind fun _ _ => (tells_refuseIf rfl).bind fun _ _ => ?_
    exact tells_ok trivial

/-- The types of the arguments of a function, by induction on them: the error shows the name of the
function. -/
theorem tells_arguments (hf : OneLine f.name) (i : Nat) :
    Tells (fun _ => True) (checkArguments f i args) := by
  induction args generalizing i with
  | nil => exact tells_ok trivial
  | cons e es ih =>
    rw [checkArguments]
    split
    · split
      · exact ih _
      · exact tells_error (List.forall_mem_singleton.mpr hf)
    · exact ih _

/-- The number of its arguments, likewise. -/
theorem tells_count (hf : OneLine f.name) (got : Nat) :
    Tells (fun _ => True) (checkCount f got) := by
  have hname {e : CheckError} (he : e.shown = [f.name]) : ∀ s ∈ e.shown, OneLine s :=
    he ▸ List.forall_mem_singleton.mpr hf
  unfold checkCount refuseIf
  dsimp only
  split
  · split
    · exact tells_error (hname rfl)
    split
    · exact tells_error (hname rfl)
    · exact tells_ok trivial
  · split
    · exact tells_error (hname rfl)
    · exact tells_ok trivial

/-- A call: the number of its arguments and then their types. -/
theorem tells_call (hf : OneLine f.name) : Tells (fun _ => True) (checkCall f args) := by
  unfold checkCall
  refine (tells_count hf _).bind fun _ _ => ?_
  split
  · exact tells_ok trivial
  · exact (tells_arguments hf 0).bind fun _ _ => tells_ok trivial

/-- An aggregation shows its operator, which is one of a fixed list, and types. -/
theorem tells_aggregate {op : Aggregation} {grouping : Option Grouping} :
    Tells (fun _ => True) (checkAggregate op grouping args) := by
  unfold checkAggregate checkAggregateType
  refine (tells_refuseIf rfl).bind fun _ _ => ?_
  split
  · exact (tells_refuseIf rfl).bind fun _ _ => tells_ok trivial
  · refine (tells_refuseIf rfl).bind fun _ _ => (tells_refuseIf rfl).bind fun _ _ => ?_
    exact tells_ok trivial
  · exact tells_plain rfl
  · exact tells_plain rfl

/-- The labels that an aggregation is grouped by are checked as those of a modifier are. -/
theorem tells_grouping {g : Option GroupingPhrase}
    (h : ∀ s ∈ (g.map (·.labels)).getD [], OneLine s) :
    Tells (fun _ => True) (checkGrouping g) := by
  cases g with
  | none => exact tells_ok trivial
  | some g =>
    have hg : Tells (fun _ => True) g.check := (tells_labels h).map fun _ _ => trivial
    exact hg.map fun _ _ => trivial

/-- A function that is found has the name that was looked for. -/
theorem find?_name {name : String} {f : Function} (h : Function.find? name = some f) :
    f.name = name := by
  simpa using List.find?_some h

mutual

/-- **The checks of a phrase tell on one line what is wrong**, if its texts are on one line. -/
theorem tells_check : ∀ p : Phrase, (∀ s ∈ p.texts, OneLine s) → Tells (fun _ => True) p.check
  | .number span, h => (tells_value (h _ List.mem_cons_self)).map fun _ _ => trivial
  | .string text, _ => tells_ok trivial
  | .vector name none, h => by
    obtain ⟨hname, -⟩ := List.forall_mem_append.mp h
    rw [Phrase.check]
    refine (tells_selection (by simpa using hname) oneLineValues_nil).bind fun _ _ => ?_
    exact tells_ok trivial
  | .vector name (some matchers), h => by
    obtain ⟨hname, hmatchers⟩ := List.forall_mem_append.mp h
    rw [Phrase.check]
    refine (tells_matchers hmatchers).bind fun groups hgroups => ?_
    exact (tells_selection (by simpa using hname) hgroups).bind fun _ _ => tells_ok trivial
  | .paren e, h => (tells_check e h).map fun _ _ => trivial
  | .plus e, h => tells_check e h
  | .minus e, h => (tells_check e h).bind fun _ _ => tells_minus
  | .binary op modifier l r, h => by
    obtain ⟨hleft, hr⟩ := List.forall_mem_append.mp h
    obtain ⟨hmodifier, hl⟩ := List.forall_mem_append.mp hleft
    rw [Phrase.check]
    refine (tells_check l hl).bind fun _ _ => (tells_modifier hmodifier).bind fun m hm => ?_
    exact (tells_check r hr).bind fun _ _ => tells_binary hm
  | .call name args extraComma, h => by
    obtain ⟨hname, hargs⟩ := List.forall_mem_cons.mp h
    rw [Phrase.check]
    split
    · exact tells_error (List.forall_mem_singleton.mpr hname)
    · next f hf =>
      refine (tells_refuseIf rfl).bind fun _ _ => (tells_checkAll args hargs).bind fun _ _ => ?_
      exact tells_call (find?_name hf ▸ hname)
  | .aggregate op grouping args extraComma, h => by
    obtain ⟨hgrouping, hargs⟩ := List.forall_mem_append.mp h
    rw [Phrase.check]
    refine (tells_grouping hgrouping).bind fun _ _ => (tells_refuseIf rfl).bind fun _ _ => ?_
    exact (tells_checkAll args hargs).bind fun _ _ => tells_aggregate
  | .range e span, h => by
    obtain ⟨hspan, he⟩ := List.forall_mem_cons.mp h
    rw [Phrase.check]
    exact (tells_check e he).bind fun _ _ => (tells_length hspan).bind fun _ _ => tells_range _
  | .noRange _, _ => tells_plain rfl
  | .subquery e span step, h => by
    obtain ⟨hspans, he⟩ := List.forall_mem_append.mp h
    obtain ⟨hspan, hstep⟩ := List.forall_mem_cons.mp hspans
    rw [Phrase.check]
    refine (tells_check e he).bind fun _ _ => (tells_length hspan).bind fun _ _ => ?_
    cases step with
    | none => exact (tells_refuseIf rfl).bind fun _ _ => tells_ok trivial
    | some step =>
      have hlength : Tells (fun _ => True) (step.length.map some) :=
        (tells_length (hstep _ List.mem_cons_self)).map fun _ _ => trivial
      exact hlength.bind fun _ _ => (tells_refuseIf rfl).bind fun _ _ => tells_ok trivial
  | .offset e negative span, h => by
    obtain ⟨hspan, he⟩ := List.forall_mem_cons.mp h
    rw [Phrase.check]
    exact (tells_check e he).bind fun _ _ => (tells_length hspan).bind fun _ _ => tells_offset _
  | .noOffset _, _ => tells_plain rfl
  | .atTime e time, h => by
    obtain ⟨htime, he⟩ := List.forall_mem_append.mp h
    rw [Phrase.check]
    exact (tells_check e he).bind fun _ _ => (tells_time htime).bind fun _ _ => tells_atTime _
  | .noTime _, _ => tells_plain rfl

/-- The checks of several phrases, one after the other. -/
theorem tells_checkAll : ∀ ps : List Phrase, (∀ s ∈ Phrase.allTexts ps, OneLine s) →
    Tells (fun _ => True) (Phrase.checkAll ps)
  | [], _ => tells_ok trivial
  | p :: ps, h => by
    obtain ⟨hp, hps⟩ := List.forall_mem_append.mp h
    rw [Phrase.checkAll]
    exact (tells_check p hp).bind fun _ _ => (tells_checkAll ps hps).bind fun _ _ =>
      tells_ok trivial

end

/-! ## 5. The parser

A token keeps its text (`Lexer.tokensFrom_within`), a phrase keeps those of its tokens, and its checks
show no others.
-/

/-- **What the parser says of a text without line breaks has none.** -/
theorem oneLine_of_rejected {text : List Char} {e : ParseError} (htext : '\n' ∉ text)
    (h : parse text = .error (.rejected e)) : OneLine e.message := by
  obtain ⟨hfails, htexts⟩ := Lexer.tokensFrom_within {} text
  unfold parse Lexer.tokens at h
  split at h
  · next e' htokens =>
    cases h
    exact e'.oneLine_message fun hmem => htext (hfails e' htokens hmem)
  · next ts htokens =>
    have hall : AllTexts OneLine ts := fun t ht s hs hmem =>
      htext (htexts ts htokens t ht s hs hmem)
    split at h
    · cases h
      exact oneLine_ofList.mpr (by decide)
    · cases h
    · cases h
      exact oneLine_ofList.mpr (by decide)
    · next p hp =>
      split at h
      · next e' hcheck =>
        cases h
        exact (tells_check p (Phrase.texts_ofTokens hall hp)).error e' hcheck
      · cases h

end PanelLint.Promql
