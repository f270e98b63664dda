import PanelLint.Query.Expansion
/-!
# The texts that stand in for references

Whatever a reference stands for, its text is not empty and is made of the characters of values.
These are *inert*: no quote, no square bracket and no `#`.  So the text can neither open nor close a
string literal or a bracket, nor begin a comment.  The three shapes of values, the names of
references and the table of globals each give this by their characters alone (`isValue_substitute`,
`inert_substitute`).  The last section says what each kind of name stands for.
-/

namespace PanelLint.Query

open PanelLint.Text

/-! ## 1. Inert characters -/

/-- The characters that open or close a stretch of a query whatever stands around them. -/
def markers : List Char := ['"', '\'', backtick, '[', ']', '#']

/-- Whether a character opens and closes nothing. -/
def isInert (c : Char) : Bool := !markers.contains c

/-- A class of characters that no marker belongs to is inert. -/
theorem isInert_of_class {p : Char → Bool} (h : markers.any p = false) {c : Char}
    (hc : p c = true) : isInert c = true := by
  unfold isInert
  rw [Bool.not_eq_true', List.contains_eq_mem, decide_eq_false_iff_not]
  intro hm
  rw [List.any_eq_true.mpr ⟨c, hm, hc⟩] at h
  exact absurd h (by simp)

theorem isInert_of_isWord {c : Char} (h : isWord c = true) : isInert c = true :=
  isInert_of_class (by decide) h

theorem not_isQuote_of_isInert {c : Char} (h : isInert c = true) : isQuote c = false := by
  cases hq : isQuote c with
  | false => rfl
  | true =>
    simp only [isQuote, Bool.or_eq_true, beq_iff_eq] at hq
    rcases hq with (rfl | rfl) | rfl <;> exact absurd h (by decide)

/-- Inert characters leave the number of open brackets as it is. -/
theorem bracketDepth_of_isInert {c : Char} (h : isInert c = true) (depth : Nat) :
    bracketDepth depth c = depth := by
  unfold bracketDepth
  rw [if_neg, if_neg]
  · rintro rfl; exact absurd h (by decide)
  · rintro rfl; exact absurd h (by decide)

/-- A text that can stand in for a reference. -/
def Inert (t : List Char) : Prop := t ≠ [] ∧ ∀ c ∈ t, isInert c = true

/-! ## 2. The shapes of values -/

/-- The characters of numbers beside the digits. -/
def numberMarks : List Char := ['+', '-', '.', 'e', 'E']

/-- The characters that values and what stands in for them are made of. -/
def isValueChar (c : Char) : Bool :=
  isWord c || isDigit c || isIdentifierRest c || numberMarks.contains c

/-- A text of such characters. -/
def IsValue (t : List Char) : Prop := t ≠ [] ∧ ∀ c ∈ t, isValueChar c = true

theorem isValue_of_all {t : List Char} (hne : t ≠ []) (h : t.all isValueChar = true) : IsValue t :=
  ⟨hne, List.all_eq_true.mp h⟩

theorem isValueChar_of_isWord {c : Char} (h : isWord c = true) : isValueChar c = true := by
  simp [isValueChar, h]

theorem isValueChar_of_isDigit {c : Char} (h : isDigit c = true) : isValueChar c = true := by
  simp [isValueChar, h]

theorem isInert_of_isValueChar {c : Char} (h : isValueChar c = true) : isInert c = true :=
  isInert_of_class (by decide) h

theorem IsValue.inert {t : List Char} (h : IsValue t) : Inert t :=
  ⟨h.1, fun c hc => isInert_of_isValueChar (h.2 c hc)⟩

/-- What holds of every character on which a machine goes on holds of every character it reads. -/
theorem forall_mem_of_foldlM {σ : Type} {step : σ → Char → Option σ} {P : Char → Prop}
    (hstep : ∀ s c s', step s c = some s' → P c) :
    ∀ (cs : List Char) (s s' : σ), cs.foldlM step s = some s' → ∀ c ∈ cs, P c
  | [], _, _, _ => by simp
  | c :: cs, s, s', h => by
    rw [List.foldlM_cons] at h
    obtain ⟨s₁, h1, h2⟩ := Option.bind_eq_some_iff.mp h
    intro d hd
    rcases List.mem_cons.mp hd with rfl | hd
    · exact hstep s d s₁ h1
    · exact forall_mem_of_foldlM hstep cs s₁ s' h2 d hd

theorem DurationState.isValueChar_of_step (s : DurationState) (c : Char) (s' : DurationState)
    (h : s.step c = some s') : isValueChar c = true := by
  cases hd : isDigit c with
  | true => exact isValueChar_of_isDigit hd
  | false =>
    cases s with
    | count => simp [DurationState.step, hd] at h
    | digits =>
      simp only [DurationState.step, hd] at h
      split at h
      · contradiction
      split at h
      · next hm => rw [hm]; decide
      split at h
      · next hm =>
        simp only [List.mem_cons, List.not_mem_nil, or_false] at hm
        rcases hm with rfl | rfl | rfl | rfl | rfl <;> decide
      · contradiction
    | minutes =>
      simp only [DurationState.step, hd] at h
      split at h
      · next hm => rw [hm]; decide
      · simp at h
    | unit => simp [DurationState.step, hd] at h

theorem isValue_of_isDuration {t : List Char} (h : isDuration t = true) : IsValue t := by
  refine ⟨by rintro rfl; exact absurd h (by decide), ?_⟩
  unfold isDuration at h
  cases hf : t.foldlM DurationState.step .count with
  | none => rw [hf] at h; exact absurd h (by simp)
  | some s => exact forall_mem_of_foldlM DurationState.isValueChar_of_step t _ s hf

theorem NumberState.isValueChar_of_step (s : NumberState) (c : Char) (s' : NumberState)
    (h : s.step c = some s') : isValueChar c = true := by
  cases hd : isDigit c with
  | true => exact isValueChar_of_isDigit hd
  | false =>
    have hm : c ∈ numberMarks := by
      cases s <;> simp only [NumberState.step, hd] at h <;> simp only [numberMarks] <;> grind
    simp [isValueChar, hm]

theorem isValue_of_isNumber {t : List Char} (h : isNumber t = true) : IsValue t := by
  refine ⟨by rintro rfl; exact absurd h (by decide), ?_⟩
  unfold isNumber at h
  cases hf : t.foldlM NumberState.step .start with
  | none => rw [hf] at h; exact absurd h (by simp)
  | some s => exact forall_mem_of_foldlM NumberState.isValueChar_of_step t _ s hf

theorem isValue_of_isIdentifier {t : List Char} (h : isIdentifier t = true) : IsValue t := by
  cases t with
  | nil => exact absurd h (by simp [isIdentifier])
  | cons c rest =>
    simp only [isIdentifier, Bool.and_eq_true, List.all_eq_true] at h
    have hrest : ∀ d ∈ c :: rest, isIdentifierRest d = true :=
      List.forall_mem_cons.mpr ⟨by simp [isIdentifierRest, h.1.1], h.1.2⟩
    exact ⟨by simp, fun d hd => by simp [isValueChar, hrest d hd]⟩

/-! ## 3. What a reference becomes -/

theorem isValue_placeholder {name : List Char} (h : ∀ c ∈ name, isWord c = true) :
    IsValue (placeholder name) := by
  unfold placeholder
  split
  · next hi => exact isValue_of_isIdentifier hi
  · refine ⟨by simp, fun c hc => ?_⟩
    rcases List.mem_append.mp hc with hc | hc
    · exact List.all_eq_true.mp (show "var_".toList.all isValueChar = true by decide) c hc
    · exact isValueChar_of_isWord (h c hc)

theorem isValue_filter_getD {current : Option (List Char)} {shape : List Char → Bool}
    {other : List Char} (hshape : ∀ t, shape t = true → IsValue t) (hother : IsValue other) :
    IsValue ((current.filter shape).getD other) := by
  cases hf : current.filter shape with
  | none => exact hother
  | some v => exact hshape v (Option.filter_eq_some_iff.mp hf).2

theorem isValue_standIn {name : List Char} (h : ∀ c ∈ name, isWord c = true)
    (current : Option (List Char)) (position : Position) :
    IsValue (standIn name current position) := by
  have hrange : IsValue ((current.filter isDuration).getD "5m".toList) :=
    isValue_filter_getD (fun _ => isValue_of_isDuration)
      (isValue_of_all (by decide) (by decide))
  cases position with
  | range => exact hrange
  | offset => exact hrange
  | scalar =>
    exact isValue_filter_getD (fun _ => isValue_of_isNumber)
      (isValue_of_all (by decide) (by decide))
  | expression =>
    refine isValue_filter_getD (fun t ht => ?_) (isValue_placeholder h)
    rcases (Bool.or_eq_true _ _).mp ht with ht | ht
    · exact isValue_of_isNumber ht
    · exact isValue_of_isIdentifier ht

theorem isValue_of_mem_globals : ∀ g ∈ globals, IsValue g.2.toList := by
  intro g hg
  have hall : globals.all (fun g => g.2.toList ≠ [] ∧ g.2.toList.all isValueChar) = true := by
    decide +kernel
  have h := List.all_eq_true.mp hall g hg
  rw [decide_eq_true_iff] at h
  exact isValue_of_all h.1 h.2

/-- **What a reference becomes is made of the characters of values.** -/
theorem isValue_substitute {templates : List Template} {name t : List Char} {position : Position}
    (hname : ∀ c ∈ name, isWord c = true) (h : substitute templates name position = .ok t) :
    IsValue t := by
  unfold substitute at h
  split at h
  · rw [← Except.ok.inj h]
    exact isValue_of_all (by decide) (by decide)
  split at h
  · split at h
    · next text hl =>
      obtain ⟨pre, post, hg, -⟩ := List.lookup_eq_some_iff.mp hl
      rw [← Except.ok.inj h]
      exact isValue_of_mem_globals (String.ofList name, text) (by rw [hg]; simp)
    · exact absurd h (by simp)
  · split at h
    · rw [← Except.ok.inj h]
      exact isValue_standIn hname _ _
    · exact absurd h (by simp)

/-- So it is inert. -/
theorem inert_substitute {templates : List Template} {name t : List Char} {position : Position}
    (hname : ∀ c ∈ name, isWord c = true) (h : substitute templates name position = .ok t) :
    Inert t := (isValue_substitute hname h).inert

/-! ## 4. The kinds of names -/

section Names

variable {templates : List Template} {name : List Char}

/-- An automatic interval begins like one of Grafana's own variables. -/
theorem prefix_global_of_autoInterval (h : autoIntervalPrefix <+: name) : globalPrefix <+: name :=
  (show globalPrefix <+: autoIntervalPrefix by decide).trans h

/-- A variable of Grafana's own has one text everywhere. -/
theorem substitute_of_global (h : globalPrefix.isPrefixOf name = true) (p q : Position) :
    substitute templates name p = substitute templates name q := by
  unfold substitute
  rw [if_pos h, if_pos h]

/-- A variable of the dashboard has a stand-in. -/
theorem substitute_of_template {template : Template} (h : globalPrefix.isPrefixOf name = false)
    (hfind : findTemplate? templates name = some template) (p : Position) :
    substitute templates name p =
      .ok (standIn name (template.currentValue.map String.toList) p) := by
  have hauto : autoIntervalPrefix.isPrefixOf name = false := by
    rw [Bool.eq_false_iff]
    intro hauto
    have hglobal := prefix_global_of_autoInterval (List.isPrefixOf_iff_prefix.mp hauto)
    rw [List.isPrefixOf_iff_prefix.mpr hglobal] at h
    cases h
  unfold substitute
  rw [hauto, h, hfind]
  rfl

end Names

end PanelLint.Query
