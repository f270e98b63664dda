import Mathlib.Data.List.Forall2
import PanelLint.Proofs.Promql.Checks
/-!
# Phrases that stand in for each other

A phrase stands in for another one if the checks of the other carry over to it.  For the parts that
are no expressions, what may differ is fixed first: a length of time or a number may be one of two
plain ones, a label may be another name.  Then each form of a phrase has its lemma.
-/

namespace PanelLint.Promql

variable {loose renamed : Prop} {literal : Bool}

/-! ## 1. Lengths of time and numbers -/

/-- A quantity that no check refuses, as a length of time, as a number or as a time. -/
structure Span.IsSound (s : Span) : Prop where
  length : ∃ x, s.length = .ok x
  value : ∃ x, s.value = .ok x ∧ x.isFinite = true ∧ x.isExtreme = false ∧
    x.neg.isFinite = true ∧ x.neg.isExtreme = false

/-- A quantity that is the same or a sound one. -/
def Span.Like (s s' : Span) : Prop := s' = s ∨ s'.IsSound

/-- Five minutes are a length of time. -/
theorem isSound_five_minutes : (Span.units "5m").IsSound :=
  ⟨⟨_, rfl⟩, _, rfl, by decide +kernel⟩

/-- One second likewise, and the number one. -/
theorem isSound_one : (Span.seconds "1").IsSound :=
  ⟨⟨_, rfl⟩, _, rfl, by decide +kernel⟩

/-- A sound length of time is never refused. -/
theorem carriesOver_length {s s' : Span} (h : s.Like s') :
    CarriesOver (fun _ _ => True) s.length s'.length := by
  intro x hx
  rcases h with rfl | h
  · exact ⟨x, hx, trivial⟩
  · obtain ⟨x', hx'⟩ := h.length
    exact ⟨x', hx', trivial⟩

/-- Times after `@` that are alike. -/
inductive TimePhrase.Like : TimePhrase → TimePhrase → Prop
  | same (t : TimePhrase) : Like t t
  | sound {t : TimePhrase} (negative : Bool) {s : Span} : s.IsSound → Like t (.fixed negative s)

/-- A time that is like another one passes where that does. -/
theorem carriesOver_time {t t' : TimePhrase} (h : t.Like t') :
    CarriesOver (fun _ _ => True) t.check t'.check := by
  cases h with
  | same => exact carriesOver_self.mono fun _ _ _ => trivial
  | sound negative hs =>
    obtain ⟨x, hx, hfinite, hextreme, hfinite', hextreme'⟩ := hs.value
    intro a _
    refine ⟨.fixed (if negative then x.neg else x), ?_, trivial⟩
    simp only [TimePhrase.check, hx]
    cases negative with
    | false => simp [hfinite, hextreme, refuseIf, bind, Except.bind]
    | true => simp [hfinite', hextreme', refuseIf, bind, Except.bind]

/-! ## 2. Labels -/

/-- A label that is the same or, if names may change, another one without a colon. -/
def LabelLike (renamed : Prop) (l l' : String) : Prop :=
  l' = l ∨ (renamed ∧ ':' ∉ l'.toList)

/-- Labels that are alike one by one. -/
def LabelsLike (renamed : Prop) (ls ls' : List String) : Prop :=
  List.Forall₂ (LabelLike renamed) ls ls'

/-- Labels that are alike one by one as far as they pass the check: those with a colon do not. -/
def LabelsRead (renamed : Prop) (ls ls' : List String) : Prop :=
  List.Forall₂ (fun l l' => ':' ∈ l.toList ∨ LabelLike renamed l l') ls ls'

/-- Labels are like themselves. -/
theorem labelsRead_refl (ls : List String) : LabelsRead renamed ls ls :=
  List.forall₂_same.mpr fun _ _ => Or.inr (Or.inl rfl)

/-- Where names may not change, labels do not. -/
theorem LabelsLike.eq {ls ls' : List String} (h : LabelsLike renamed ls ls') (hr : ¬ renamed) :
    ls' = ls := by
  induction h with
  | nil => rfl
  | cons hl _ ih =>
    rcases hl with rfl | ⟨hrenamed, -⟩
    · rw [ih]
    · exact absurd hrenamed hr

/-- Rows of labels that are alike are empty together. -/
theorem LabelsLike.isEmpty {ls ls' : List String} (h : LabelsLike renamed ls ls') :
    ls'.isEmpty = ls.isEmpty := by
  cases h <;> rfl

/-- Labels pass their check if none of them has a colon, and are left as they are. -/
theorem checkLabels_eq_ok_iff {ls a : List String} :
    checkLabels ls = .ok a ↔ a = ls ∧ ∀ l ∈ ls, ':' ∉ l.toList := by
  unfold checkLabels
  split
  · next l hl =>
    refine ⟨fun h => (by cases h), fun h => ?_⟩
    exact absurd (List.find?_some hl) (by simpa using h.2 l (List.mem_of_find?_eq_some hl))
  · next hnone =>
    rw [List.find?_eq_none] at hnone
    refine ⟨fun h => ⟨(Except.ok.inj h).symm, fun l hl => by simpa using hnone l hl⟩, ?_⟩
    rintro ⟨rfl, -⟩
    rfl

/-- New labels hold no colon either. -/
theorem carriesOver_checkLabels {ls ls' : List String} (h : LabelsRead renamed ls ls') :
    CarriesOver (LabelsLike renamed) (checkLabels ls) (checkLabels ls') := by
  intro a ha
  obtain ⟨rfl, hnone⟩ := checkLabels_eq_ok_iff.mp ha
  have hlike : LabelsLike renamed a ls' ∧ ∀ l ∈ ls', ':' ∉ l.toList := by
    clear ha
    induction h with
    | nil => exact ⟨List.Forall₂.nil, by simp⟩
    | @cons l l' ls ls' hl _ ih =>
      obtain ⟨hls, hnone'⟩ := ih fun m hm => hnone m (List.mem_cons_of_mem l hm)
      have hcolon := hnone l List.mem_cons_self
      have hl : LabelLike renamed l l' := hl.resolve_left hcolon
      refine ⟨List.Forall₂.cons hl hls, fun m hm => ?_⟩
      rcases List.mem_cons.mp hm with rfl | hm
      · rcases hl with rfl | ⟨-, hcolon'⟩
        · exact hcolon
        · exact hcolon'
      · exact hnone' m hm
  exact ⟨ls', checkLabels_eq_ok_iff.mpr ⟨rfl, hlike.2⟩, hlike.1⟩

/-- Fewer labels hold no colon either. -/
theorem carriesOver_checkLabels_of_subset {ls ls' : List String} (h : ls' ⊆ ls) :
    CarriesOver (fun a b => a = ls ∧ b = ls') (checkLabels ls) (checkLabels ls') := by
  intro a ha
  obtain ⟨rfl, hnone⟩ := checkLabels_eq_ok_iff.mp ha
  exact ⟨ls', checkLabels_eq_ok_iff.mpr ⟨rfl, fun l hl => hnone l (h hl)⟩, rfl, rfl⟩

/-- A grouping by fewer labels. -/
theorem carriesOver_grouping_of_subset (keeps : Bool) {ls ls' : List String} (h : ls' ⊆ ls) :
    CarriesOver (fun _ _ => True) (checkGrouping (some ⟨keeps, ls⟩))
      (checkGrouping (some ⟨keeps, ls'⟩)) :=
  ((carriesOver_checkLabels_of_subset h).map (S := fun _ _ => True) fun _ _ _ => trivial).map
    fun _ _ _ => trivial

/-- A grouping by labels that are alike. -/
theorem carriesOver_grouping (keeps : Bool) {ls ls' : List String} (h : LabelsRead renamed ls ls') :
    CarriesOver (fun _ _ => True) (checkGrouping (some ⟨keeps, ls⟩))
      (checkGrouping (some ⟨keeps, ls'⟩)) :=
  ((carriesOver_checkLabels h).map (S := fun _ _ => True) fun _ _ _ => trivial).map
    fun _ _ _ => trivial

/-- Modifiers of binary operators that are alike. -/
inductive ModifierPhrase.Like (renamed : Prop) : ModifierPhrase → ModifierPhrase → Prop
  | plain (bool : Bool) : Like renamed (.plain bool) (.plain bool)
  | matching (bool on : Bool) {ls ls' : List String} : LabelsRead renamed ls ls' →
      Like renamed (.matching bool on ls none) (.matching bool on ls' none)
  | group (bool on left : Bool) {ls ls' gs gs' : List String} : LabelsRead renamed ls ls' →
      LabelsRead renamed gs gs' →
      Like renamed (.matching bool on ls (some (left, gs))) (.matching bool on ls' (some (left, gs')))
  | strayGroup (left : Bool) : Like renamed (.strayGroup left) (.strayGroup left)

/-- Whether a label stands both in `on` and in the group. -/
def ModifierPhrase.sharesLabel : ModifierPhrase → Bool
  | .matching _ true labels (some (_, group)) => labels.any group.contains
  | _ => false

/-- The cardinality of a match with a group. -/
def groupCardinality (left : Bool) (labels : List String) : Cardinality :=
  if left then .manyToOne labels else .oneToMany labels

/-- Modifiers that match by labels are alike, if no label stands on both sides that did not. -/
theorem modifierLike_of_isEmpty {ls ls' gs gs' : List String} (bool on left : Bool)
    (hempty : ls'.isEmpty = ls.isEmpty)
    (hshared : sharedLabel? ⟨bool, some ⟨on, ls⟩, groupCardinality left gs⟩ = none →
      sharedLabel? ⟨bool, some ⟨on, ls'⟩, groupCardinality left gs'⟩ = none) :
    ModifierLike ⟨bool, some ⟨on, ls⟩, groupCardinality left gs⟩
      ⟨bool, some ⟨on, ls'⟩, groupCardinality left gs'⟩ where
  bool := rfl
  namesLabels := by simp only [Modifier.namesLabels, hempty]
  groups := by cases left <;> rfl
  shared := hshared

/-- So are those without a group. -/
theorem modifierLike_ungrouped {ls ls' : List String} (bool on : Bool)
    (hempty : ls'.isEmpty = ls.isEmpty) :
    ModifierLike { bool, matching := some ⟨on, ls⟩ } { bool, matching := some ⟨on, ls'⟩ } where
  bool := rfl
  namesLabels := by simp only [Modifier.namesLabels, hempty]
  groups := rfl
  shared := fun _ => by cases on <;> simp [sharedLabel?]

/-- A match shares no label with its group if none of its labels is in the group. -/
theorem sharedLabel_eq_none_iff {ls gs : List String} {bool on left : Bool} :
    sharedLabel? ⟨bool, some ⟨on, ls⟩, groupCardinality left gs⟩ = none ↔
      (on = true → ls.any gs.contains = false) := by
  cases on with
  | false => cases left <;> simp [sharedLabel?]
  | true => cases left <;> simp [sharedLabel?, groupCardinality]

/-- If names may change, no label has to stand both in `on` and in the group of the new modifier. -/
theorem carriesOver_modifier {m m' : ModifierPhrase} (h : ModifierPhrase.Like renamed m m')
    (hapart : renamed → m'.sharesLabel = false) :
    CarriesOver ModifierLike m.check m'.check := by
  cases h with
  | plain bool => exact carriesOver_ok (ModifierLike.refl _)
  | matching bool on hls =>
    exact (carriesOver_checkLabels hls).bind fun _ _ hlike =>
      carriesOver_ok (modifierLike_ungrouped bool on hlike.isEmpty)
  | @group bool on left ls ls' gs gs' hls hgs =>
    -- the checks of the labels give the labels as they are
    have hchecked : ∀ {ks ks' : List String}, LabelsRead renamed ks ks' →
        CarriesOver (fun a b => a = ks ∧ b = ks' ∧ LabelsLike renamed a b) (checkLabels ks)
          (checkLabels ks') := by
      intro ks ks' hks a ha
      obtain ⟨b, hb, hab⟩ := carriesOver_checkLabels hks a ha
      exact ⟨b, hb, (checkLabels_eq_ok_iff.mp ha).1, (checkLabels_eq_ok_iff.mp hb).1, hab⟩
    refine (hchecked hls).bind ?_
    rintro _ _ ⟨rfl, rfl, hlike⟩
    refine (hchecked hgs).bind ?_
    rintro _ _ ⟨rfl, rfl, hgroup⟩
    refine carriesOver_ok (modifierLike_of_isEmpty bool on left hlike.isEmpty fun hnone => ?_)
    by_cases hr : renamed
    · refine sharedLabel_eq_none_iff.mpr ?_
      rintro rfl
      exact hapart hr
    · rwa [hlike.eq hr, hgroup.eq hr]
  | strayGroup left => exact carriesOver_error

/-- A modifier with fewer labels, but not with none in the place of some, passes the check too. -/
theorem carriesOver_modifier_of_subset {ls ls' gs gs' : List String} (bool on left : Bool)
    (hls : ls' ⊆ ls) (hempty : ls'.isEmpty = ls.isEmpty) (hgs : gs' ⊆ gs) :
    CarriesOver ModifierLike (ModifierPhrase.matching bool on ls (some (left, gs))).check
      (ModifierPhrase.matching bool on ls' (some (left, gs'))).check := by
  refine (carriesOver_checkLabels_of_subset hls).bind ?_
  rintro _ _ ⟨rfl, rfl⟩
  refine (carriesOver_checkLabels_of_subset hgs).bind ?_
  rintro _ _ ⟨rfl, rfl⟩
  refine carriesOver_ok (modifierLike_of_isEmpty bool on left hempty fun hnone => ?_)
  rw [sharedLabel_eq_none_iff] at hnone ⊢
  intro hon
  have hnone := hnone hon
  rw [List.any_eq_false] at hnone ⊢
  intro l hl hmem
  refine hnone l (hls hl) ?_
  rw [List.contains_iff_mem] at hmem ⊢
  exact hgs hmem

/-- Without a group, fewer labels pass the check as long as some are left. -/
theorem carriesOver_ungrouped_of_subset {ls ls' : List String} (bool on : Bool) (hls : ls' ⊆ ls)
    (hempty : ls'.isEmpty = ls.isEmpty) :
    CarriesOver ModifierLike (ModifierPhrase.matching bool on ls none).check
      (ModifierPhrase.matching bool on ls' none).check := by
  refine (carriesOver_checkLabels_of_subset hls).bind ?_
  rintro _ _ ⟨rfl, rfl⟩
  exact carriesOver_ok (modifierLike_ungrouped bool on hempty)

/-! ## 3. Matchers -/

/-- Checked matchers that differ in their labels at most, and never in the label of names. -/
structure MatcherLike (m m' : Matcher) : Prop where
  op : m'.op = m.op
  value : m'.value = m.value
  label : m'.label = m.label ∨ m'.label ≠ "__name__"

/-- Matchers that are alike; a faulty one is never checked to its end. -/
inductive MatcherPhrase.Like : MatcherPhrase → MatcherPhrase → Prop
  | same (m : MatcherPhrase) : Like m m
  | label {l l' : String} (op : MatchOperator) (value : String) : l' ≠ "__name__" →
      Like (.complete l op value) (.complete l' op value)
  | faulty {m m' : MatcherPhrase} : (∀ l op value, m ≠ .complete l op value) → Like m m'

/-- Matchers between braces that are alike. -/
inductive MatchersPhrase.Like : MatchersPhrase → MatchersPhrase → Prop
  | empty : Like .empty .empty
  | comma : Like .comma .comma
  | list {m m' : MatcherPhrase} {ms ms' : List (Bool × MatcherPhrase)} :
      MatcherPhrase.Like m m' →
      List.Forall₂ (fun p p' => p'.1 = p.1 ∧ MatcherPhrase.Like p.2 p'.2) ms ms' →
      Like (.list m ms) (.list m' ms')

/-- A matcher that is like another one passes where that does, and is like it then. -/
theorem carriesOver_matcher {m m' : MatcherPhrase}
    (h : MatcherPhrase.Like m m') :
    CarriesOver MatcherLike m.check m'.check := by
  cases h with
  | same m =>
    refine carriesOver_self.mono ?_
    rintro a _ rfl
    exact ⟨rfl, rfl, Or.inl rfl⟩
  | label op value hl =>
    simp only [MatcherPhrase.check]
    split
    · exact carriesOver_error
    · exact carriesOver_ok ⟨rfl, rfl, Or.inr hl⟩
  | faulty hfaulty =>
    cases m with
    | complete l op value => exact absurd rfl (hfaulty l op value)
    | twoOperators second => exact carriesOver_error
    | bareValue value => exact carriesOver_error
    | nameOnly name => exact carriesOver_error

/-- Whatever its group, a new matcher comes after all others. -/
theorem flatten_addMatcher (groups : List (List Matcher)) (apart : Bool) (m : Matcher) :
    (addMatcher groups apart m).flatten = groups.flatten ++ [m] := by
  unfold addMatcher
  split
  · simp
  · split
    · next last hlast =>
      obtain ⟨front, rfl⟩ := List.getLast?_eq_some_iff.mp hlast
      simp
    · next hnone => simp [List.getLast?_eq_none_iff.mp hnone]

/-- Groups with matchers that are alike, however they are grouped. -/
def GroupsLike (groups groups' : List (List Matcher)) : Prop :=
  List.Forall₂ MatcherLike groups.flatten groups'.flatten

/-- One more matcher on both sides, whichever group it joins. -/
theorem GroupsLike.addMatcher {groups groups' : List (List Matcher)} {m m' : Matcher}
    (h : GroupsLike groups groups') (hm : MatcherLike m m') (apart apart' : Bool) :
    GroupsLike (addMatcher groups apart m) (addMatcher groups' apart' m') := by
  unfold GroupsLike
  rw [flatten_addMatcher, flatten_addMatcher]
  exact List.rel_append h (List.Forall₂.cons hm List.Forall₂.nil)

/-- **The matchers of a selection**, one by one. -/
theorem carriesOver_matchers {ms ms' : MatchersPhrase}
    (h : MatchersPhrase.Like ms ms') :
    CarriesOver GroupsLike ms.check ms'.check := by
  cases h with
  | empty => exact carriesOver_ok List.Forall₂.nil
  | comma => exact carriesOver_error
  | @list m m' ms ms' hm hms =>
    have hrest : ∀ groups groups', GroupsLike groups groups' →
        CarriesOver GroupsLike
          (ms.foldlM (fun groups p => (p.2.check).map (addMatcher groups p.1)) groups)
          (ms'.foldlM (fun groups p => (p.2.check).map (addMatcher groups p.1)) groups') := by
      clear hm
      induction hms with
      | nil => exact fun groups groups' hgroups => carriesOver_ok hgroups
      | cons hp _ ih =>
        intro groups groups' hgroups
        simp only [List.foldlM_cons]
        exact ((carriesOver_matcher hp.2).map fun _ _ hlike =>
          hgroups.addMatcher hlike _ _).bind ih
    exact (carriesOver_matcher hm).bind fun a a' ha =>
      hrest _ _ (List.Forall₂.cons ha List.Forall₂.nil)

/-- Whether all matchers are met by an empty series is a question of their operators and values. -/
theorem all_matchesEmpty_eq {ms ms' : List Matcher} (h : List.Forall₂ MatcherLike ms ms') :
    ms'.all Matcher.matchesEmpty = ms.all Matcher.matchesEmpty := by
  induction h with
  | nil => rfl
  | cons hm _ ih =>
    rw [List.all_cons, List.all_cons, ih]
    simp only [Matcher.matchesEmpty, hm.op, hm.value]

/-- No label becomes that of names. -/
theorem find_name_eq_none {ms ms' : List Matcher} (h : List.Forall₂ MatcherLike ms ms')
    (hnone : ms.find? (·.label == "__name__") = none) :
    ms'.find? (·.label == "__name__") = none := by
  induction h with
  | nil => rfl
  | @cons m m' ms ms' hm _ ih =>
    rw [List.find?_cons] at hnone ⊢
    split at hnone
    · cases hnone
    · next hne =>
      have hne' : (m'.label == "__name__") = false := by
        rcases hm.label with heq | hother
        · rw [heq, hne]
        · simpa using hother
      rw [hne']
      exact ih hnone

/-- The checks of a selection see no label but that of names, and no name. -/
theorem carriesOver_selection {name name' : Option String}
    {groups groups' : List (List Matcher)} (hname : name'.isSome = name.isSome)
    (h : GroupsLike groups groups') :
    CarriesOver (fun _ _ => True) (checkSelection name groups)
      (checkSelection name' groups') := by
  cases name with
  | none =>
    obtain rfl : name' = none := by simpa using hname
    refine (carriesOver_refuseIf ?_).bind fun _ _ _ => carriesOver_ok trivial
    rw [all_matchesEmpty_eq h]
    exact id
  | some n =>
    obtain ⟨n', rfl⟩ := Option.isSome_iff_exists.mp hname
    intro a ha
    have hfind : groups.flatten.find? (·.label == "__name__") = none := by
      cases hf : groups.flatten.find? (·.label == "__name__") with
      | none => rfl
      | some m => simp [checkSelection, hf] at ha
    exact ⟨⟨some n', groups'⟩, by simp [checkSelection, find_name_eq_none h hfind], trivial⟩

/-! ## 4. Phrases -/

/-- **A phrase that stands in for another one.**  Its checks succeed where those of the other do, and
give an expression that looks alike, also to the modifiers after it. -/
def Phrase.StandsIn (loose : Prop) (literal : Bool) (p p' : Phrase) : Prop :=
  CarriesOver (Like loose literal) p.check p'.check

/-- The same of a phrase after which no modifiers come. -/
def Phrase.OperandStandsIn (loose : Prop) (literal : Bool) (p p' : Phrase) : Prop :=
  CarriesOver (OperandLike loose literal) p.check p'.check

/-- Phrases that stand in for others one by one, as arguments from an index on; `literal` is about
the first one. -/
def Phrase.AllStandIn (due : Nat → Bool) (i : Nat) (literal : Bool) (ps ps' : List Phrase) : Prop :=
  CarriesOver (AllLike due i literal) (Phrase.checkAll ps) (Phrase.checkAll ps')

namespace Phrase

variable {p p' l l' r r' : Phrase} {ps ps' : List Phrase} {due : Nat → Bool} {i : Nat}

theorem StandsIn.weaken {loose' : Prop} {literal' : Bool} (h : StandsIn loose literal p p')
    (hloose : loose → loose') (hliteral : literal' = true → literal = true) :
    StandsIn loose' literal' p p' :=
  CarriesOver.mono h fun _ _ hlike => hlike.weaken hloose hliteral

theorem OperandStandsIn.weaken {loose' : Prop} {literal' : Bool}
    (h : OperandStandsIn loose literal p p') (hloose : loose → loose')
    (hliteral : literal' = true → literal = true) : OperandStandsIn loose' literal' p p' :=
  CarriesOver.mono h fun _ _ hlike => hlike.weaken hloose hliteral

theorem StandsIn.operand (h : StandsIn loose literal p p') : OperandStandsIn loose literal p p' :=
  CarriesOver.mono h fun _ _ hlike => hlike.toOperandLike

theorem standsIn_refl (p : Phrase) : StandsIn loose literal p p := by
  refine carriesOver_self.mono ?_
  rintro e _ rfl
  exact Like.refl e

theorem allStandIn_nil : AllStandIn due i literal [] [] := by
  unfold AllStandIn
  exact carriesOver_ok AllLike.nil

theorem OperandStandsIn.cons (h : OperandStandsIn (due i = false) literal p p')
    (hs : AllStandIn due (i + 1) false ps ps') :
    AllStandIn due i literal (p :: ps) (p' :: ps') := by
  unfold AllStandIn
  exact CarriesOver.bind h fun _ _ hlike => CarriesOver.bind hs fun _ _ hall =>
    carriesOver_ok (AllLike.cons hlike hall)

theorem checkAll_concat (ps : List Phrase) (p : Phrase) : Phrase.checkAll (ps ++ [p]) =
    Phrase.checkAll ps >>= fun es => p.check >>= fun e => .ok (es ++ [e]) := by
  induction ps with
  | nil =>
    rw [List.nil_append, Phrase.checkAll, Phrase.checkAll]
    cases p.check <;> rfl
  | cons q ps ih =>
    rw [List.cons_append, Phrase.checkAll, Phrase.checkAll, ih]
    cases q.check with
    | error e => rfl
    | ok a =>
      cases Phrase.checkAll ps with
      | error e => rfl
      | ok es => cases p.check <;> rfl

theorem length_of_checkAll {es : List Expr} (h : Phrase.checkAll ps = .ok es) :
    es.length = ps.length := by
  induction ps generalizing es with
  | nil =>
    cases h
    rfl
  | cons p ps ih =>
    rw [Phrase.checkAll] at h
    cases hp : p.check with
    | error e => rw [hp] at h; cases h
    | ok a =>
      cases hps : Phrase.checkAll ps with
      | error e => rw [hp, hps] at h; cases h
      | ok as =>
        rw [hp, hps] at h
        cases h
        rw [List.length_cons, List.length_cons, ih hps]

/-- One more argument at the end. -/
theorem AllStandIn.concat (h : AllStandIn due i literal ps ps')
    (hp : OperandStandsIn (due (i + ps.length) = false) (ps.isEmpty && literal) p p') :
    AllStandIn due i literal (ps ++ [p]) (ps' ++ [p']) := by
  unfold AllStandIn
  rw [checkAll_concat, checkAll_concat]
  intro as has
  cases hps : Phrase.checkAll ps with
  | error e => rw [hps] at has; cases has
  | ok es =>
    obtain ⟨es', hes', hlike⟩ := h es hps
    have hlength := length_of_checkAll hps
    have hempty : es.isEmpty = ps.isEmpty := by
      rw [Bool.eq_iff_iff, List.isEmpty_iff_length_eq_zero, List.isEmpty_iff_length_eq_zero, hlength]
    rw [hps] at has
    rw [hes']
    refine CarriesOver.bind hp (fun a a' ha => carriesOver_ok (hlike.concat ?_)) as has
    rwa [hlength, hempty]

theorem AllStandIn.weaken {literal' : Bool} (h : AllStandIn due i literal ps ps')
    (hliteral : literal' = true → literal = true) : AllStandIn due i literal' ps ps' := by
  refine CarriesOver.mono h fun _ _ hall => ?_
  cases hall with
  | nil => exact AllLike.nil
  | cons hlike htail => exact AllLike.cons (hlike.weaken id hliteral) htail

/-- A number whose value does not matter may be replaced by a sound one. -/
theorem standsIn_sound (s : Span) {s' : Span} (h : s'.IsSound) :
    StandsIn loose false (.number s) (.number s') := by
  obtain ⟨x, hx, -⟩ := h.value
  unfold StandsIn
  rw [Phrase.check, Phrase.check, hx]
  intro e he
  cases hs : s.value with
  | error err => rw [hs] at he; cases he
  | ok y =>
    rw [hs] at he
    cases he
    exact ⟨.number x, rfl, ⟨Or.inl rfl, fun hl => absurd hl (by simp)⟩,
      fun _ hh => absurd hh (by simp [Expr.handle?])⟩

theorem standsIn_selector {name name' : Option String} (hname : name'.isSome = name.isSome) :
    StandsIn loose literal (.vector name none) (.vector name' none) := by
  unfold StandsIn
  exact (carriesOver_selection hname (show GroupsLike [] [] from List.Forall₂.nil)).bind
    fun _ _ _ => carriesOver_ok (like_of_handle rfl rfl (Handle.within_refl _))

theorem standsIn_matchers {name name' : Option String} {ms ms' : MatchersPhrase}
    (hname : name'.isSome = name.isSome) (h : MatchersPhrase.Like ms ms') :
    StandsIn loose literal (.vector name (some ms)) (.vector name' (some ms')) := by
  unfold StandsIn
  exact (carriesOver_matchers h).bind fun _ _ hgroups =>
    (carriesOver_selection hname hgroups).bind fun _ _ _ =>
      carriesOver_ok (like_of_handle rfl rfl (Handle.within_refl _))

theorem OperandStandsIn.paren {outer : Bool} (h : OperandStandsIn loose literal p p') :
    StandsIn loose outer (.paren p) (.paren p') := by
  unfold StandsIn
  exact CarriesOver.map h fun _ _ hlike => like_of_type hlike.type rfl (by simp)

theorem StandsIn.plus (h : StandsIn loose literal p p') :
    StandsIn loose literal (.plus p) (.plus p') := by
  unfold StandsIn
  exact h

theorem OperandStandsIn.plus (h : OperandStandsIn loose literal p p') :
    OperandStandsIn loose literal (.plus p) (.plus p') := by
  unfold OperandStandsIn
  exact h

theorem OperandStandsIn.minus (h : OperandStandsIn loose literal p p') :
    StandsIn loose literal (.minus p) (.minus p') := by
  unfold StandsIn
  exact CarriesOver.bind h fun _ _ hlike => carriesOver_checkMinus hlike

theorem OperandStandsIn.binary {outer : Bool} {m m' : ModifierPhrase} (op : Operator)
    (hm : CarriesOver ModifierLike m.check m'.check) (hl : OperandStandsIn loose false l l')
    (hr : OperandStandsIn loose false r r') :
    StandsIn loose outer (.binary op m l r) (.binary op m' l' r') := by
  unfold StandsIn
  exact CarriesOver.bind hl fun _ _ hl => hm.bind fun _ _ hm =>
    CarriesOver.bind hr fun _ _ hr => carriesOver_checkBinary hm hl hr op

theorem AllStandIn.call {outer : Bool} {name : String} (extra : Bool)
    (h : AllStandIn (scalarDue name) 0 (domainFunctions.contains name) ps ps') :
    StandsIn loose outer (.call name ps extra) (.call name ps' extra) := by
  unfold StandsIn
  rw [Phrase.check, Phrase.check]
  cases hf : Function.find? name with
  | none => exact carriesOver_error
  | some f =>
    exact (carriesOver_refuseIf id).bind fun _ _ _ => CarriesOver.bind h fun _ _ hall =>
      carriesOver_checkCall hf hall

theorem AllStandIn.aggregate {outer : Bool} {g g' : Option GroupingPhrase} (op : Aggregation)
    (extra : Bool) (hg : CarriesOver (fun _ _ => True) (checkGrouping g) (checkGrouping g'))
    (h : AllStandIn op.scalarDue 0 false ps ps') :
    StandsIn loose outer (.aggregate op g ps extra) (.aggregate op g' ps' extra) := by
  unfold StandsIn
  exact hg.bind fun _ _ _ => (carriesOver_refuseIf id).bind fun _ _ _ =>
    CarriesOver.bind h fun _ _ hall => carriesOver_checkAggregate op _ _ hall

theorem StandsIn.range {s s' : Span} (h : StandsIn loose literal p p') (hs : s.Like s') :
    StandsIn loose literal (.range p s) (.range p' s') := by
  unfold StandsIn
  exact CarriesOver.bind h fun _ _ hlike => (carriesOver_length hs).bind fun _ _ _ =>
    carriesOver_checkRange hlike _ _

theorem standsIn_noRange : StandsIn loose literal (.noRange p) (.noRange p') := by
  unfold StandsIn
  exact carriesOver_error

/-- Steps of subqueries that are alike. -/
inductive StepLike : Option Span → Option Span → Prop
  | none : StepLike none none
  | some {s s' : Span} : s.Like s' → StepLike (some s) (some s')

theorem OperandStandsIn.subquery {outer : Bool} {s s' : Span} {st st' : Option Span}
    (h : OperandStandsIn loose literal p p') (hs : s.Like s') (hst : StepLike st st') :
    StandsIn loose outer (.subquery p s st) (.subquery p' s' st') := by
  unfold StandsIn
  have hend : ∀ a a' r r' sp sp', OperandLike loose literal a a' →
      CarriesOver (Like loose outer)
        (do refuseIf (a.type != .vector) (.subqueryOf a.type); .ok (.subquery a none none r sp))
        (do refuseIf (a'.type != .vector) (.subqueryOf a'.type)
            .ok (.subquery a' none none r' sp')) := by
    intro a a' r r' sp sp' hlike
    refine (carriesOver_refuseIf ?_).bind fun _ _ _ =>
      carriesOver_ok (like_of_handle rfl rfl (Handle.within_refl _))
    simp only [bne_eq_false_iff_eq]
    exact hlike.vector_of_vector
  refine CarriesOver.bind h fun _ _ hlike => (carriesOver_length hs).bind fun _ _ _ => ?_
  cases hst with
  | none => exact hend _ _ _ _ _ _ hlike
  | some hstep =>
    exact ((carriesOver_length hstep).map (S := fun _ _ => True) fun _ _ _ => trivial).bind
      fun _ _ _ => hend _ _ _ _ _ _ hlike

theorem StandsIn.offset {s s' : Span} (negative negative' : Bool) (h : StandsIn loose literal p p')
    (hs : s.Like s') :
    StandsIn loose literal (.offset p negative s) (.offset p' negative' s') := by
  unfold StandsIn
  exact CarriesOver.bind h fun _ _ hlike => (carriesOver_length hs).bind fun _ _ _ =>
    carriesOver_checkOffset hlike _ _

theorem standsIn_noOffset : StandsIn loose literal (.noOffset p) (.noOffset p') := by
  unfold StandsIn
  exact carriesOver_error

theorem StandsIn.atTime {t t' : TimePhrase} (h : StandsIn loose literal p p')
    (ht : t.Like t') : StandsIn loose literal (.atTime p t) (.atTime p' t') := by
  unfold StandsIn
  exact CarriesOver.bind h fun _ _ hlike => (carriesOver_time ht).bind fun _ _ _ =>
    carriesOver_checkTime hlike _ _

theorem standsIn_noTime : StandsIn loose literal (.noTime p) (.noTime p') := by
  unfold StandsIn
  exact carriesOver_error

end Phrase

end PanelLint.Promql
