import PanelLint.Proofs.Query.Rewriting
/-!
# Queries without an expansion

A reference means something, or it does not, by its name alone: `Resolvable` asks for one of
Grafana's automatic intervals, for one of its own variables, or for a declared variable.  Neither
the position of the reference nor the selected value has a part in it.

* `substitute_eq_error_iff`: a reference has no text just when its name means nothing;
* `foldlM_write_eq_error_iff`: a run over pieces stops at the first such reference;
* `expand_fails_at_first_unresolvable`: what this says about a whole query.  The pieces are those of
  any reading of the query from left to right, since there is only one (`factored_iff`).
-/

namespace PanelLint.Query

open PanelLint.Text

variable {templates : List Template} {query name : List Char} {e : ExpansionError}

/-! ## 1. There is one way to read a query -/

theorem LeftToRight.eq_scan {cs : List Char} {ps : List Piece} (h : LeftToRight cs ps) :
    ps = Piece.scan cs := by
  induction h with
  | nil => exact Piece.scan_nil.symm
  | kept hnone _ ih => rw [Piece.scan_of_none (Reference.read?_eq_none_iff.mpr hnone), ih]
  | reference hbegins _ ih =>
    rw [Piece.scan_of_some (Reference.read?_eq_some_iff.mpr hbegins), ih]

theorem Factors.eq_ofSegment {s : Segment} {ps : List Piece} (h : Factors s ps) :
    ps = Piece.ofSegment s := by
  cases h with
  | code hread => exact hread.eq_scan
  | literal => rfl

/-- **The factors of a query are its pieces.** -/
theorem factored_iff {ps : List Piece} : Factored query ps ↔ ps = pieces query := by
  constructor
  · rintro ⟨-, groups, hgroups, rfl⟩
    have hmap : groups = (Segment.split query).map Piece.ofSegment := by
      generalize Segment.split query = ss at hgroups
      induction hgroups with
      | nil => rfl
      | cons hs _ ih => rw [List.map_cons, ← hs.eq_ofSegment, ← ih]
    rw [hmap, pieces, List.flatMap_def]
  · rintro rfl
    exact factored_pieces query

/-! ## 2. Names that mean something -/

/-- **A name that means something.**  Automatic intervals are not listed anywhere; Grafana's own
variables are those of its table, whatever the dashboard declares; every other name has to be
declared. -/
inductive Resolvable (templates : List Template) (name : List Char) : Prop
  | autoInterval : autoIntervalPrefix <+: name → Resolvable templates name
  | global {text : String} : globalPrefix <+: name → (String.ofList name, text) ∈ globals →
      Resolvable templates name
  | declared {t : Template} : ¬ globalPrefix <+: name → t ∈ templates →
      t.name = String.ofList name → Resolvable templates name

/-- The error for a name that means nothing. -/
def ExpansionError.ofName (name : List Char) : ExpansionError :=
  if globalPrefix.isPrefixOf name then .unknownGlobal (String.ofList name)
  else .undeclaredVariable (String.ofList name)

/-- What the dashboard declares has no part in the meaning of one of Grafana's own names. -/
theorem resolvable_global_iff (hauto : ¬ autoIntervalPrefix <+: name)
    (hglobal : globalPrefix <+: name) :
    Resolvable templates name ↔ ∃ text, (String.ofList name, text) ∈ globals := by
  constructor
  · rintro (h | ⟨-, hmem⟩ | ⟨hnot, -, -⟩)
    · exact absurd h hauto
    · exact ⟨_, hmem⟩
    · exact absurd hglobal hnot
  · rintro ⟨text, hmem⟩
    exact .global hglobal hmem

/-- Every other name is one that the dashboard declares. -/
theorem resolvable_declared_iff (hglobal : ¬ globalPrefix <+: name) :
    Resolvable templates name ↔ ∃ t ∈ templates, t.name = String.ofList name := by
  constructor
  · rintro (hauto | ⟨h, -⟩ | ⟨-, hmem, hname⟩)
    · exact absurd (prefix_global_of_autoInterval hauto) hglobal
    · exact absurd h hglobal
    · exact ⟨_, hmem, hname⟩
  · rintro ⟨t, hmem, hname⟩
    exact .declared hglobal hmem hname

theorem lookup_globals_eq_none_iff : globals.lookup (String.ofList name) = none ↔
    ¬ ∃ text, (String.ofList name, text) ∈ globals := by
  rw [List.lookup_eq_none_iff]
  constructor
  · rintro h ⟨text, hmem⟩
    simpa using h _ hmem
  · rintro h ⟨key, text⟩ hmem
    rw [bne_iff_ne]
    rintro rfl
    exact h ⟨text, hmem⟩

theorem findTemplate?_eq_none_iff : findTemplate? templates name = none ↔
    ¬ ∃ t ∈ templates, t.name = String.ofList name := by
  simp only [findTemplate?, List.find?_eq_none, beq_iff_eq, not_exists, not_and]
  refine forall₂_congr fun t _ => not_congr ⟨fun h => ?_, fun h => ?_⟩
  · rw [← h, String.ofList_toList]
  · rw [h, String.toList_ofList]

/-- **A reference has no text just when its name means nothing**, wherever it stands. -/
theorem substitute_eq_error_iff (p : Position) :
    substitute templates name p = .error e ↔
      ¬ Resolvable templates name ∧ e = .ofName name := by
  simp only [substitute, ExpansionError.ofName, List.isPrefixOf_iff_prefix]
  by_cases hauto : autoIntervalPrefix <+: name
  · have hres : Resolvable templates name := .autoInterval hauto
    simp [hauto, hres]
  by_cases hglobal : globalPrefix <+: name
  · rw [if_neg hauto, if_pos hglobal, if_pos hglobal, resolvable_global_iff hauto hglobal,
      ← lookup_globals_eq_none_iff]
    cases globals.lookup (String.ofList name) <;> simp [eq_comm]
  · rw [if_neg hauto, if_neg hglobal, if_neg hglobal, resolvable_declared_iff hglobal,
      ← findTemplate?_eq_none_iff]
    cases findTemplate? templates name <;> simp [eq_comm]

/-! ## 3. The first reference without a text -/

/-- One step fails just at a reference whose name means nothing. -/
theorem write_eq_error_iff {p : Progress} {piece : Piece} :
    p.write templates piece = .error e ↔
      ∃ r, piece = .reference r ∧ ¬ Resolvable templates r.name ∧ e = .ofName r.name := by
  cases piece with
  | kept c => simp [Progress.write]
  | literal l => simp [Progress.write]
  | reference r =>
    simp only [Progress.write, Piece.reference.injEq, exists_eq_left']
    rw [← substitute_eq_error_iff (Position.of p.before p.depth)]
    cases substitute templates r.name (Position.of p.before p.depth) <;> simp [Except.map]

/-- **The first reference of some pieces whose name means nothing.** -/
def FirstUnresolvable (templates : List Template) (ps : List Piece) (r : Reference) : Prop :=
  ∃ pre post, ps = pre ++ .reference r :: post ∧
    (∀ r', .reference r' ∈ pre → Resolvable templates r'.name) ∧ ¬ Resolvable templates r.name

theorem firstUnresolvable_cons {piece : Piece} {ps : List Piece} {r : Reference} :
    FirstUnresolvable templates (piece :: ps) r ↔
      (piece = .reference r ∧ ¬ Resolvable templates r.name) ∨
        ((∀ r', piece = .reference r' → Resolvable templates r'.name) ∧
          FirstUnresolvable templates ps r) := by
  constructor
  · rintro ⟨pre, post, heq, hpre, hr⟩
    cases pre with
    | nil => exact Or.inl ⟨(List.cons.inj heq).1, hr⟩
    | cons q pre =>
      obtain ⟨rfl, rfl⟩ := List.cons.inj heq
      exact Or.inr ⟨fun r' hr' => hpre r' (hr' ▸ List.mem_cons_self), pre, post, rfl,
        fun r' hr' => hpre r' (List.mem_cons_of_mem _ hr'), hr⟩
  · rintro (⟨rfl, hr⟩ | ⟨hpiece, pre, post, rfl, hpre, hr⟩)
    · exact ⟨[], ps, rfl, by simp, hr⟩
    · refine ⟨piece :: pre, post, rfl, fun r' hr' => ?_, hr⟩
      rcases List.mem_cons.mp hr' with heq | hr'
      · exact hpiece r' heq.symm
      · exact hpre r' hr'

/-- **A run stops at the first reference whose name means nothing.** -/
theorem foldlM_write_eq_error_iff {ps : List Piece} {p : Progress} :
    ps.foldlM (Progress.write templates) p = .error e ↔
      ∃ r, FirstUnresolvable templates ps r ∧ e = .ofName r.name := by
  induction ps generalizing p with
  | nil => simp [FirstUnresolvable, pure, Except.pure]
  | cons piece ps ih =>
    rw [List.foldlM_cons]
    simp only [firstUnresolvable_cons]
    cases hw : p.write templates piece with
    | error e' =>
      -- the piece is itself the first such reference, whatever follows
      obtain ⟨r, rfl, hr, rfl⟩ := write_eq_error_iff.mp hw
      simp only [bind, Except.bind, Except.error.injEq, Piece.reference.injEq]
      constructor
      · rintro rfl
        exact ⟨r, Or.inl ⟨rfl, hr⟩, rfl⟩
      · rintro ⟨r', ⟨rfl, -⟩ | ⟨hall, -⟩, rfl⟩
        · rfl
        · exact absurd (hall r rfl) hr
    | ok p' =>
      -- what was written before has no part in which reference comes first in the rest
      have hpiece : ∀ r, piece = .reference r → Resolvable templates r.name := by
        intro r hr
        by_contra hno
        rw [write_eq_error_iff.mpr ⟨r, hr, hno, rfl⟩] at hw
        cases hw
      refine ih.trans (exists_congr fun r => and_congr_left fun _ => ?_)
      constructor
      · exact fun hfirst => Or.inr ⟨hpiece, hfirst⟩
      · rintro (⟨hr, hno⟩ | ⟨-, hfirst⟩)
        · exact absurd (hpiece r hr) hno
        · exact hfirst

/-- Where some name means nothing, there is a first such name. -/
theorem exists_firstUnresolvable_iff {ps : List Piece} :
    (∃ r, FirstUnresolvable templates ps r) ↔
      ∃ r, .reference r ∈ ps ∧ ¬ Resolvable templates r.name := by
  constructor
  · rintro ⟨r, pre, post, rfl, -, hr⟩
    exact ⟨r, by simp, hr⟩
  · rintro ⟨r, hmem, hr⟩
    induction ps with
    | nil => exact absurd hmem (by simp)
    | cons piece ps ih =>
      by_cases hpiece : ∃ r', piece = .reference r' ∧ ¬ Resolvable templates r'.name
      · obtain ⟨r', hr'⟩ := hpiece
        exact ⟨r', firstUnresolvable_cons.mpr (Or.inl hr')⟩
      · push Not at hpiece
        rcases List.mem_cons.mp hmem with heq | hmem
        · exact absurd (hpiece r heq.symm) hr
        · obtain ⟨r', hfirst⟩ := ih hmem
          exact ⟨r', firstUnresolvable_cons.mpr (Or.inr ⟨hpiece, hfirst⟩)⟩

/-! ## 4. Queries -/

/-- **A query with a reference, outside its literals, whose name means nothing.** -/
def HasUnresolvable (templates : List Template) (query : List Char) : Prop :=
  ∃ ps, Factored query ps ∧ ∃ r, .reference r ∈ ps ∧ ¬ Resolvable templates r.name

theorem expand_eq_error_iff :
    expand templates query = .error e ↔
      ∃ r, FirstUnresolvable templates (pieces query) r ∧ e = .ofName r.name := by
  rw [← foldlM_write_eq_error_iff (p := {})]
  unfold expand
  cases (pieces query).foldlM (Progress.write templates) {} <;> simp [Except.map]

theorem exists_expand_eq_error_iff :
    (∃ e, expand templates query = .error e) ↔ HasUnresolvable templates query := by
  simp only [HasUnresolvable, factored_iff, exists_eq_left]
  rw [← exists_firstUnresolvable_iff]
  constructor
  · rintro ⟨e, he⟩
    obtain ⟨r, hr, -⟩ := expand_eq_error_iff.mp he
    exact ⟨r, hr⟩
  · rintro ⟨r, hr⟩
    exact ⟨_, expand_eq_error_iff.mpr ⟨r, hr, rfl⟩⟩

theorem exists_expand_eq_ok_iff : (∃ out, expand templates query = .ok out) ↔
    ∀ r, .reference r ∈ pieces query → Resolvable templates r.name := by
  have hok : (∃ out, expand templates query = .ok out) ↔
      ¬ ∃ e, expand templates query = .error e := by
    cases expand templates query <;> simp
  rw [hok, exists_expand_eq_error_iff]
  simp only [HasUnresolvable, factored_iff, exists_eq_left, not_exists, not_and, not_not]

/-- **Expansion fails exactly where it must.**  A query has no expansion just when the name of some
reference outside its literals means nothing, and the error is then the one for the first such
name. -/
theorem expand_fails_at_first_unresolvable (templates : List Template) (query : List Char) :
    ((∃ e, expand templates query = .error e) ↔ HasUnresolvable templates query) ∧
    ∀ e, expand templates query = .error e ↔
      ∃ pre r post, Factored query (pre ++ .reference r :: post) ∧
        (∀ r', .reference r' ∈ pre → Resolvable templates r'.name) ∧
        ¬ Resolvable templates r.name ∧ e = .ofName r.name := by
  refine ⟨exists_expand_eq_error_iff, fun e => expand_eq_error_iff.trans ?_⟩
  simp only [factored_iff]
  constructor
  · rintro ⟨r, ⟨pre, post, heq, hpre, hr⟩, rfl⟩
    exact ⟨pre, r, post, heq.symm, hpre, hr, rfl⟩
  · rintro ⟨pre, r, post, heq, hpre, hr, rfl⟩
    exact ⟨r, ⟨pre, post, heq.symm, hpre, hr⟩, rfl⟩

/-- A declaration does not help a name that begins like Grafana's own. -/
example : expand [{ name := "__nope" }, { name := "b" }] "f('$a', $b, [[__nope]], $c)".toList =
    .error (.unknownGlobal "__nope") := by
  decide +kernel

end PanelLint.Query
