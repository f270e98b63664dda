import Mathlib
import PanelLint.Proofs.Rule.Findings
import PanelLint.Proofs.Rule.Verdicts
/-!
# A new panel on a dashboard

A target is judged by itself, with one exception: a reference to a panel is looked up among all
panels.  So a panel that is new on a dashboard, wherever it is put, adds the findings at its own
targets and those of the panels inside it, and of the others it changes only reports of a panel that
is missing and now is there.

* `Judged.eq_missing_iff`: the report says which panel is missing;
* `updated_of_finds`: what becomes of one finding;
* `lint_after_insertion`: what becomes of all findings.
-/

namespace PanelLint

namespace ValidQuery

variable {d d' : Dashboard} {p p' : Panel} {t : Target} {v : Verdict} {new : Panel}

/-! ## 1. Reports of a missing panel -/

/-- **A target that refers to a panel which is not there.** -/
structure Lacks (d : Dashboard) (p : Panel) (t : Target) : Prop where
  concerns : Concerns d p
  blank : Text.trim t.expr.toList = []
  pos : 0 < t.panelId
  missing : ∀ q, d.Holds q → q.id ≠ t.panelId

/-- The report, at a panel with this title, that there is no panel with this id. -/
def missing (d : Dashboard) (title : String) (id : Int) : Verdict :=
  .error (danglingReference d { title := title } { panelId := id })

theorem missing_inj {title : String} {id id' : Int} :
    missing d title id = missing d title id' ↔ id = id' := by
  simp only [missing, danglingReference, place, Verdict.error, Verdict.mk.injEq, true_and,
    String.append_left_inj, String.append_right_inj]
  exact Int.repr_inj

theorem emptyQuery_ne_missing {id : Int} :
    .error (emptyQuery d p t) ≠ missing d p.title id := by
  -- both messages begin with the place, and part at the first letter after it
  simp only [missing, danglingReference, emptyQuery, place, Verdict.error, ne_eq,
    Verdict.mk.injEq, true_and, String.append_assoc, String.append_right_inj]
  intro h
  simpa using congrArg String.toList h

theorem invalidQuery_ne_missing {e : Query.QueryError} {id : Int} :
    .error (invalidQuery d p t e) ≠ missing d p.title id := by
  simp only [missing, danglingReference, invalidQuery, place, Verdict.error, ne_eq,
    Verdict.mk.injEq, true_and, String.append_assoc, String.append_right_inj]
  intro h
  simpa using congrArg String.toList h

theorem success_ne_missing {title : String} {id : Int} : .success ≠ missing d title id := by
  simp [Verdict.success, missing, Verdict.error]

/-- **The report says which panel is missing.**  No other verdict reads like it. -/
theorem Judged.eq_missing_iff (h : Judged d p t v) {id : Int} :
    v = missing d p.title id ↔ Lacks d p t ∧ t.panelId = id := by
  cases h with
  | unconcerned hc => exact iff_of_false success_ne_missing fun h => hc h.1.concerns
  | empty _ _ hid =>
    refine iff_of_false emptyQuery_ne_missing fun h => ?_
    have := h.1.pos
    omega
  | referring _ _ _ hq hqid =>
    exact iff_of_false success_ne_missing fun h => h.1.missing _ hq hqid
  | dangling hc hblank hid hnone =>
    rw [show Verdict.error (danglingReference d p t) = missing d p.title t.panelId from rfl,
      missing_inj]
    exact (and_iff_right ⟨hc, hblank, hid, hnone⟩).symm
  | valid _ hblank _ => exact iff_of_false success_ne_missing fun h => hblank h.1.blank
  | invalid _ hblank _ => exact iff_of_false invalidQuery_ne_missing fun h => hblank h.1.blank

/-! ## 2. What becomes of a verdict -/

theorem concerns_iff_of_inserted (hins : Dashboard.Inserted new d d') (hp : p.Alike p') :
    Concerns d' p' ↔ Concerns d p := by
  rw [Concerns, Concerns, Dashboard.ForPrometheus, Dashboard.ForPrometheus, hins.templating_eq,
    hp.kind_eq]

theorem place_of_inserted (hins : Dashboard.Inserted new d d') (hp : p.Alike p') :
    place d' p' = place d p := by
  rw [place, place, hins.title_eq, hp.title_eq]

/-- **A missing panel is found** when it comes with the new one. -/
theorem Lacks.found (h : Lacks d p t) (hins : Dashboard.Inserted new d d') (hp : p.Alike p')
    (hfound : ∃ q ∈ new.subtree, q.id = t.panelId) : Judged d' p' t .success := by
  obtain ⟨q, hq, hqid⟩ := hins.holds_id_iff.mpr (Or.inr hfound)
  exact .referring ((concerns_iff_of_inserted hins hp).mpr h.concerns) h.blank h.pos hq hqid

/-- **Every other verdict stays.** -/
theorem Judged.kept (h : Judged d p t v) (hins : Dashboard.Inserted new d d') (hp : p.Alike p')
    (hkept : ¬ (Lacks d p t ∧ ∃ q ∈ new.subtree, q.id = t.panelId)) : Judged d' p' t v := by
  have hconcerns := concerns_iff_of_inserted (p := p) hins hp
  have hplace := place_of_inserted hins hp
  have htemplates := congrArg Templating.list hins.templating_eq
  cases h with
  | unconcerned hc => exact .unconcerned (mt hconcerns.mp hc)
  | empty hc hblank hid =>
    rw [emptyQuery, ← hplace]
    exact .empty (hconcerns.mpr hc) hblank hid
  | referring hc hblank hid hq hqid =>
    obtain ⟨q', hq', hqid'⟩ := hins.holds_id_iff.mpr (Or.inl ⟨_, hq, hqid⟩)
    exact .referring (hconcerns.mpr hc) hblank hid hq' hqid'
  | dangling hc hblank hid hnone =>
    rw [danglingReference, ← hplace]
    refine .dangling (hconcerns.mpr hc) hblank hid fun q hq hqid => ?_
    rcases hins.holds_id_iff.mp ⟨q, hq, hqid⟩ with ⟨q', hq', hqid'⟩ | hnew
    · exact hnone q' hq' hqid'
    · exact hkept ⟨⟨hc, hblank, hid, hnone⟩, hnew⟩
  | valid hc hblank hparse =>
    exact .valid (hconcerns.mpr hc) hblank (htemplates ▸ hparse)
  | invalid hc hblank hparse =>
    rw [invalidQuery, ← hplace]
    exact .invalid (hconcerns.mpr hc) hblank (htemplates ▸ hparse)

/-! ## 3. What becomes of a finding -/

/-- The finding reports that a panel is missing which stands in the new tree. -/
def Resolved (d : Dashboard) (new : Panel) (f : Finding) : Prop :=
  ∃ id, f.verdict = missing d f.panel id ∧ ∃ q ∈ new.subtree, q.id = id

/-- **A finding after the new panel.**  It stays as it is, but for the verdict if that was the
report of a panel which now is there. -/
structure Updated (d : Dashboard) (new : Panel) (f f' : Finding) : Prop where
  rule_eq : f'.rule = f.rule
  panel_eq : f'.panel = f.panel
  of_resolved : Resolved d new f → f'.verdict = .success
  of_not_resolved : ¬ Resolved d new f → f'.verdict = f.verdict

/-- No success becomes an error. -/
theorem Updated.isError_eq_false {f f' : Finding} (h : Updated d new f f')
    (hf : f.verdict.isError = false) : f'.verdict.isError = false := by
  by_cases hres : Resolved d new f
  · rw [h.of_resolved hres]
    rfl
  · rw [h.of_not_resolved hres, hf]

/-- The job at a target of a panel. -/
def jobAt (p : Panel) (t : Target) : Job := ⟨p, t, validQueryRule⟩

theorem panelJobs_all (p : Panel) : Rules.all.panelJobs p = p.targets.map (jobAt p) := by
  rw [List.map_eq_flatMap]
  rfl

/-- **One finding is updated.** -/
theorem updated_of_finds (hins : Dashboard.Inserted new d d') (hp : p.Alike p') {f f' : Finding}
    (hf : (jobAt p t).Finds d f) (hf' : (jobAt p' t).Finds d' f') : Updated d new f f' := by
  have hjudged := judged_of_check hf.check_eq
  have hresolved : Resolved d new f ↔ Lacks d p t ∧ ∃ q ∈ new.subtree, q.id = t.panelId := by
    unfold Resolved
    rw [hf.panel_eq]
    constructor
    · rintro ⟨id, hmissing, hfound⟩
      obtain ⟨hlacks, rfl⟩ := hjudged.eq_missing_iff.mp hmissing
      exact ⟨hlacks, hfound⟩
    · rintro ⟨hlacks, hfound⟩
      exact ⟨_, hjudged.eq_missing_iff.mpr ⟨hlacks, rfl⟩, hfound⟩
  -- the rule says one thing of a target, so the verdict is found by judging it anew
  have hverdict : ∀ v, Judged d' p' t v → f'.verdict = v := by
    intro v hv
    exact Except.ok.inj (hf'.check_eq.symm.trans hv.check_eq)
  refine ⟨hf'.rule_eq.trans hf.rule_eq.symm, ?_, fun h => ?_, fun h => ?_⟩
  · rw [hf'.panel_eq, hf.panel_eq]
    exact hp.title_eq
  · obtain ⟨hlacks, hfound⟩ := hresolved.mp h
    exact hverdict _ (hlacks.found hins hp hfound)
  · exact hverdict _ (hjudged.kept hins hp (mt hresolved.mpr h))

/-! ## 4. What becomes of all findings -/

/-- The findings at the targets of some panels, panel by panel. -/
def FindsAll (d : Dashboard) (ps : List Panel) (fs : List Finding) : Prop :=
  List.Forall₂ (Job.Finds d) (ps.flatMap fun p => p.targets.map (jobAt p)) fs

theorem lint_all_eq_ok_iff {fs : List Finding} :
    Rules.all.lint d = .ok fs ↔ FindsAll d d.allPanels fs := by
  rw [lint_eq_ok_iff, FindsAll, Rules.jobs, funext panelJobs_all]

theorem FindsAll.append {ps qs : List Panel} {fs gs : List Finding} (h : FindsAll d ps fs)
    (h' : FindsAll d qs gs) : FindsAll d (ps ++ qs) (fs ++ gs) := by
  rw [FindsAll, List.flatMap_append]
  exact List.rel_append h h'

theorem exists_findsAll {ps : List Panel}
    (h : ∀ p ∈ ps, ∀ t ∈ p.targets, Query.ParserReturns d.templating.list t.expr.toList) :
    ∃ fs, FindsAll d ps fs := by
  refine exists_forall₂ fun job hjob => ?_
  obtain ⟨p, hp, hjob⟩ := List.mem_flatMap.mp hjob
  obtain ⟨t, ht, rfl⟩ := List.mem_map.mp hjob
  obtain ⟨v, hv⟩ := exists_check (p := p) (h p hp t ht)
  exact ⟨⟨_, _, v⟩, rfl, rfl, hv⟩

/-- Jobs at the same target of panels that differ only in what is inside them. -/
def AlikeJobs (job job' : Job) : Prop :=
  ∃ p p' t, p.Alike p' ∧ job = jobAt p t ∧ job' = jobAt p' t

theorem forall₂_alikeJobs {ps ps' : List Panel} (h : List.Forall₂ Panel.Alike ps ps') :
    List.Forall₂ AlikeJobs (ps.flatMap fun p => p.targets.map (jobAt p))
      (ps'.flatMap fun p => p.targets.map (jobAt p)) := by
  induction h with
  | nil => exact .nil
  | @cons p p' ps ps' hp _ ih =>
    rw [List.flatMap_cons, List.flatMap_cons, hp.targets_eq]
    refine List.rel_append ?_ ih
    rw [List.forall₂_map_left_iff, List.forall₂_map_right_iff, List.forall₂_same]
    exact fun t _ => ⟨p, p', t, hp, rfl, rfl⟩

/-- **The findings at old panels are updated one by one.** -/
theorem FindsAll.updated {ps ps' : List Panel} {fs fs' : List Finding} (h : FindsAll d ps fs)
    (h' : FindsAll d' ps' fs') (hins : Dashboard.Inserted new d d')
    (hps : List.Forall₂ Panel.Alike ps ps') : List.Forall₂ (Updated d new) fs fs' := by
  have hjobs := forall₂_alikeJobs hps
  unfold FindsAll at h h'
  generalize (ps.flatMap fun p => p.targets.map (jobAt p)) = jobs at h hjobs
  generalize (ps'.flatMap fun p => p.targets.map (jobAt p)) = jobs' at h' hjobs
  induction hjobs generalizing fs fs' with
  | nil =>
    cases h
    cases h'
    exact .nil
  | cons hjob _ ih =>
    obtain ⟨p, p', t, hp, rfl, rfl⟩ := hjob
    cases h with
    | cons hf hfs =>
      cases h' with
      | cons hf' hfs' => exact .cons (updated_of_finds hins hp hf hf') (ih hfs hfs')

/-- **Adding a panel is local.**  Where the parser returns on every query of the dashboard with the
new panel, the findings are the old ones, updated, with one block of new ones in between: one for
each target of each panel of the new tree, in order.  No success among the old ones becomes an
error. -/
theorem lint_after_insertion (new : Panel) (d d' : Dashboard)
    (hins : Dashboard.Inserted new d d')
    (hreturns : d'.ParserReturns) :
    ∃ before after before' block after',
      Rules.all.lint d = .ok (before ++ after) ∧
      Rules.all.lint d' = .ok (before' ++ block ++ after') ∧
      FindsAll d' new.subtree block ∧
      List.Forall₂ (Updated d new) before before' ∧ List.Forall₂ (Updated d new) after after' ∧
      List.Forall₂ (fun f f' => f.verdict.isError = false → f'.verdict.isError = false)
        (before ++ after) (before' ++ after') := by
  obtain ⟨ps, ps', qs, hold, hnew, halike⟩ := hins.allPanels
  have hreturns' : d.ParserReturns := by
    intro p hp t ht
    obtain ⟨p', hp', hpp'⟩ := hins.exists_alike hp
    rw [← hins.templating_eq]
    exact hreturns p' hp' t (hpp'.targets_eq ▸ ht)
  simp only [Dashboard.ParserReturns, ← mem_allPanels_iff, hold, hnew, List.mem_append]
    at hreturns hreturns'
  obtain ⟨before, hbefore⟩ := exists_findsAll fun p hp => hreturns' p (Or.inl hp)
  obtain ⟨after, hafter⟩ := exists_findsAll fun p hp => hreturns' p (Or.inr hp)
  obtain ⟨before', hbefore'⟩ := exists_findsAll fun p hp => hreturns p (Or.inl (Or.inl hp))
  obtain ⟨block, hblock⟩ := exists_findsAll fun p hp => hreturns p (Or.inl (Or.inr hp))
  obtain ⟨after', hafter'⟩ := exists_findsAll fun p hp => hreturns p (Or.inr hp)
  have hub := hbefore.updated hbefore' hins halike
  have hua := hafter.updated hafter' hins (forall₂_alike_self qs)
  refine ⟨before, after, before', block, after', ?_, ?_, hblock, hub, hua, ?_⟩
  · rw [lint_all_eq_ok_iff, hold]
    exact hbefore.append hafter
  · rw [lint_all_eq_ok_iff, hnew]
    exact (hbefore'.append hblock).append hafter'
  · exact (List.rel_append hub hua).imp fun f f' hf => hf.isError_eq_false

/-- A panel with a query, and a reference to a panel that is in none of the trees of `overview`. -/
def latency : Panel :=
  { id := 1, title := "Latency", kind := "graph"
    targets := [{ expr := "rate(up[$w])" }, { panelId := 11 }] }

/-- A row with that panel in it. -/
def details : Panel :=
  { id := 10, title := "Details", kind := "row"
    panels := [{ id := 11, title := "Requests", kind := "graph", targets := [{ expr := "up" }] }] }

/-- A dashboard where a reference leads nowhere. -/
def overview : Dashboard :=
  { title := "API Health", panels := [latency], templating := ⟨windowTemplates⟩ }

/-- The row is put before the panel with the reference, which then is no error any more. -/
theorem lint_after_insertion_row :
    Dashboard.Inserted details overview { overview with panels := [details, latency] } ∧
    { overview with panels := [details, latency] : Dashboard }.ParserReturns ∧
    ∃ fs fs', Rules.all.lint overview = .ok fs ∧
      Rules.all.lint { overview with panels := [details, latency] } = .ok fs' ∧
      Summary.ofFindings fs = ⟨2, 1⟩ ∧ Summary.ofFindings fs' = ⟨3, 0⟩ := by
  have hins : Dashboard.Inserted details overview { overview with panels := [details, latency] } :=
    .panels (.here [] [latency])
  have hreturns : { overview with panels := [details, latency] : Dashboard }.ParserReturns := by
    simp only [Dashboard.ParserReturns, ← mem_allPanels_iff]
    decide +kernel
  obtain ⟨before, after, before', block, after', hold, hnew, -⟩ :=
    lint_after_insertion details _ _ hins hreturns
  have hsummary : (Rules.all.lint overview).map Summary.ofFindings = .ok ⟨2, 1⟩ := by
    decide +kernel
  have hsummary' : (Rules.all.lint { overview with panels := [details, latency] }).map
      Summary.ofFindings = .ok ⟨3, 0⟩ := by
    decide +kernel
  rw [hold] at hsummary
  rw [hnew] at hsummary'
  exact ⟨hins, hreturns, _, _, hold, hnew, Except.ok.inj hsummary, Except.ok.inj hsummary'⟩

end ValidQuery

end PanelLint
