import Mathlib.Algebra.BigOperators.Ring.List
import PanelLint.Proofs.Dashboard.Walk
import PanelLint.Proofs.Rule.Findings
/-!
# Rules that are left out

The jobs of a dashboard are a walk: over its panels, over the targets of each, and at each target
over the rules.  A rule is put to every target by itself, so leaving it out takes its own jobs from
the walk and no other, and with them its findings.

* `jobs_walk`: the order of the jobs;
* `jobs_without`, `finds_without`: which jobs and findings are left;
* `lint_without`: what this says of a run, and of its numbers.
-/

namespace PanelLint

variable {rules : Rules} {d : Dashboard} {names names' : List String} {fs : List Finding}

/-! ## 1. Names -/

theorem without_append : (rules.without names).without names' = rules.without (names ++ names') := by
  simp only [Rules.without, List.filter_filter]
  refine List.filter_congr fun r _ => ?_
  simp [Bool.and_comm]

/-- Neither the order of the names nor their repetition matters. -/
theorem without_congr (h : ∀ name, name ∈ names ↔ name ∈ names') :
    rules.without names = rules.without names' :=
  List.filter_congr fun r _ => by simp [h]

/-! ## 2. The walk along the jobs -/

/-- **The job at a place**: of a panel, by its number among all panels, of a target of it, and of a
rule. -/
def Rules.jobAt? (rules : Rules) (d : Dashboard) : List Nat → Option Job
  | [i, j, k] => do
    let panel ← d.allPanels[i]?
    let target ← panel.targets[j]?
    let rule ← rules[k]?
    some ⟨panel, target, rule⟩
  | _ => none

/-- One job where the indices end, and nothing behind it. -/
def alone (job : Job) : List Nat → Option Job
  | [] => some job
  | _ :: _ => none

theorem walk_alone (job : Job) : Walk (alone job) [[]] [job] := by
  refine ⟨List.pairwise_singleton _ _, .cons rfl .nil, fun place x hx => ?_⟩
  cases place with
  | nil => exact List.mem_cons_self
  | cons i place => cases hx

theorem jobAt?_eq_behind : rules.jobAt? d = behind d.allPanels fun p =>
    behind p.targets fun t => behind rules fun r => alone ⟨p, t, r⟩ := by
  funext place
  rcases place with _ | ⟨i, _ | ⟨j, _ | ⟨k, _ | ⟨l, place⟩⟩⟩⟩
  · rfl
  · simp [Rules.jobAt?, behind]
  · simp [Rules.jobAt?, behind]
  · simp [Rules.jobAt?, behind, alone]
  · simp [Rules.jobAt?, behind, alone]

/-- **The jobs are a walk**: panel by panel, at each panel target by target, at each target rule by
rule. -/
theorem jobs_walk (rules : Rules) (d : Dashboard) :
    ∃ places, Walk (rules.jobAt? d) places (rules.jobs d) := by
  have hjobs : rules.jobs d = d.allPanels.flatMap fun p =>
      p.targets.flatMap fun t => rules.flatMap fun r => [⟨p, t, r⟩] := by
    refine List.flatMap_congr fun p _ => List.flatMap_congr fun t _ => ?_
    exact List.map_eq_flatMap
  rw [hjobs, jobAt?_eq_behind]
  exact exists_walk_behind fun p _ => exists_walk_behind fun t _ => exists_walk_behind fun r _ =>
    ⟨_, walk_alone _⟩

theorem length_jobs :
    (rules.jobs d).length = (d.allPanels.map (·.targets.length)).sum * rules.length := by
  simp [Rules.jobs, Rules.panelJobs, List.length_flatMap, List.sum_map_mul_right]

/-! ## 3. Jobs and findings that are left -/

/-- **Leaving out rules takes their jobs and no others.** -/
theorem jobs_without : (rules.without names).jobs d =
    (rules.jobs d).filter fun job => job.rule.name ∉ names := by
  rw [Rules.jobs, Rules.jobs, List.filter_flatMap]
  refine List.flatMap_congr fun p _ => ?_
  rw [Rules.panelJobs, Rules.panelJobs, List.filter_flatMap]
  refine List.flatMap_congr fun t _ => ?_
  rw [List.filter_map, Rules.without]
  simp [Function.comp_def]

/-- With the jobs of some rules their findings go. -/
theorem finds_without {jobs : List Job} (h : List.Forall₂ (Job.Finds d) jobs fs) :
    List.Forall₂ (Job.Finds d) (jobs.filter fun job => job.rule.name ∉ names)
      (fs.filter fun f => f.rule ∉ names) := by
  refine List.rel_filter ?_ h
  intro job f hf
  simp [hf.rule_eq]

/-- A run has findings just where every job gets a verdict. -/
theorem exists_lint_iff : (∃ fs, rules.lint d = .ok fs) ↔
    ∀ place job, rules.jobAt? d place = some job →
      ∃ v, job.rule.check d job.panel job.target = .ok v := by
  obtain ⟨places, hwalk⟩ := jobs_walk rules d
  simp only [lint_eq_ok_iff]
  constructor
  · rintro ⟨fs, hfs⟩ place job hjob
    obtain ⟨job', hmem, hjob'⟩ := exists_related hwalk.along (hwalk.whole place job hjob)
    obtain ⟨f, -, hf⟩ := exists_related hfs hmem
    rw [Option.some.inj (hjob.symm.trans hjob')]
    exact ⟨f.verdict, hf.check_eq⟩
  · intro h
    refine exists_forall₂ fun job hmem => ?_
    obtain ⟨place, -, hjob⟩ := exists_related hwalk.along.flip hmem
    obtain ⟨v, hv⟩ := h place job hjob
    exact ⟨⟨_, _, v⟩, rfl, rfl, hv⟩

/-- **The numbers of a run**: the checks are the targets times the rules, and the errors are the jobs
that get an error. -/
theorem summary_of_lint (h : rules.lint d = .ok fs) :
    (Summary.ofFindings fs).checked =
        (d.allPanels.map (·.targets.length)).sum * rules.length ∧
      (Summary.ofFindings fs).errors = {place | ∃ job v, rules.jobAt? d place = some job ∧
        job.rule.check d job.panel job.target = .ok v ∧ v.severity = .error}.ncard := by
  obtain ⟨places, hwalk⟩ := jobs_walk rules d
  have hfinds := lint_eq_ok_iff.mp h
  refine ⟨hfinds.length_eq.symm.trans length_jobs, hwalk.countP_eq_ncard ?_ ?_⟩
  · rintro place ⟨job, v, hjob, -⟩
    exact hwalk.whole place job hjob
  · refine (hwalk.forall₂_iff.mp hfinds).imp ?_
    rintro place f ⟨job, hjob, hf⟩
    simp only [Verdict.isError, beq_iff_eq]
    constructor
    · exact fun herror => ⟨job, f.verdict, hjob, hf.check_eq, herror⟩
    · rintro ⟨job', v, hjob', hv, herror⟩
      obtain rfl := Option.some.inj (hjob.symm.trans hjob')
      rw [Except.ok.inj (hf.check_eq.symm.trans hv), herror]

/-! ## 4. Runs without some rules -/

/-- **Leaving out rules filters the findings and does nothing else.** -/
theorem lint_without (rules : Rules) (d : Dashboard) :
    (∀ excluded, (rules.without excluded).lint d =
      ((rules.jobs d).filter fun job => job.rule.name ∉ excluded).mapM (Job.run d)) ∧
    (∀ excluded fs, rules.lint d = .ok fs →
      (rules.without excluded).lint d = .ok (fs.filter fun f => f.rule ∉ excluded)) ∧
    (∃ places, Walk (rules.jobAt? d) places (rules.jobs d) ∧
      ∀ fs, rules.lint d = .ok fs ↔
        List.Forall₂ (fun place f => ∃ job, rules.jobAt? d place = some job ∧ job.Finds d f)
          places fs) ∧
    ((∃ fs, rules.lint d = .ok fs) ↔ ∀ place job, rules.jobAt? d place = some job →
      ∃ v, job.rule.check d job.panel job.target = .ok v) ∧
    (∀ a b, (rules.without a).without b = rules.without (a ++ b)) ∧
    (∀ a b, (∀ name, name ∈ a ↔ name ∈ b) → rules.without a = rules.without b) ∧
    ∀ excluded fs, (rules.without excluded).lint d = .ok fs →
      (Summary.ofFindings fs).checked =
          (d.allPanels.map (·.targets.length)).sum * (rules.without excluded).length ∧
        (Summary.ofFindings fs).errors =
          {place | ∃ job v, (rules.without excluded).jobAt? d place = some job ∧
            job.rule.check d job.panel job.target = .ok v ∧ v.severity = .error}.ncard := by
  obtain ⟨places, hwalk⟩ := jobs_walk rules d
  refine ⟨fun excluded => ?_, fun excluded fs h => ?_, ⟨places, hwalk, fun fs => ?_⟩,
    exists_lint_iff, fun a b => without_append, fun a b => without_congr,
    fun excluded fs => summary_of_lint⟩
  · rw [Rules.lint, jobs_without]
  · rw [lint_eq_ok_iff, jobs_without]
    exact finds_without (lint_eq_ok_iff.mp h)
  · rw [lint_eq_ok_iff, hwalk.forall₂_iff]

/-- A panel with two queries, and a panel inside it with one. -/
def traffic : Panel :=
  { id := 1, title := "Traffic", kind := "graph", targets := [{ expr := "up" }, { expr := "1 + 1" }]
    panels := [{ id := 2, title := "Errors", kind := "graph", targets := [{ expr := "sum(up)" }] }] }

/-- Three rules, two of them of one name. -/
def namesakes : Rules :=
  [⟨"brevity", "Queries are short.", fun _ _ t =>
      .ok (if t.expr.length ≤ 3 then .success else .error "too long")⟩,
    ⟨"identity", "Panels have ids.", fun _ p _ =>
      .ok (if p.id = 0 then .error "no id" else .success)⟩,
    ⟨"brevity", "Queries are empty.", fun _ _ t =>
      .ok (if t.expr.isEmpty then .success else .error "not empty")⟩]

/-- Both rules of a name are left out, however often it is given, and with them all errors. -/
theorem lint_without_namesakes :
    ∃ fs, namesakes.lint { panels := [traffic] } = .ok fs ∧
      (namesakes.without ["brevity", "brevity"]).lint { panels := [traffic] } =
        .ok (fs.filter fun f => f.rule ∉ ["brevity", "brevity"]) ∧
      Summary.ofFindings fs = ⟨9, 5⟩ ∧
      Summary.ofFindings (fs.filter fun f => f.rule ∉ ["brevity", "brevity"]) = ⟨3, 0⟩ := by
  obtain ⟨-, hfilter, -⟩ := lint_without namesakes { panels := [traffic] }
  have hsummary : (namesakes.lint { panels := [traffic] }).map Summary.ofFindings = .ok ⟨9, 5⟩ := by
    decide +kernel
  have hsummary' : ((namesakes.without ["brevity", "brevity"]).lint
      { panels := [traffic] }).map Summary.ofFindings = .ok ⟨3, 0⟩ := by
    decide +kernel
  cases hfs : namesakes.lint { panels := [traffic] } with
  | error e =>
    rw [hfs] at hsummary
    cases hsummary
  | ok fs =>
    have hleft := hfilter ["brevity", "brevity"] fs hfs
    rw [hfs] at hsummary
    rw [hleft] at hsummary'
    exact ⟨fs, rfl, hleft, Except.ok.inj hsummary, Except.ok.inj hsummary'⟩

end PanelLint
