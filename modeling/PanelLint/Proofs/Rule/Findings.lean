import PanelLint.Proofs.Dashboard.Trees
import PanelLint.Rule.Basic
/-!
# The findings of some rules

A dashboard has findings when no rule breaks off the run, and then there is one for each job, in the
order of the jobs (`lint_eq_ok_iff`).  The errors among them are counted (`errors_pos_iff`).
-/

namespace PanelLint

variable {rules : Rules} {d : Dashboard} {fs : List Finding}

/-! ## 1. Computations along a list -/

section Lists

variable {α β ε : Type} {f : α → Except ε β} {xs : List α}

theorem mapM_eq_ok_iff {ys : List β} :
    xs.mapM f = .ok ys ↔ List.Forall₂ (fun x y => f x = .ok y) xs ys := by
  induction xs generalizing ys with
  | nil => cases ys <;> simp [pure, Except.pure]
  | cons x xs ih =>
    rw [List.mapM_cons]
    constructor
    · intro h
      cases hx : f x with
      | error e => rw [hx] at h; cases h
      | ok y =>
        cases hxs : xs.mapM f with
        | error e => rw [hx, hxs] at h; cases h
        | ok ys' =>
          rw [hx, hxs] at h
          cases h
          exact .cons hx (ih.mp hxs)
    · rintro (_ | ⟨hx, hxs⟩)
      rw [hx, ih.mpr hxs]
      rfl

theorem exists_forall₂ {R : α → β → Prop} (h : ∀ x ∈ xs, ∃ y, R x y) :
    ∃ ys, List.Forall₂ R xs ys := by
  induction xs with
  | nil => exact ⟨[], .nil⟩
  | cons x xs ih =>
    obtain ⟨y, hy⟩ := h x List.mem_cons_self
    obtain ⟨ys, hys⟩ := ih fun z hz => h z (List.mem_cons_of_mem x hz)
    exact ⟨y :: ys, .cons hy hys⟩

end Lists

/-! ## 2. Jobs and findings -/

theorem mem_jobs_iff {job : Job} : job ∈ rules.jobs d ↔
    d.Holds job.panel ∧ job.target ∈ job.panel.targets ∧ job.rule ∈ rules := by
  simp only [Rules.jobs, Rules.panelJobs, List.mem_flatMap, List.mem_map, mem_allPanels_iff]
  constructor
  · rintro ⟨p, hp, t, ht, r, hr, rfl⟩
    exact ⟨hp, ht, hr⟩
  · rintro ⟨hp, ht, hr⟩
    exact ⟨_, hp, _, ht, _, hr, rfl⟩

/-- **A job finds this.** -/
structure Job.Finds (d : Dashboard) (job : Job) (f : Finding) : Prop where
  rule_eq : f.rule = job.rule.name
  panel_eq : f.panel = job.panel.title
  check_eq : job.rule.check d job.panel job.target = .ok f.verdict

theorem run_eq_ok_iff {job : Job} {f : Finding} : job.run d = .ok f ↔ job.Finds d f := by
  unfold Job.run
  constructor
  · intro h
    cases hcheck : job.rule.check d job.panel job.target with
    | error e => rw [hcheck] at h; cases h
    | ok v =>
      rw [hcheck] at h
      cases h
      exact ⟨rfl, rfl, hcheck⟩
  · rintro ⟨hrule, hpanel, hcheck⟩
    rw [hcheck, Except.map, ← hrule, ← hpanel]

/-- **There is one finding for each job.** -/
theorem lint_eq_ok_iff : rules.lint d = .ok fs ↔ List.Forall₂ (Job.Finds d) (rules.jobs d) fs := by
  simp only [Rules.lint, mapM_eq_ok_iff, run_eq_ok_iff]

/-- A dashboard has findings where every check gives a verdict. -/
theorem exists_lint
    (h : ∀ p, d.Holds p → ∀ t ∈ p.targets, ∀ r ∈ rules, ∃ v, r.check d p t = .ok v) :
    ∃ fs, rules.lint d = .ok fs := by
  simp only [lint_eq_ok_iff]
  refine exists_forall₂ fun job hjob => ?_
  obtain ⟨hp, ht, hr⟩ := mem_jobs_iff.mp hjob
  obtain ⟨v, hv⟩ := h _ hp _ ht _ hr
  exact ⟨⟨_, _, v⟩, rfl, rfl, hv⟩

/-- An error is counted just where some rule gives one on some target. -/
theorem errors_pos_iff (h : rules.lint d = .ok fs) :
    0 < (Summary.ofFindings fs).errors ↔
      ∃ p t r v, d.Holds p ∧ t ∈ p.targets ∧ r ∈ rules ∧ r.check d p t = .ok v ∧
        v.isError = true := by
  have hfinds := lint_eq_ok_iff.mp h
  rw [Summary.ofFindings, List.countP_pos_iff]
  constructor
  · rintro ⟨f, hf, herror⟩
    obtain ⟨job, hjob, hjf⟩ := exists_related hfinds.flip hf
    obtain ⟨hp, ht, hr⟩ := mem_jobs_iff.mp hjob
    exact ⟨_, _, _, _, hp, ht, hr, hjf.check_eq, herror⟩
  · rintro ⟨p, t, r, v, hp, ht, hr, hv, herror⟩
    have hjob : ⟨p, t, r⟩ ∈ rules.jobs d := mem_jobs_iff.mpr ⟨hp, ht, hr⟩
    obtain ⟨f, hf, hjf⟩ := exists_related hfinds hjob
    cases Except.ok.inj (hv.symm.trans hjf.check_eq)
    exact ⟨f, hf, herror⟩

end PanelLint
