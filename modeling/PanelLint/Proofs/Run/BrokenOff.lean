import PanelLint.Proofs.Promql.Endless
import PanelLint.Proofs.Run.Files
/-!
# Runs that are broken off

A run prints its report when all files are done, so where a query breaks it off, nothing is printed
at all.  Which queries do that is settled here: those at which the parser gives up, and it gives up
only on a length of time beyond all bounds.  Without one of these the report is whole.

* `checksReturn_iff`, `exists_lintFiles_iff`: which files a run can pass;
* `lintFiles_broken_off_exactly`: what breaks off a run, and what is reported when nothing does.
-/

namespace PanelLint

open ValidQuery

variable {rules : Rules} {files : Files} {paths : List String} {contents : Contents}
  {excluded : List String} {d : Dashboard} {p : Panel} {t : Target}

/-! ## 1. The texts that are parsed -/

/-- **A text that the parser is given for a dashboard**: the expansion of a query of a target that
the rule has something to say of. -/
inductive Dashboard.Asks (d : Dashboard) : List Char → Prop
  | query {p : Panel} {t : Target} {text : List Char} : d.Holds p → t ∈ p.targets →
      Concerns d p → Text.trim t.expr.toList ≠ [] →
      Query.expand d.templating.list t.expr.toList = .ok text → Asks d text

/-- The rule gives a verdict unless it has the parser give up. -/
theorem exists_check_iff : (∃ v, check d p t = .ok v) ↔
    (Concerns d p → Text.trim t.expr.toList ≠ [] →
      Query.ParserReturns d.templating.list t.expr.toList) := by
  constructor
  · rintro ⟨v, hv⟩ hc hblank
    rw [check_of_concerns hc, if_neg hblank] at hv
    rw [Query.parserReturns_iff]
    intro haborted
    rw [checkQuery, haborted] at hv
    cases hv
  · intro h
    by_cases hc : Concerns d p
    · by_cases hblank : Text.trim t.expr.toList = []
      · exact ⟨_, (judged_checkReference hc hblank).check_eq⟩
      · exact exists_check (h hc hblank)
    · exact ⟨_, check_of_not_concerns hc⟩

/-! ## 2. The files that a run can pass -/

theorem mem_without_all {r : Rule} : r ∈ Rules.all.without excluded ↔
    r = validQueryRule ∧ validQueryRule.name ∉ excluded := by
  rw [Rules.without, List.mem_filter, Rules.all, List.mem_singleton]
  constructor
  · rintro ⟨rfl, hr⟩
    exact ⟨rfl, by simpa using hr⟩
  · rintro ⟨rfl, hr⟩
    exact ⟨rfl, by simpa using hr⟩

/-- **A file is passed** where the rule is left out or the parser returns on every text. -/
theorem checksReturn_iff : ChecksReturn (Rules.all.without excluded) contents ↔
    (validQueryRule.name ∉ excluded → ∀ d, contents.IsDashboard d → ∀ text, d.Asks text →
      Promql.parse text ≠ .error .aborted) := by
  constructor
  · rintro h hr d hd text ⟨hp, ht, hc, hblank, htext⟩
    have hcheck := h d hd _ hp _ ht _ (mem_without_all.mpr ⟨rfl, hr⟩)
    exact exists_check_iff.mp hcheck hc hblank text htext
  · intro h d hd p hp t ht r hr
    obtain ⟨rfl, hname⟩ := mem_without_all.mp hr
    refine exists_check_iff.mpr fun hc hblank text htext => ?_
    exact h hname d hd text (.query hp ht hc hblank htext)

/-- A file that a run gets over is passed. -/
theorem checksReturn_of_lintFile {path : String} {o : Outcome}
    (h : lintFile rules files path = .ok o) : ChecksReturn rules (files path) := by
  intro d hd p hp t ht r hr
  simp only [lintFile, load_eq_ok_iff.mpr hd] at h
  cases hlint : rules.lint d with
  | error e =>
    rw [hlint] at h
    cases h
  | ok fs =>
    have hjob : ⟨p, t, r⟩ ∈ rules.jobs d := mem_jobs_iff.mpr ⟨hp, ht, hr⟩
    obtain ⟨f, -, hf⟩ := exists_related (lint_eq_ok_iff.mp hlint) hjob
    exact ⟨_, hf.check_eq⟩

/-- **A run gets to its end** just where it can pass each of its files. -/
theorem exists_lintFiles_iff :
    (∃ o, lintFiles rules files paths = .ok o) ↔
      ∀ path ∈ paths, ChecksReturn rules (files path) := by
  constructor
  · rintro ⟨o, h⟩
    induction paths generalizing o with
    | nil => simp
    | cons path paths ih =>
      rw [lintFiles] at h
      cases hfirst : lintFile rules files path with
      | error e =>
        rw [hfirst] at h
        cases h
      | ok first =>
        cases hothers : lintFiles rules files paths with
        | error e =>
          rw [hfirst, hothers] at h
          cases h
        | ok others =>
          exact List.forall_mem_cons.mpr ⟨checksReturn_of_lintFile hfirst, ih others hothers⟩
  · intro h
    obtain ⟨failed, ho, -⟩ := lintFiles_eq h
    exact ⟨_, ho⟩

/-! ## 3. What breaks off a run -/

/-- **A job is reported**: by its rule, at its panel, and as its target is judged. -/
structure Reported (d : Dashboard) (job : Job) (f : Finding) : Prop where
  rule_eq : f.rule = job.rule.name
  panel_eq : f.panel = job.panel.title
  judged : Judged d job.panel job.target f.verdict

/-- **The report on a file is whole.**  If it holds a dashboard, its block has a finding for each
job, in the order of the jobs. -/
def ReportedWhole (rules : Rules) (path : String) (contents : Contents) : Prop :=
  ∀ d, contents.IsDashboard d → ∃ fs, List.Forall₂ (Reported d) (rules.jobs d) fs ∧
    rules.block path contents = Report.findings path fs

theorem reportedWhole_of_checksReturn {path : String}
    (h : ChecksReturn (Rules.all.without excluded) contents) :
    ReportedWhole (Rules.all.without excluded) path contents := by
  intro d hd
  obtain ⟨fs, hfs⟩ := exists_lint (h d hd)
  have hload : Dashboard.load (fun _ => contents) path = .ok d := load_eq_ok_iff.mpr hd
  refine ⟨fs, ?_, by simp only [Rules.block, hload, hfs]⟩
  -- all jobs are jobs of the one rule, so what they find is what is said of their targets
  have hrule : ∀ job ∈ (Rules.all.without excluded).jobs d, job.rule = validQueryRule :=
    fun job hjob => (mem_without_all.mp (mem_jobs_iff.mp hjob).2.2).1
  refine List.Forall₂.imp ?_ ((List.forall₂_and_left _ _).mpr ⟨hrule, lint_eq_ok_iff.mp hfs⟩)
  rintro ⟨p, t, r⟩ f ⟨rfl, hfinds⟩
  exact ⟨hfinds.rule_eq, hfinds.panel_eq, judged_of_check hfinds.check_eq⟩

/-- **What breaks off a run, and what is reported when nothing does.**  A run is broken off just where
the parser gives up on a text of one of its dashboards, and the tokens of such a text hold a length
of time beyond all bounds.  Where there is no such length in any text, the report has the block of
every file, in the order of the command line, and each of them is whole: every target is reported
as it is judged, a query that is not valid as an error. -/
theorem lintFiles_broken_off_exactly (excluded : List String) (files : Files)
    (paths : List String) :
    (lintFiles (Rules.all.without excluded) files paths = .error .endlessDuration ↔
      validQueryRule.name ∉ excluded ∧
        ∃ path ∈ paths, ∃ d, Contents.IsDashboard (files path) d ∧
          ∃ text, d.Asks text ∧ Promql.parse text = .error .aborted) ∧
    (∀ text, Promql.parse text = .error .aborted → Promql.EndlessText text) ∧
    ((∀ path ∈ paths, ∀ d, Contents.IsDashboard (files path) d → ∀ text, d.Asks text →
        ¬ Promql.EndlessText text) →
      ∃ failed, lintFiles (Rules.all.without excluded) files paths =
          .ok ⟨String.join (paths.map fun path =>
            (Rules.all.without excluded).block path (files path)), failed⟩ ∧
        ∀ path ∈ paths, ReportedWhole (Rules.all.without excluded) path (files path)) := by
  refine ⟨?_, fun text => Promql.endlessText_of_aborted, fun h => ?_⟩
  · have hnot : lintFiles (Rules.all.without excluded) files paths = .error .endlessDuration ↔
        ¬ ∃ o, lintFiles (Rules.all.without excluded) files paths = .ok o := by
      cases lintFiles (Rules.all.without excluded) files paths with
      | ok o => simp
      | error e => cases e; simp
    rw [hnot, exists_lintFiles_iff]
    simp only [checksReturn_iff]
    push Not
    constructor
    · rintro ⟨path, hpath, hr, d, hd, text, hasks, haborted⟩
      exact ⟨hr, path, hpath, d, hd, text, hasks, haborted⟩
    · rintro ⟨hr, path, hpath, d, hd, text, hasks, haborted⟩
      exact ⟨path, hpath, hr, d, hd, text, hasks, haborted⟩
  · have hreturn : ∀ path ∈ paths,
        ChecksReturn (Rules.all.without excluded) (files path) := by
      refine fun path hpath => checksReturn_iff.mpr fun _ d hd text hasks haborted => ?_
      exact h path hpath d hd text hasks (Promql.endlessText_of_aborted haborted)
    obtain ⟨failed, ho, -⟩ := lintFiles_eq hreturn
    exact ⟨failed, ho, fun path hpath => reportedWhole_of_checksReturn (hreturn path hpath)⟩

/-- A graph for Prometheus with one query. -/
def graphFile (query : String) : List Char :=
  ("\x7b\"panels\":[\x7b\"type\":\"graph\",\"targets\":[\x7b\"expr\":\"" ++ query ++
    "\"\x7d]\x7d],\"templating\":\x7b\"list\":[\x7b\"type\":\"datasource\"," ++
    "\"query\":\"prometheus\"\x7d]\x7d\x7d").toList

/-- A folder with a query over more seconds than there are, and one with a query that is none. -/
def endlessFolder : Folder :=
  .ofPaths [("endless.json", (graphFile "up[1e30]").map fun c => UInt8.ofNat c.toNat),
    ("faulty.json", (graphFile "up up").map fun c => UInt8.ofNat c.toNat)]

/-- The first file breaks off the run, and nothing is printed; by itself the second file is reported
whole. -/
theorem lintFiles_broken_off_exactly_first :
    (∃ path ∈ ["endless.json", "faulty.json"], ∃ d text,
      Contents.IsDashboard (endlessFolder.files path) d ∧ d.Asks text ∧
        Promql.EndlessText text) ∧
    run endlessFolder.files [] ["endless.json", "faulty.json"] = ⟨101, ""⟩ ∧
    ReportedWhole (Rules.all.without []) "faulty.json" (endlessFolder.files "faulty.json") ∧
    (run endlessFolder.files [] ["faulty.json"]).code = 1 := by
  obtain ⟨hexact, hendless, -⟩ :=
    lintFiles_broken_off_exactly [] endlessFolder.files ["endless.json", "faulty.json"]
  obtain ⟨-, -, hwhole⟩ := lintFiles_broken_off_exactly [] endlessFolder.files ["faulty.json"]
  have hbroken : lintFiles (Rules.all.without []) endlessFolder.files
      ["endless.json", "faulty.json"] = .error .endlessDuration := by
    decide +kernel
  obtain ⟨-, path, hpath, d, hd, text, hasks, haborted⟩ := hexact.mp hbroken
  have hnone : (Dashboard.load endlessFolder.files "faulty.json").toOption.all fun d =>
      decide (∀ p ∈ d.allPanels, ∀ t ∈ p.targets,
        ∀ text ∈ (Query.expand d.templating.list t.expr.toList).toOption,
          ¬ Promql.EndlessText text) := by
    decide +kernel
  obtain ⟨failed, -, hreported⟩ := hwhole <| by
    rintro path hpath d hd text ⟨hp, ht, -, -, htext⟩
    cases List.mem_singleton.mp hpath
    rw [load_eq_ok_iff.mpr hd] at hnone
    refine of_decide_eq_true hnone _ (mem_allPanels_iff.mpr hp) _ ht text ?_
    rw [htext]
    rfl
  exact ⟨⟨path, hpath, d, text, hd, hasks, hendless text haborted⟩, by decide +kernel,
    hreported _ List.mem_cons_self, by decide +kernel⟩

end PanelLint
