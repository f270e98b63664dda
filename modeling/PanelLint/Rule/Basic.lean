import PanelLint.Dashboard.Panels
/-!
# Rules

A rule looks at one target of one panel and gives its `Verdict`. `Rules.lint` puts every rule to
every target of a dashboard, panel by panel in document order, and keeps a `Finding` for each, good or
bad. A rule may also break off the whole run; then there are no findings at all.
-/

namespace PanelLint

/-- How a rule judges. -/
inductive Severity
  | success
  | error
  deriving DecidableEq, Repr

/-- The word for a severity. -/
def Severity.text : Severity → String
  | .success => "success"
  | .error => "error"

/-- What a rule says of a target. -/
structure Verdict where
  severity : Severity
  message : String
  deriving DecidableEq, Repr

namespace Verdict

/-- There is nothing to say. -/
def success : Verdict := ⟨.success, ""⟩

/-- Something is wrong. -/
def error (message : String) : Verdict := ⟨.error, message⟩

/-- Whether something is wrong. -/
def isError (v : Verdict) : Bool := v.severity == .error

end Verdict

/-- Why a run is broken off. -/
inductive Abort
  /-- A query asks for a length of time beyond all bounds. -/
  | endlessDuration
  deriving DecidableEq, Repr

/-- A check of the targets of a dashboard. -/
structure Rule where
  name : String
  description : String
  check : Dashboard → Panel → Target → Except Abort Verdict

/-- What a rule found at a target of a panel. -/
structure Finding where
  /-- The name of the rule. -/
  rule : String
  /-- The title of the panel. -/
  panel : String
  verdict : Verdict
  deriving DecidableEq, Repr

/-- The rules of a run. -/
abbrev Rules := List Rule

/-- A rule with a target of a panel that it is put to. -/
structure Job where
  panel : Panel
  target : Target
  rule : Rule

/-- The finding of a job. -/
def Job.run (dashboard : Dashboard) (job : Job) : Except Abort Finding :=
  (job.rule.check dashboard job.panel job.target).map fun v => ⟨job.rule.name, job.panel.title, v⟩

namespace Rules

/-- The rules without those of the given names. -/
def without (rules : Rules) (names : List String) : Rules :=
  rules.filter fun r => !names.contains r.name

/-- The jobs at a panel: target by target, and at each target rule by rule. -/
def panelJobs (rules : Rules) (panel : Panel) : List Job :=
  panel.targets.flatMap fun t => rules.map fun r => ⟨panel, t, r⟩

/-- The jobs of a dashboard. -/
def jobs (rules : Rules) (dashboard : Dashboard) : List Job :=
  dashboard.allPanels.flatMap rules.panelJobs

/-- The findings of all rules at all targets of a dashboard. -/
def lint (rules : Rules) (dashboard : Dashboard) : Except Abort (List Finding) :=
  (rules.jobs dashboard).mapM (Job.run dashboard)

end Rules

/-- The number of findings, and of those that are errors. -/
structure Summary where
  checked : Nat
  errors : Nat
  deriving DecidableEq, Repr

/-- The numbers of some findings. -/
def Summary.ofFindings (findings : List Finding) : Summary :=
  ⟨findings.length, findings.countP (·.verdict.isError)⟩

end PanelLint
