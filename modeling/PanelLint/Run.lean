import PanelLint.CommandLine
import PanelLint.Dashboard.Load
import PanelLint.Report
import PanelLint.Rule.ValidQuery
import PanelLint.Settings.Load
/-!
# Runs

`lintFiles` reports on one file after another; a file that cannot be loaded has its line in the report
and does not keep the others from theirs. `run` is the whole program as a function of its command
line, its environment and the files it may read.
-/

namespace PanelLint

/-- What a run reports, and whether anything failed. -/
structure Outcome where
  report : String := ""
  failed : Bool := false
  deriving DecidableEq, Repr

namespace Outcome

/-- Two outcomes, one after the other. -/
def append (a b : Outcome) : Outcome := ⟨a.report ++ b.report, a.failed || b.failed⟩

instance : Append Outcome := ⟨append⟩

end Outcome

/-- The outcome at one file. -/
def lintFile (rules : Rules) (files : Files) (path : String) : Except Abort Outcome :=
  match Dashboard.load files path with
  | .error e => .ok ⟨Report.loadError path (e.messages path), true⟩
  | .ok d => (rules.lint d).map fun fs =>
    ⟨Report.findings path fs, decide (0 < (Summary.ofFindings fs).errors)⟩

/-- The outcome at several files. -/
def lintFiles (rules : Rules) (files : Files) : List String → Except Abort Outcome
  | [] => .ok {}
  | path :: paths => do
    let first ← lintFile rules files path
    let others ← lintFiles rules files paths
    .ok (first ++ others)

/-- What the program prints, and its exit code. -/
structure Output where
  code : Nat
  text : String := ""
  deriving DecidableEq, Repr

namespace Output

/-- The output for a command line that asks for no run. -/
def ofStop : Stop → Output
  | .help => ⟨0, CommandLine.helpText⟩
  | .version => ⟨0, CommandLine.versionText⟩
  | _ => ⟨2, ""⟩

/-- The output of a run over files. When it is broken off, nothing is printed. -/
def ofOutcome : Except Abort Outcome → Output
  | .error .endlessDuration => ⟨101, ""⟩
  | .ok o => ⟨if o.failed then 1 else 0, o.report⟩

end Output

/-- The output for some arguments under some settings. -/
def runWith (files : Files) (args : Arguments) (settings : Settings) : Output :=
  let rules := Rules.all.without settings.exclude
  if args.listRules then ⟨0, Report.rules rules⟩
  else Output.ofOutcome (lintFiles rules files args.files)

/-- The output of the program, where settings files are in some formats. -/
def runIn (formats : List Settings.Format) (files : Files) (env : Settings.Environment)
    (commandLine : List String) : Output :=
  match CommandLine.read commandLine with
  | .error stop => Output.ofStop stop
  | .ok args =>
    match Settings.loadIn formats files args.config env with
    | .error _ => ⟨1, ""⟩
    | .ok settings => runWith files args settings

/-- The output of the program. -/
def run : Files → Settings.Environment → List String → Output := runIn Settings.Format.known

/-- The paths of all files that a run may read. -/
def neededPaths (commandLine : List String) : List String :=
  match CommandLine.read commandLine with
  | .error _ => []
  | .ok args => Settings.candidates Settings.Format.known args.config ++ args.files

end PanelLint
