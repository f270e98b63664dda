import PanelLint.Rule.Basic
/-!
# Reports

What a run prints: a line for each error at a dashboard and a line with its numbers, a line for a
file that holds no dashboard, and a line for each rule.
-/

namespace PanelLint.Report

/-- The line for a finding. -/
def findingLine (f : Finding) : String :=
  "[" ++ f.verdict.severity.text ++ "] " ++ f.rule ++ " (" ++ f.panel ++ "): " ++
    f.verdict.message ++ "\n"

/-- The line with the numbers of a dashboard. -/
def summaryLine (path : String) (s : Summary) : String :=
  path ++ ": " ++ toString s.checked ++ " checks, " ++ toString s.errors ++ " errors\n"

/-- The report on a dashboard: its errors and its numbers. -/
def findings (path : String) (fs : List Finding) : String :=
  String.join ((fs.filter (·.verdict.isError)).map findingLine) ++
    summaryLine path (Summary.ofFindings fs)

/-- The report on a file that could not be read, whose causes are given from the outermost on. -/
def loadError (path : String) (causes : List String) : String :=
  "[error] " ++ path ++ ": " ++ String.intercalate ": " causes ++ "\n"

/-- The names and descriptions of some rules. -/
def rules (rs : Rules) : String :=
  String.join (rs.map fun r => r.name ++ ": " ++ r.description ++ "\n")

end PanelLint.Report
