import PanelLint.Number.Shortest
import PanelLint.Number.Width
import PanelLint.Settings.Environment
import PanelLint.Settings.KeyPath
/-!
# Settings

The settings of a run are the level of its log and the names of the rules to leave out. They are read
from a tree of values, in which keys that no setting has are passed over. Where a text is expected, a
truth value or a number will do, and is taken as it is printed.
-/

namespace PanelLint

/-- The settings of a run. -/
structure Settings where
  logLevel : Option String := none
  /-- The names of the rules to leave out. -/
  exclude : List String := []
  deriving DecidableEq, Repr

/-- Why there are no settings. -/
inductive SettingsError
  /-- A file was asked for that is not there. -/
  | notFound
  /-- The ending of the file stands for no format. -/
  | unknownFormat
  /-- The file is not well-formed. -/
  | malformed
  /-- The value of a key does not fit. -/
  | wrongType (key : String)
  deriving DecidableEq, Repr

namespace Settings

open PanelLint.Number
open PanelLint.Json (Value)

/-- The text of an integer. One that does not fit 64 bits with a sign is taken as a float. -/
def integerText (n : Int) : String :=
  if isSigned 64 n then toString n else (Binary64.ofInt n).positional

/-- The text that a value without parts is. -/
def scalarText? : Value → Option String
  | .string s => some s
  | .bool b => some (if b then "true" else "false")
  | .integer n => some (integerText n)
  | .float x => some x.positional
  | _ => none

/-- The level of the log; null is none. -/
def readLogLevel : Option Value → Except SettingsError (Option String)
  | none => .ok none
  | some .null => .ok none
  | some v =>
    match scalarText? v with
    | some s => .ok (some s)
    | none => .error (.wrongType logLevelKey)

/-- The names of the rules to leave out. -/
def readExclude : Option Value → Except SettingsError (List String)
  | none => .ok []
  | some (.array vs) =>
    match vs.mapM scalarText? with
    | some names => .ok names
    | none => .error (.wrongType excludeKey)
  | some _ => .error (.wrongType excludeKey)

/-- The settings in a tree of values. -/
def ofTree (tree : Value) : Except SettingsError Settings := do
  let logLevel ← readLogLevel (tree.member? logLevelKey)
  let exclude ← readExclude (tree.member? excludeKey)
  .ok { logLevel, exclude }

/-- The settings of a file, with those of the environment on top. -/
def ofLayers (file : List (String × Value)) (env : Environment) : Except SettingsError Settings :=
  ofTree (setAll (setAll (.object []) file) env.entries)

end Settings

end PanelLint
