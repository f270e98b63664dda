import PanelLint.Json.Value
import PanelLint.Number.Read
import PanelLint.Number.Width
/-!
# Settings in the environment

An environment variable whose name begins with `DASHLINT_`, in any case, sets the key that the rest of
its name is, in lower case. Its text is read as a truth value or a number where it is one. The list of
excluded rules is no such text but always a list, with commas between its items.
-/

namespace PanelLint.Settings

open PanelLint.Number
open PanelLint.Json (Value)

/-- The variables of the environment, by name. -/
abbrev Environment := List (String × String)

/-- The letters before the key in the name of a variable, in lower case. -/
def namePrefix : String := "dashlint_"

/-- The key that holds the names of the excluded rules. -/
def excludeKey : String := "exclude"

/-- The key that holds the level of the log. -/
def logLevelKey : String := "log_level"

/-- A character in lower case. Beside the ASCII capitals only the Kelvin sign becomes an ASCII
letter; what becomes of other letters does not matter, because no key holds one. -/
def lower (c : Char) : Char := if c = '\u212a' then 'k' else c.toLower

/-- The key that a variable sets, by its name. -/
def key? (name : String) : Option String :=
  let letters := name.toList.map lower
  if namePrefix.toList.isPrefixOf letters then
    some (String.ofList (letters.drop namePrefix.length))
  else none

/-- An integer of 64 bits, in decimal digits with an optional sign. -/
def readInteger? (cs : List Char) : Option Int :=
  let (negative, digits) := takeSign cs
  (readNat? digits).bind fun n =>
    let i : Int := if negative then -n else n
    if isSigned 64 i then some i else none

/-- The value that a text is: a truth value, an integer, a float, or else the text. -/
def readText (text : String) : Value :=
  let word := String.ofList (text.toList.map Char.toLower)
  if word = "true" then .bool true
  else if word = "false" then .bool false
  else
    match readInteger? text.toList, read? text.toList with
    | some i, _ => .integer i
    | none, some x => .float x
    | none, none => .string text

/-- The items of a list with commas between them. -/
def splitList (text : String) : List String := (text.toList.splitOn ',').map String.ofList

/-- The value that a variable sets under a key. -/
def readVariable (key text : String) : Value :=
  if key = excludeKey then .array ((splitList text).map .string) else readText text

/-- The keys that the environment sets, with their values. -/
def Environment.entries (env : Environment) : List (String × Value) :=
  env.filterMap fun (name, text) => (key? name).map fun key => (key, readVariable key text)

end PanelLint.Settings
