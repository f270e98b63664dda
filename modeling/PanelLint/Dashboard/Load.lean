import PanelLint.Dashboard.Document
import PanelLint.Files
import PanelLint.Text.Utf8
/-!
# Loading dashboards from files

A file holds a dashboard when it can be read, is a text, and that text is a document with a
dashboard.
-/

namespace PanelLint

/-- Why a file gives no dashboard. -/
inductive LoadError
  | unreadable (error : ReadError)
  | notText
  | badDocument (error : Dashboard.DocumentError)
  deriving Repr

/-- What went wrong at a path, from the outermost cause on. -/
def LoadError.messages (path : String) : LoadError → List String
  | .unreadable e => ["Failed to read dashboard " ++ path, e.message]
  | .notText => ["Failed to read dashboard " ++ path, "stream did not contain valid UTF-8"]
  | .badDocument e => ("Failed to parse dashboard " ++ path) :: e.messages

/-- The dashboard in the file at a path. -/
def Dashboard.load (files : Files) (path : String) : Except LoadError Dashboard :=
  match files path with
  | .error e => .error (.unreadable e)
  | .ok bytes =>
    match Text.decode? bytes with
    | none => .error .notText
    | some text => (Dashboard.read text).mapError .badDocument

end PanelLint
