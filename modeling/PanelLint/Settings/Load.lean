import PanelLint.Files
import PanelLint.Json.Reader
import PanelLint.Settings.Basic
import PanelLint.Text.Utf8
import PanelLint.Toml.Reader
/-!
# Loading settings

The format of a settings file is told by the ending of its name, and the file may be named without the
ending. Which formats there are is left open: a list of them, in the order in which their endings are
tried. The program itself knows the endings of all common formats, but can read TOML and JSON only.

A file that was asked for by name has to be there; otherwise the file `config/dashlint` is read if
there is one, and it is no error that there is none. The environment comes on top of the file.
-/

namespace PanelLint.Settings

open PanelLint.Json (Value)

/-! ## Formats -/

/-- A format of settings files: the endings of their names, and what a text holds in it. -/
structure Format where
  endings : List String
  read? : List Char → Option (List (String × Value))

namespace Format

/-- The format TOML. -/
def toml : Format := ⟨["toml"], Toml.read?⟩

/-- The format JSON. -/
def json : Format where
  endings := ["json"]
  read? text :=
    match (Json.read text).map Value.canonical with
    | .ok (.object ms) => some ms
    | _ => none

/-- The formats that there is no reader for. A file in one of them is found, and refused. -/
def unread : Format := ⟨["yaml", "yml", "ini", "ron", "json5"], fun _ => none⟩

/-- The formats that the program knows. -/
def known : List Format := [toml, json, unread]

end Format

/-! ## Finding the file -/

/-- The ending of a file name: what follows its last point, unless the name begins there. -/
def ending (name : List Char) : List Char :=
  let tail := (name.reverse.takeWhile (· != '.')).reverse
  if tail.length + 1 < name.length then tail else []

/-- The format of the file at a path. -/
def format? (formats : List Format) (path : String) : Option Format :=
  let name := (path.toList.splitOn '/').getLast?.getD []
  formats.find? (·.endings.contains (String.ofList (ending name)))

/-- A path to which an ending can be added: it ends in a name. -/
def stem? (path : String) : Option String :=
  let names := ((pathNames path).reverse.dropWhile fun n => n == "" || n == ".").reverse
  match names.getLast? with
  | none => none
  | some name => if name = ".." then none else some (String.intercalate "/" names)

/-- The paths at which a settings file may be found when it is not at its own path. -/
def alternatives (formats : List Format) (path : String) : List (String × Format) :=
  match stem? path with
  | none => []
  | some stem => formats.flatMap fun format => format.endings.map (stem ++ "." ++ ·, format)

/-- The bytes of a file, if it is one. -/
def bytes? (files : Files) (path : String) : Option (List UInt8) :=
  match files path with
  | .ok bytes => some bytes
  | .error _ => none

/-- The settings file of a name, with its format. -/
def find (formats : List Format) (files : Files) (path : String) :
    Except SettingsError (Format × List UInt8) :=
  match bytes? files path with
  | some bytes =>
    match format? formats path with
    | some format => .ok (format, bytes)
    | none => .error .unknownFormat
  | none =>
    let found := (alternatives formats path).findSome? fun (p, format) =>
      (bytes? files p).map fun bytes => (format, bytes)
    match found with
    | some file => .ok file
    | none => .error .notFound

/-! ## Reading the file -/

/-- The bytes without the mark that says that they are UTF-8. -/
def dropMark : List UInt8 → List UInt8
  | 0xEF :: 0xBB :: 0xBF :: bytes => bytes
  | bytes => bytes

/-- The members of a settings file. -/
def readMembers (format : Format) (bytes : List UInt8) :
    Except SettingsError (List (String × Value)) :=
  match format.read? (Text.decodeLossy (dropMark bytes)) with
  | some ms => .ok ms
  | none => .error .malformed

/-! ## Loading -/

/-- The settings file that is read when none is asked for. -/
def defaultPath : String := "config/dashlint"

/-- The paths of all files that settings may be loaded from. -/
def candidates (formats : List Format) (path : Option String) : List String :=
  let path := path.getD defaultPath
  path :: (alternatives formats path).map (·.1)

/-- The members of the file that was asked for, or of the default one. -/
def loadMembers (formats : List Format) (files : Files) :
    Option String → Except SettingsError (List (String × Value))
  | some path => do
    let (format, bytes) ← find formats files path
    readMembers format bytes
  | none =>
    match find formats files defaultPath with
    | .ok (format, bytes) => readMembers format bytes
    | .error _ => .ok []

/-- The settings of a run, where settings files are in some formats. -/
def loadIn (formats : List Format) (files : Files) (path : Option String) (env : Environment) :
    Except SettingsError Settings := do
  ofLayers (← loadMembers formats files path) env

/-- The settings of a run. -/
def load : Files → Option String → Environment → Except SettingsError Settings :=
  loadIn Format.known

end PanelLint.Settings
