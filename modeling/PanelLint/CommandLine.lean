/-!
# The command line

The arguments are options and the paths of the dashboards to check, in any order; after `--` there are
only paths. They are read from left to right. The values of an option and the paths are looked at when
the next option begins, or at the end: an option that nobody knows is reported before them.
-/

namespace PanelLint

/-- What a command line asks for. -/
structure Arguments where
  files : List String := []
  /-- The path of the settings file. -/
  config : Option String := none
  verbose : Bool := false
  listRules : Bool := false
  deriving DecidableEq, Repr

/-- Why a command line asks for no run. -/
inductive Stop
  | missingFile
  | unknownOption
  /-- An option is given twice. -/
  | repeatedOption
  /-- A value is missing or empty. -/
  | badValue
  /-- A value is given to an option that takes none. -/
  | unwantedValue
  | help
  | version
  deriving DecidableEq, Repr

namespace CommandLine

/-! ## Options -/

/-- The options without a value. -/
inductive Switch
  | verbose
  | listRules
  | help
  | version
  deriving DecidableEq, Repr

/-- The switches by their names. -/
def longSwitches : List (String × Switch) :=
  [("verbose", .verbose), ("list-rules", .listRules), ("help", .help), ("version", .version)]

/-- The switches by their letters. -/
def shortSwitches : List (Char × Switch) := [('v', .verbose), ('h', .help), ('V', .version)]

/-- The name of the option with a value. -/
def configName : String := "config"

/-- What a switch does. -/
def Switch.turn (a : Arguments) : Switch → Except Stop Arguments
  | .verbose => if a.verbose then .error .repeatedOption else .ok { a with verbose := true }
  | .listRules => if a.listRules then .error .repeatedOption else .ok { a with listRules := true }
  | .help => .error .help
  | .version => .error .version

/-! ## Values -/

/-- What has been read but not yet looked at. -/
inductive Pending
  | nothing
  | files (paths : List String)
  /-- The option for the settings file, with its value if it has come. -/
  | config (path : Option String)
  deriving DecidableEq, Repr

/-- The arguments with what is pending taken in. -/
def settle (a : Arguments) : Pending → Except Stop Arguments
  | .nothing => .ok a
  | .files paths =>
    if paths.contains "" then .error .badValue else .ok { a with files := a.files ++ paths }
  | .config none => .error .badValue
  | .config (some path) =>
    if a.config.isSome then .error .repeatedOption
    else if path = "" then .error .badValue
    else .ok { a with config := some path }

/-! ## Reading -/

/-- How an argument is taken. -/
inductive Shape
  /-- An option by its name, with a value after an equals sign. -/
  | long (name : String) (value : Option String)
  /-- Switches by their letters. -/
  | short (letters : List Char)
  /-- A path or the value of an option. -/
  | plain
  deriving DecidableEq, Repr

/-- The shape of an argument other than `--`. -/
def shape (arg : String) : Shape :=
  match arg.toList with
  | '-' :: '-' :: cs =>
    .long (String.ofList (cs.takeWhile (· != '=')))
      (if cs.contains '=' then some (String.ofList ((cs.dropWhile (· != '=')).drop 1)) else none)
  | '-' :: c :: cs => .short (c :: cs)
  | _ => .plain

/-- The arguments after an option by its name, with what is pending then. -/
def readLong (a : Arguments) (pending : Pending) (name : String) (value : Option String) :
    Except Stop (Arguments × Pending) :=
  if name = configName then do
    let a ← settle a pending
    match value with
    | none => .ok (a, .config none)
    | some path => .ok (← settle a (.config (some path)), .nothing)
  else
    match longSwitches.lookup name, value with
    | none, _ => .error .unknownOption
    | some _, some _ => .error .unwantedValue
    | some s, none => do
      let a ← settle a pending
      .ok (← s.turn a, .nothing)

/-- The arguments after switches by their letters, with what is pending then. -/
def readShort (a : Arguments) (pending : Pending) : List Char → Except Stop (Arguments × Pending)
  | [] => .ok (a, pending)
  | c :: cs =>
    match shortSwitches.lookup c with
    | none => .error .unknownOption
    | some s => do
      let a ← settle a pending
      readShort (← s.turn a) .nothing cs

/-- The arguments after a path or a value, with what is pending then. -/
def readPlain (a : Arguments) (arg : String) : Pending → Except Stop (Arguments × Pending)
  | .config none => .ok (a, .config (some arg))
  | .files paths => .ok (a, .files (paths ++ [arg]))
  | pending => do .ok (← settle a pending, .files [arg])

/-- The arguments after all of a command line. -/
def readAll (a : Arguments) (pending : Pending) : List String → Except Stop Arguments
  | [] => settle a pending
  | arg :: rest =>
    if arg = "--" then do
      let a ← settle a pending
      settle a (.files rest)
    else do
      let (a, pending) ← match shape arg with
        | .long name value => readLong a pending name value
        | .short letters => readShort a pending letters
        | .plain => readPlain a arg pending
      readAll a pending rest

/-- What a command line asks for. There is a path, unless only the rules are to be listed. -/
def read (args : List String) : Except Stop Arguments := do
  let a ← readAll {} .nothing args
  if a.files.isEmpty && !a.listRules then .error .missingFile else .ok a

/-! ## Texts -/

/-- The name and the version of the program. -/
def versionText : String := "dashlint 0.1.0\n"

/-- How the program is used, line by line. -/
def helpLines : List String :=
  ["Lint Grafana dashboards for invalid PromQL targets",
    "",
    "Usage: dashlint [OPTIONS] [FILE]...",
    "",
    "Arguments:",
    "  [FILE]...  Dashboard JSON files to lint",
    "",
    "Options:",
    "      --config <PATH>  Path to configuration file (defaults to config/dashlint if present)",
    "  -v, --verbose        Log every evaluated target",
    "      --list-rules     Print the enabled rules and exit",
    "  -h, --help           Print help",
    "  -V, --version        Print version"]

/-- How the program is used. -/
def helpText : String := String.join (helpLines.map (· ++ "\n"))

end CommandLine

end PanelLint
