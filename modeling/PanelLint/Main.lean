import PanelLint.Number.Width
import PanelLint.Run
/-!
# The program

Reads the files and the environment, hands them to `run`, and prints what it gives.
-/

namespace PanelLint.Main

/-- The number of a failure; some are counted down from the end of 32 bits. -/
def errorNumber (code : UInt32) : Nat :=
  if Number.isUnsigned 31 code.toNat then code.toNat else Nat.pow 2 32 - code.toNat

/-- The failure to read a file. -/
def readError : IO.Error → ReadError
  | .noFileOrDirectory _ code text | .inappropriateType _ code text
  | .permissionDenied _ code text | .invalidArgument _ code text
  | .resourceExhausted _ code text | .noSuchThing _ code text
  | .otherError code text | .hardwareFault code text =>
    .ofSystem (errorNumber code) text
  | e => .system 5 (toString e)

/-- The bytes of a file. -/
def readBytes (path : String) : IO (Except ReadError (List UInt8)) := do
  try
    return .ok (← IO.FS.readBinFile path).toList
  catch e => return .error (readError e)

/-- The files at some paths. -/
def readFiles (paths : List String) : IO Files := do
  let read ← paths.mapM fun path => return (path, ← readBytes path)
  return fun path => (read.lookup path).getD (.error .notFound)

/-- The environment of the process, as the system lists it. -/
def readEnvironment : IO Settings.Environment := do
  match ← readBytes "/proc/self/environ" with
  | .error _ => return []
  | .ok bytes =>
    let entries := (Text.decodeLossy bytes).splitOn '\x00'
    return entries.map fun cs =>
      (String.ofList (cs.takeWhile (· != '=')), String.ofList ((cs.dropWhile (· != '=')).drop 1))

end PanelLint.Main

open PanelLint in
/-- Runs the program. -/
def main (args : List String) : IO UInt32 := do
  let files ← Main.readFiles (neededPaths args)
  let output := run files (← Main.readEnvironment) args
  (← IO.getStdout).putStr output.text
  return UInt32.ofNat output.code
