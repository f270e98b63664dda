import PanelLint.Json.Value
import PanelLint.Number.Read
import PanelLint.Number.Width
/-!
# Keys that lead into values

A key of the settings may be a path: a name, followed by names after points and by positions in square
brackets, as in `a.b[0]`. Setting such a key changes only the place it leads to, and makes tables and
lists on the way where there are none. A position below zero counts from the end. A key that is no
path is a name as it stands.

A table that is set is merged into the table in its place, key by key; every other value takes the
place of what was there.
-/

namespace PanelLint.Settings

open PanelLint.Number
open PanelLint.Json (Value)

/-! ## Paths -/

/-- A step of a path. -/
inductive Step
  | name (name : String)
  | position (index : Int)
  deriving DecidableEq, Repr

/-- Whether a character may stand in a name. -/
def isNameChar (c : Char) : Bool := c.isAlphanum || c == '_' || c == '-'

/-- A name at the front. -/
def readName? (cs : List Char) : Option (String × List Char) :=
  if (cs.takeWhile isNameChar).isEmpty then none
  else some (String.ofList (cs.takeWhile isNameChar), cs.dropWhile isNameChar)

/-- What is left after blanks and tabs. -/
def skipBlanks (cs : List Char) : List Char := cs.dropWhile fun c => c == ' ' || c == '\t'

/-- A position and the bracket that closes it. -/
def readPosition? (cs : List Char) : Option (Int × List Char) :=
  let (negative, digits) := match skipBlanks cs with
    | '-' :: cs => (true, cs)
    | cs => (false, cs)
  match readNat? (digits.takeWhile Char.isDigit), skipBlanks (digits.dropWhile Char.isDigit) with
  | some n, ']' :: rest =>
    let index : Int := if negative then -n else n
    if isSigned 64 index then some (index, rest) else none
  | _, _ => none

/-- The steps after the first one; `fuel` bounds their number. -/
def readSteps? : (fuel : Nat) → List Char → Option (List Step)
  | _, [] => some []
  | 0, _ => none
  | fuel + 1, '.' :: cs => do
    let (name, rest) ← readName? cs
    (readSteps? fuel rest).map (.name name :: ·)
  | fuel + 1, '[' :: cs => do
    let (index, rest) ← readPosition? cs
    (readSteps? fuel rest).map (.position index :: ·)
  | _ + 1, _ => none

/-- The path that a key is, if it is one. -/
def readPath? (key : List Char) : Option (List Step) := do
  let (name, rest) ← readName? key
  (readSteps? rest.length rest).map (.name name :: ·)

/-- The steps to which a key leads. -/
def steps (key : String) : List Step := (readPath? key.toList).getD [.name key]

/-! ## Values -/

/-- The members of a table; any other value has none. -/
def members : Value → List (String × Value)
  | .object ms => ms
  | _ => []

/-- The items of a list; any other value has none. -/
def items : Value → List Value
  | .array vs => vs
  | _ => []

/-- A list with the item at a position changed, and filled up with nulls as far as needed. -/
def changeItem (index : Int) (f : Value → Value) (vs : List Value) : List Value :=
  if 0 ≤ index then
    let filled := vs ++ List.replicate (index.toNat + 1 - vs.length) .null
    filled.modify index.toNat f
  else
    let filled := List.replicate (index.natAbs - vs.length) .null ++ vs
    filled.modify (vs.length - index.natAbs) f

/-- A value with the place at the end of some steps changed. -/
def change (f : Value → Value) : List Step → Value → Value
  | [], v => f v
  | .name name :: path, v =>
    .object (Value.insert name (change f path (((members v).lookup name).getD .null)) (members v))
  | .position index :: path, v => .array (changeItem index (change f path) (items v))

mutual

/-- A value set in the place of another one. -/
def merge (old : Value) : Value → Value
  | .object ms => .object (mergeMembers (members old) ms)
  | v => v

/-- The members of a table set in the place of those of another one. -/
def mergeMembers (old : List (String × Value)) : List (String × Value) → List (String × Value)
  | [] => old
  | (key, v) :: rest =>
    mergeMembers (Value.insert key (merge ((old.lookup key).getD .null) v) old) rest

end

/-- The settings with the value of a key set. -/
def set (tree : Value) (key : String) (v : Value) : Value := change (merge · v) (steps key) tree

/-- The settings with the values of several keys set, one after another. -/
def setAll (tree : Value) (entries : List (String × Value)) : Value :=
  entries.foldl (fun t (key, v) => set t key v) tree

end PanelLint.Settings
