import PanelLint.Number.Binary64
/-!
# JSON values

`Value` is a parsed JSON text. Integers that fit 64 bits are kept apart from all other numbers. An
object keeps its members as they were written; `Value.canonical` gives the form in which a document
is read: at every depth the keys are unique, the last of two members with one key having won, and
the members stand in the order of their keys.
-/

namespace PanelLint.Json

open PanelLint.Number

/-- A JSON value. -/
inductive Value
  | null
  | bool (value : Bool)
  | integer (value : Int)
  | float (value : Binary64)
  | string (value : String)
  | array (items : List Value)
  | object (members : List (String × Value))
  deriving Repr, BEq, Inhabited

namespace Value

/-- The members with `value` put under `key`: in place of an earlier one of that key, else at the
key's place in the order. -/
def insert (key : String) (value : Value) : List (String × Value) → List (String × Value)
  | [] => [(key, value)]
  | (k, v) :: rest =>
    if key = k then (key, value) :: rest
    else if key < k then (key, value) :: (k, v) :: rest
    else (k, v) :: insert key value rest

mutual

/-- The value with unique, sorted keys at every depth. -/
def canonical : Value → Value
  | .array items => .array (canonicalItems items)
  | .object members => .object (canonicalMembers [] members)
  | v => v

/-- The elements of an array in canonical form. -/
def canonicalItems : List Value → List Value
  | [] => []
  | v :: vs => v.canonical :: canonicalItems vs

/-- The members put one after another into those that came before. -/
def canonicalMembers (before : List (String × Value)) :
    List (String × Value) → List (String × Value)
  | [] => before
  | (k, v) :: rest => canonicalMembers (insert k v.canonical before) rest

end

/-- The value of a member of an object. -/
def member? (key : String) : Value → Option Value
  | .object members => members.lookup key
  | _ => none

/-- Whether the value is an object. -/
def isObject : Value → Bool
  | .object _ => true
  | _ => false

end Value

end PanelLint.Json
