import PanelLint.Json.Value
/-!
# The tables of a TOML document

A document defines its tables piece by piece: by headers, by dotted keys, and as the items of an
array that grows with each header in double brackets. A `Node` remembers how it came to be, because
that decides what may still be added to it: nothing is defined twice, and a table with a header of its
own takes no dotted keys from outside.
-/

namespace PanelLint.Toml

open PanelLint.Json (Value)

/-- How a table came to be. -/
inductive Origin
  /-- By its own header. -/
  | header
  /-- As a part of the path in another header. -/
  | implied
  /-- As a part of a dotted key. -/
  | dotted
  deriving DecidableEq, Repr

/-- A value, a table or an array of tables. -/
inductive Node
  | value (v : Value)
  | table (origin : Origin) (members : List (String × Node))
  | tables (items : List (List (String × Node)))

/-- The members of a table under construction. -/
abbrev Members := List (String × Node)

/-- The members with the one of a key changed, or refused. -/
def alter? (key : String) (f : Option Node → Option Node) : Members → Option Members
  | [] => (f none).map fun n => [(key, n)]
  | (k, n) :: rest =>
    if k = key then (f (some n)).map fun n => (k, n) :: rest
    else (alter? key f rest).map ((k, n) :: ·)

/-- A change of the last item of an array of tables. -/
def alterLast? (f : Members → Option Members) : List Members → Option (List Members)
  | [] => none
  | [ms] => (f ms).map fun ms => [ms]
  | ms :: rest => (alterLast? f rest).map (ms :: ·)

/-- A change of the table at a path; tables that are not there yet are implied, and of an array of
tables the last one is meant. -/
def within? : (path : List String) → (Members → Option Members) → Members → Option Members
  | [], f, ms => f ms
  | key :: path, f, ms =>
    alter? key (fun
      | none => (within? path f []).map (.table .implied)
      | some (.table origin inner) => (within? path f inner).map (.table origin)
      | some (.tables items) => (alterLast? (within? path f) items).map .tables
      | some (.value _) => none) ms

/-- The header of a table: it is new, or was only implied. -/
def openTable? (path : List String) (key : String) : Members → Option Members :=
  within? path (alter? key fun
    | none => some (.table .header [])
    | some (.table .implied inner) => some (.table .header inner)
    | some _ => none)

/-- The header of the next item of an array of tables. -/
def openItem? (path : List String) (key : String) : Members → Option Members :=
  within? path (alter? key fun
    | none => some (.tables [[]])
    | some (.tables items) => some (.tables (items ++ [[]]))
    | some _ => none)

/-- A value under a dotted key. The table right around it has come from dotted keys alone. -/
def assign? : (path : List String) → (key : String) → (v : Value) → Members → Option Members
  | [], key, v, ms =>
    alter? key (fun
      | none => some (.value v)
      | some _ => none) ms
  | k :: path, key, v, ms =>
    alter? k (fun
      | none => (assign? path key v []).map (.table .dotted)
      | some (.table .dotted inner) => (assign? path key v inner).map (.table .dotted)
      | some (.table .implied inner) =>
        if path.isEmpty then none else (assign? path key v inner).map (.table .implied)
      | some _ => none) ms

mutual

/-- The value that a node stands for. -/
def Node.toValue : Node → Value
  | .value v => v
  | .table _ members => .object (membersToValues members)
  | .tables items => .array (itemsToValues items)

/-- The members of a table with their values. -/
def membersToValues : List (String × Node) → List (String × Value)
  | [] => []
  | (k, n) :: rest => (k, n.toValue) :: membersToValues rest

/-- The tables of an array as values. -/
def itemsToValues : List (List (String × Node)) → List Value
  | [] => []
  | ms :: rest => .object (membersToValues ms) :: itemsToValues rest

end

end PanelLint.Toml
