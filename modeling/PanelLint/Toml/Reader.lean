import PanelLint.Toml.Scalar
import PanelLint.Toml.Table
import PanelLint.Toml.Text
/-!
# Reading TOML

`Toml.read?` reads a document line by line: a header says which table the following keys belong to.
Arrays and inline tables may run over several lines and hold comments. A document in which anything
is wrong, or is defined twice, gives nothing. Its values are those of JSON.
-/

namespace PanelLint.Toml

open PanelLint.Json (Value)

/-- What is left after a comment. -/
def skipComment : List Char → List Char
  | '#' :: cs => cs.dropWhile isPlain
  | cs => cs

/-- What is left after white space, comments and line ends; `fuel` bounds the lines. -/
def skipGaps : (fuel : Nat) → List Char → List Char
  | 0, cs => cs
  | fuel + 1, cs =>
    let rest := skipComment (skipBlanks cs)
    match dropLineEnd? rest with
    | some rest => skipGaps fuel rest
    | none => rest

/-- What is left after all that may stand between the items of an array. -/
def skip (cs : List Char) : List Char := skipGaps (cs.length + 1) cs

mutual

/-- A value within `depth` more brackets; `fuel` bounds the calls. -/
def readValue? : (fuel depth : Nat) → List Char → Option (Value × List Char)
  | 0, _, _ => none
  | _ + 1, _, [] => none
  | fuel + 1, depth, c :: cs =>
    if c = '"' ∨ c = '\'' then (readString? c cs).map fun (text, rest) => (.string text, rest)
    else if c = '[' then
      if depth = 0 then none
      else (readItems? fuel (depth - 1) cs).map fun (vs, rest) => (.array vs, rest)
    else if c = '\x7b' then
      if depth = 0 then none
      else (readInline? fuel (depth - 1) [] cs).map fun (ms, rest) =>
        (.object (membersToValues ms), rest)
    else (word? (takeWord (c :: cs)).1).map fun v => (v, (takeWord (c :: cs)).2)

/-- The items of an array up to its closing bracket. -/
def readItems? : (fuel depth : Nat) → List Char → Option (List Value × List Char)
  | 0, _, _ => none
  | fuel + 1, depth, cs =>
    match skip cs with
    | ']' :: rest => some ([], rest)
    | cs => do
      let (v, rest) ← readValue? fuel depth cs
      match skip rest with
      | ',' :: rest =>
        let (vs, rest) ← readItems? fuel depth rest
        some (v :: vs, rest)
      | ']' :: rest => some ([v], rest)
      | _ => none

/-- The members of an inline table up to its closing brace, after those in `before`. -/
def readInline? : (fuel depth : Nat) → (before : Members) → List Char →
    Option (Members × List Char)
  | 0, _, _, _ => none
  | fuel + 1, depth, before, cs =>
    match skip cs with
    | '\x7d' :: rest => some (before, rest)
    | cs => do
      let ((path, key), rest) ← readKeys? (cs.length + 1) cs
      match rest with
      | '=' :: rest =>
        let (v, rest) ← readValue? fuel depth (skipBlanks rest)
        let members ← assign? path key v before
        match skip rest with
        | ',' :: rest => readInline? fuel depth members rest
        | '\x7d' :: rest => some (members, rest)
        | _ => none
      | _ => none

end

/-- How deep the brackets of a value may be nested. -/
def maxDepth : Nat := 80

/-- What a line of a document says. -/
inductive Statement
  | nothing
  /-- The header of a table. -/
  | table (path : List String) (key : String)
  /-- The header of an item of an array of tables. -/
  | item (path : List String) (key : String)
  | assign (path : List String) (key : String) (value : Value)

/-- A statement at the front of a line. -/
def readStatement? (cs : List Char) : Option (Statement × List Char) :=
  match skipBlanks cs with
  | [] => some (.nothing, [])
  | '[' :: '[' :: cs => do
    let ((path, key), rest) ← readKeys? (cs.length + 1) cs
    match rest with
    | ']' :: ']' :: rest => some (.item path key, rest)
    | _ => none
  | '[' :: cs => do
    let ((path, key), rest) ← readKeys? (cs.length + 1) cs
    match rest with
    | ']' :: rest => some (.table path key, rest)
    | _ => none
  | c :: cs =>
    if c = '#' ∨ c = '\n' ∨ c = '\r' then some (.nothing, c :: cs)
    else do
      let ((path, key), rest) ← readKeys? (cs.length + 2) (c :: cs)
      match rest with
      | '=' :: rest =>
        let (v, rest) ← readValue? (2 * rest.length + 2) maxDepth (skipBlanks rest)
        some (.assign path key v, rest)
      | _ => none

/-- The lines of a document, each a statement and perhaps a comment; `fuel` bounds their number. -/
def readStatements? : (fuel : Nat) → List Char → Option (List Statement)
  | 0, _ => none
  | fuel + 1, cs => do
    let (s, rest) ← readStatement? cs
    match skipComment (skipBlanks rest) with
    | [] => some [s]
    | rest =>
      let rest ← dropLineEnd? rest
      (readStatements? fuel rest).map (s :: ·)

/-- A document under construction: its members, and the path of the table that keys belong to. -/
structure Document where
  members : Members := []
  current : List String := []

/-- The document after one more statement. -/
def Document.add? (d : Document) : Statement → Option Document
  | .nothing => some d
  | .table path key => (openTable? path key d.members).map fun ms => ⟨ms, path ++ [key]⟩
  | .item path key => (openItem? path key d.members).map fun ms => ⟨ms, path ++ [key]⟩
  | .assign path key v =>
    (within? d.current (assign? path key v) d.members).map fun ms => { d with members := ms }

/-- The members of the document that a text is. -/
def read? (text : List Char) : Option (List (String × Value)) := do
  let statements ← readStatements? (text.length + 1) text
  let d ← statements.foldlM Document.add? {}
  some (membersToValues d.members)

end PanelLint.Toml
