import PanelLint.Number.Read
/-!
# The strings of a TOML document

A basic string stands between double quotes and knows escapes, a literal one between single quotes
and knows none. Either has a form of several lines between three quotes, which begins after a first
line end. Line ends are read as line feeds.
-/

namespace PanelLint.Toml

open PanelLint.Number

/-- Whether a character may stand in a string or a comment. -/
def isPlain (c : Char) : Bool := c == '\t' || (0x20 ≤ c.toNat && c.toNat != 0x7F)

/-- Whether a character is white space within a line. -/
def isBlank (c : Char) : Bool := c == ' ' || c == '\t'

/-- What is left after the white space at the front of a line. -/
def skipBlanks (cs : List Char) : List Char := cs.dropWhile isBlank

/-- What is left after a line end. -/
def dropLineEnd? : List Char → Option (List Char)
  | '\n' :: cs => some cs
  | '\r' :: '\n' :: cs => some cs
  | _ => none

/-- What is left after white space and line ends; `fuel` bounds their number. -/
def skipLines : (fuel : Nat) → List Char → List Char
  | 0, cs => cs
  | fuel + 1, cs =>
    match dropLineEnd? (skipBlanks cs) with
    | some rest => skipLines fuel rest
    | none => skipBlanks cs

/-! ## Escapes -/

/-- The escapes by one letter. -/
def escapes : List (Char × Char) :=
  [('b', '\x08'), ('t', '\t'), ('n', '\n'), ('f', '\x0c'), ('r', '\r'), ('e', '\x1b'), ('"', '"'),
    ('\\', '\\')]

/-- The escapes by a code, with the number of its hexadecimal digits. -/
def codeEscapes : List (Char × Nat) := [('x', 2), ('u', 4), ('U', 8)]

/-- A character by a code of `count` hexadecimal digits. -/
def readCode? (count : Nat) (cs : List Char) : Option (Char × List Char) :=
  let ds := cs.take count
  let code := ofDigits 16 ds
  if ds.length = count ∧ ds.all isHexDigit ∧ (code < 0xD800 ∨ (0xE000 ≤ code ∧ code < 0x110000)) then
    some (Char.ofNat code, cs.drop count)
  else none

/-- What follows a backslash. -/
def readEscape? : List Char → Option (Char × List Char)
  | [] => none
  | c :: cs =>
    match escapes.lookup c, codeEscapes.lookup c with
    | some e, _ => some (e, cs)
    | none, some count => readCode? count cs
    | none, none => none

/-! ## Strings -/

/-- A string of one line up to its closing quote; `fuel` bounds its length. -/
def readLine? (quote : Char) : (fuel : Nat) → List Char → Option (List Char × List Char)
  | 0, _ => none
  | _ + 1, [] => none
  | fuel + 1, c :: cs =>
    if c = quote then some ([], cs)
    else if c = '\\' ∧ quote = '"' then do
      let (e, rest) ← readEscape? cs
      let (text, rest) ← readLine? quote fuel rest
      some (e :: text, rest)
    else if isPlain c then (readLine? quote fuel cs).map fun (text, rest) => (c :: text, rest)
    else none

/-- A string of several lines up to its closing quotes; `fuel` bounds its length. Of more than three
quotes at its end the first two at most belong to the text. A backslash at the end of a line takes
away all white space up to the next text. -/
def readLines? (quote : Char) : (fuel : Nat) → List Char → Option (List Char × List Char)
  | 0, _ => none
  | _ + 1, [] => none
  | fuel + 1, c :: cs =>
    let quotes := ((c :: cs).takeWhile (· == quote)).length
    if 3 ≤ quotes then
      let extra := min (quotes - 3) 2
      some (List.replicate extra quote, (c :: cs).drop (3 + extra))
    else if c = '\\' ∧ quote = '"' then
      match dropLineEnd? (skipBlanks cs) with
      | some rest => readLines? quote fuel (skipLines rest.length rest)
      | none => do
        let (e, rest) ← readEscape? cs
        let (text, rest) ← readLines? quote fuel rest
        some (e :: text, rest)
    else
      match dropLineEnd? (c :: cs) with
      | some rest => (readLines? quote fuel rest).map fun (text, rest) => ('\n' :: text, rest)
      | none =>
        if isPlain c then (readLines? quote fuel cs).map fun (text, rest) => (c :: text, rest)
        else none

/-- A string that begins with `quote`, whose first quote is already taken. -/
def readString? (quote : Char) (cs : List Char) : Option (String × List Char) :=
  let read :=
    if cs.take 2 = [quote, quote] then
      let body := cs.drop 2
      let body := (dropLineEnd? body).getD body
      readLines? quote (body.length + 1) body
    else readLine? quote (cs.length + 1) cs
  read.map fun (text, rest) => (String.ofList text, rest)

/-! ## Keys -/

/-- Whether a character may stand in a key without quotes. -/
def isBare (c : Char) : Bool := c.isAlphanum || c == '_' || c == '-'

/-- A key, or a part of a dotted one. -/
def readKey? : List Char → Option (String × List Char)
  | [] => none
  | c :: cs =>
    if c = '"' ∨ c = '\'' then
      (readLine? c (cs.length + 1) cs).map fun (text, rest) => (String.ofList text, rest)
    else if isBare c then
      some (String.ofList ((c :: cs).takeWhile isBare), (c :: cs).dropWhile isBare)
    else none

/-- A dotted key: its parts, the last one apart; `fuel` bounds their number. -/
def readKeys? : (fuel : Nat) → List Char → Option ((List String × String) × List Char)
  | 0, _ => none
  | fuel + 1, cs => do
    let (key, rest) ← readKey? (skipBlanks cs)
    match skipBlanks rest with
    | '.' :: rest =>
      let ((path, last), rest) ← readKeys? fuel rest
      some ((key :: path, last), rest)
    | rest => some (([], key), rest)

end PanelLint.Toml
