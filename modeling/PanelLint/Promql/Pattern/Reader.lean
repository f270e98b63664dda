import PanelLint.Number.Read
import PanelLint.Number.Width
import PanelLint.Promql.Pattern.Basic
import PanelLint.Text.Blank
import PanelLint.Text.Word
/-!
# Reading patterns

`Pattern.read?` reads a regular expression in the usual notation: groups with names and flags,
character classes with ranges, nested classes and set operators, counted repetitions, escapes and
word boundaries. It knows neither look-around nor back references. Two flags change how it reads:
`x` lets blanks and comments stand between the parts, and switching `u` off refuses whatever could
match a part of a character.

A string literal of PromQL has no other escapes than those of characters and `\b`, so classes such as
`\d` do not occur.
-/

namespace PanelLint.Promql.Pattern

open PanelLint.Text PanelLint.Number

/-- The flags that change how a pattern is read. -/
structure Mode where
  verbose : Bool := false
  unicode : Bool := true
  deriving DecidableEq, Repr

/-- What is left after blanks and comments. -/
def skipBlanks (cs : List Char) : List Char :=
  let rec go : (fuel : Nat) → List Char → List Char
    | 0, cs => cs
    | fuel + 1, '#' :: cs => go fuel ((cs.dropWhile (· != '\n')).drop 1)
    | fuel + 1, c :: cs => if isBlank c then go fuel cs else c :: cs
    | _ + 1, [] => []
  go cs.length cs

/-- What is left after what may stand between the parts of a pattern. -/
def Mode.skip (mode : Mode) (cs : List Char) : List Char :=
  if mode.verbose then skipBlanks cs else cs

/-! ## Escapes -/

/-- What an escape stands for. -/
inductive Escape
  /-- A character; `byte` when it is written by two hexadecimal digits. -/
  | char (code : Nat) (byte : Bool)
  /-- A test of the place in the text, with its outcome on the empty text. -/
  | look (holds : Bool)
  deriving DecidableEq, Repr

/-- Whether a number is the code of a character. -/
def isScalar (n : Nat) : Bool := n < 0xD800 || (0xE000 ≤ n && n < 0x110000)

/-- Some hexadecimal digits, with blanks between them where the mode allows. -/
def readHexDigits? (mode : Mode) : (count : Nat) → List Char → Option (List Char × List Char)
  | 0, cs => some ([], cs)
  | count + 1, c :: cs =>
    if isHexDigit c then
      (readHexDigits? mode count (mode.skip cs)).map fun (ds, rest) => (c :: ds, rest)
    else none
  | _ + 1, [] => none

/-- The hexadecimal digits before a closing brace; `fuel` bounds their number. -/
def readHexBraced? (mode : Mode) : (fuel : Nat) → List Char → Option (List Char × List Char)
  | 0, _ => none
  | _ + 1, [] => none
  | fuel + 1, c :: cs =>
    if c = '\x7d' then some ([], mode.skip cs)
    else if isHexDigit c then
      (readHexBraced? mode fuel (mode.skip cs)).map fun (ds, rest) => (c :: ds, rest)
    else none

/-- A character by its code, after `x`, `u` or `U`. -/
def readHex? (mode : Mode) (count : Nat) (cs : List Char) : Option (Escape × List Char) :=
  let read := match mode.skip cs with
    | '\x7b' :: cs => (readHexBraced? mode (cs.length + 1) (mode.skip cs)).map fun r => (r, false)
    | cs => (readHexDigits? mode count cs).map fun r => (r, count == 2)
  match read with
  | none => none
  | some ((ds, rest), byte) =>
    if ds.isEmpty || !isScalar (ofDigits 16 ds) then none
    else some (.char (ofDigits 16 ds) byte, rest)

/-- Whether a character may stand in the name of a boundary. -/
def isBoundaryChar (c : Char) : Bool := c.isAlpha || c == '-'

/-- The name of a boundary up to its closing brace; `fuel` bounds its length. -/
def readBoundaryName? (mode : Mode) : (fuel : Nat) → List Char → Option (List Char × List Char)
  | 0, _ => none
  | _ + 1, [] => none
  | fuel + 1, c :: cs =>
    if c = '\x7d' then some ([], cs)
    else if isBoundaryChar c then
      (readBoundaryName? mode fuel (mode.skip cs)).map fun (ds, rest) => (c :: ds, rest)
    else none

/-- What follows `\b`: a kind of boundary in braces, or nothing. On the empty text only the two
halves of a boundary hold. -/
def readBoundary? (mode : Mode) : List Char → Option (Escape × List Char)
  | '\x7b' :: cs =>
    match mode.skip cs with
    | [] => none
    | c :: rest =>
      if !isBoundaryChar c then some (.look false, '\x7b' :: cs)
      else
        match readBoundaryName? mode (rest.length + 2) (c :: rest) with
        | none => none
        | some (name, rest) =>
          if name = "start".toList ∨ name = "end".toList then some (.look false, rest)
          else if name = "start-half".toList ∨ name = "end-half".toList then some (.look true, rest)
          else none
  | cs => some (.look false, cs)

/-- The letters that stand for a control character. -/
def controls : List (Char × Nat) :=
  [('a', 0x07), ('f', 0x0C), ('n', 0x0A), ('r', 0x0D), ('t', 0x09), ('v', 0x0B)]

/-- Whether a character stands for itself after a backslash. -/
def isEscapable (c : Char) : Bool :=
  c.toNat < 0x80 && !c.isAlphanum && c != '<' && c != '>'

/-- What follows a backslash. -/
def readEscape? (mode : Mode) : List Char → Option (Escape × List Char)
  | [] => none
  | c :: cs =>
    if c = 'x' then readHex? mode 2 cs
    else if c = 'u' then readHex? mode 4 cs
    else if c = 'U' then readHex? mode 8 cs
    else if c = 'b' then readBoundary? mode cs
    else if let some code := controls.lookup c then some (.char code false, cs)
    else if isEscapable c then some (.char c.toNat false, cs)
    else none

/-! ## Character classes -/

/-- The names of the classes between `[:` and `:]`. -/
def classNames : List String :=
  ["alnum", "alpha", "ascii", "blank", "cntrl", "digit", "graph", "lower", "print", "punct",
    "space", "upper", "word", "xdigit"]

/-- A named class at the front of a text: whether it is negated, and the rest. -/
def readNamedClass? : List Char → Option (Bool × List Char)
  | '[' :: ':' :: cs =>
    let negated := cs.head? == some '^'
    let cs := if negated then cs.drop 1 else cs
    match cs.dropWhile (· != ':') with
    | ':' :: ']' :: rest =>
      if classNames.contains (String.ofList (cs.takeWhile (· != ':'))) then some (negated, rest)
      else none
    | _ => none
  | _ => none

/-- Whether a character may be a member of a class. -/
def Mode.admits (mode : Mode) (code : Nat) : Bool := mode.unicode || code < 0x80

/-- One character of a class. -/
def readMember? (mode : Mode) : List Char → Option (Nat × List Char)
  | [] => none
  | '\\' :: cs =>
    match readEscape? mode cs with
    | some (.char code _, rest) => if mode.admits code then some (code, rest) else none
    | _ => none
  | c :: cs => if mode.admits c.toNat then some (c.toNat, cs) else none

/-- One character or range of a class: the highest of its codes. -/
def readRange? (mode : Mode) (cs : List Char) : Option (Nat × List Char) :=
  match readMember? mode cs with
  | none => none
  | some (low, rest) =>
    match mode.skip rest with
    | '-' :: after =>
      match mode.skip after with
      | [] => none
      | d :: after' =>
        if d = ']' ∨ d = '-' then some (low, '-' :: after)
        else
          match readMember? mode (d :: after') with
          | some (high, rest) => if low ≤ high then some (high, rest) else none
          | none => none
    | rest => some (low, rest)

/-- The hyphens at the front of a class, and a bracket right after the opening one: they are plain
characters. -/
def skipLeading (mode : Mode) (cs : List Char) : List Char :=
  let rec go : (fuel : Nat) → List Char → List Char
    | 0, cs => cs
    | fuel + 1, '-' :: cs => go fuel (mode.skip cs)
    | _ + 1, cs => cs
  match cs with
  | ']' :: rest => mode.skip rest
  | cs => go cs.length cs

/-- What is kept of a class: its depth, and whether it holds characters beyond ASCII. -/
structure Class where
  depth : Nat := 1
  wide : Bool := false
  deriving DecidableEq, Repr

namespace Class

/-- A class that leaves characters out. -/
def negative : Class := { wide := true }

/-- A class with the members of one inside it. -/
def around (c inner : Class) : Class := ⟨max c.depth (inner.depth + 1), c.wide || inner.wide⟩

/-- A class with more members, which may go beyond ASCII. -/
def widened (c : Class) (wide : Bool) : Class := { c with wide := c.wide || wide }

/-- The states of a matcher for a class: the choice and its end. The bytes of characters beyond ASCII
have states of their own; such a class is counted as that of all characters but the line break. -/
def states (c : Class) : Nat := if c.wide then 9 else 2

end Class

mutual

/-- A class after its opening bracket, and the rest of the text. -/
def readClass? (mode : Mode) : (fuel : Nat) → List Char → Option (Class × List Char)
  | 0, _ => none
  | fuel + 1, cs =>
    match mode.skip cs with
    | '^' :: rest =>
      if mode.unicode then
        readMembers? mode fuel .negative (skipLeading mode (mode.skip rest))
      else none
    | rest => readMembers? mode fuel {} (skipLeading mode rest)

/-- The members of a class up to its closing bracket, given what there was before. -/
def readMembers? (mode : Mode) : (fuel : Nat) → Class → List Char → Option (Class × List Char)
  | 0, _, _ => none
  | fuel + 1, c, cs =>
    match mode.skip cs with
    | [] => none
    | ']' :: rest => some (c, rest)
    | '[' :: rest =>
      match readNamedClass? ('[' :: rest) with
      | some (negated, rest) =>
        if negated && !mode.unicode then none else readMembers? mode fuel (c.widened negated) rest
      | none =>
        match readClass? mode fuel rest with
        | some (inner, rest) => readMembers? mode fuel (c.around inner) rest
        | none => none
    | '&' :: '&' :: rest => readMembers? mode fuel c rest
    | '-' :: '-' :: rest => readMembers? mode fuel c rest
    | '~' :: '~' :: rest => readMembers? mode fuel c rest
    | cs =>
      match readRange? mode cs with
      | some (high, rest) => readMembers? mode fuel (c.widened (0x80 ≤ high)) rest
      | none => none

end

/-! ## Repetitions -/

/-- Whether a pattern may be repeated. -/
def isRepeatable : Pattern → Bool
  | .empty => false
  | .flags => false
  | _ => true

/-- What is left after the mark of a lazy repetition. -/
def skipLazy : List Char → List Char
  | '?' :: cs => cs
  | cs => cs

/-- A count of a repetition, with blanks around it. -/
def readCount? (cs : List Char) : Option (Nat × List Char) :=
  let cs := dropBlanks cs
  match readNat? (cs.takeWhile Char.isDigit) with
  | none => none
  | some n => if isUnsigned 32 n then some (n, dropBlanks (cs.dropWhile Char.isDigit)) else none

/-- A repetition after its opening brace: the least and the greatest count. -/
def readCounts? (mode : Mode) (cs : List Char) : Option (Nat × Option Nat × List Char) :=
  match readCount? (mode.skip cs) with
  | none => none
  | some (least, '\x7d' :: rest) => some (least, some least, skipLazy (mode.skip rest))
  | some (least, ',' :: rest) =>
    match mode.skip rest with
    | '\x7d' :: rest => some (least, none, skipLazy (mode.skip rest))
    | rest =>
      match readCount? rest with
      | some (most, '\x7d' :: rest) =>
        if least ≤ most then some (least, some most, skipLazy (mode.skip rest)) else none
      | _ => none
  | some _ => none

/-! ## Groups -/

/-- The flags of a group up to `:` or `)`: the mode they set and the rest of the text, given whether
they are being switched off, whether that was just said, and the flags seen. -/
def readFlags? : Mode → (off justOff : Bool) → (seen : List Char) → List Char →
    Option (Mode × Nat × List Char)
  | _, _, _, _, [] => none
  | mode, off, justOff, seen, c :: cs =>
    if c = ':' ∨ c = ')' then
      if justOff then none else some (mode, seen.length, c :: cs)
    else if c = '-' then
      if off then none else readFlags? mode true true seen cs
    else if c ∈ ['i', 'm', 's', 'U', 'u', 'R', 'x'] ∧ c ∉ seen then
      let mode := if c = 'x' then { mode with verbose := !off }
        else if c = 'u' then { mode with unicode := !off }
        else mode
      readFlags? mode off false (c :: seen) cs
    else none

/-- Whether a character may begin the name of a group. -/
def isNameStart (c : Char) : Bool := c == '_' || isLetter c

/-- Whether a character may go on the name of a group. -/
def isNameRest (c : Char) : Bool :=
  isNameStart c || isNumeric c || c == '.' || c == '[' || c == ']'

/-- The name of a group up to `>`. -/
def readName? (cs : List Char) : Option (List Char × List Char) :=
  match cs.takeWhile (· != '>'), cs.dropWhile (· != '>') with
  | c :: name, '>' :: rest =>
    if isNameStart c && name.all isNameRest then some (c :: name, rest) else none
  | _, _ => none

/-- What begins after an opening parenthesis. -/
inductive Opening
  /-- A group read in a mode, whether it keeps what it matches, and the names of groups so far. -/
  | group (mode : Mode) (captures : Bool) (names : List (List Char))
  /-- New flags for the rest of the group around. -/
  | flags (mode : Mode)

/-- What stands right after an opening parenthesis. -/
def readOpening? (mode : Mode) (names : List (List Char)) (cs : List Char) :
    Option (Opening × List Char) :=
  let named (cs : List Char) : Option (Opening × List Char) :=
    match readName? cs with
    | some (name, rest) =>
      if names.contains name then none else some (.group mode true (name :: names), rest)
    | none => none
  match mode.skip cs with
  | '?' :: '=' :: _ => none
  | '?' :: '!' :: _ => none
  | '?' :: '<' :: '=' :: _ => none
  | '?' :: '<' :: '!' :: _ => none
  | '?' :: 'P' :: '<' :: cs => named cs
  | '?' :: '<' :: cs => named cs
  | '?' :: cs =>
    match readFlags? mode false false [] cs with
    | some (mode, _, ':' :: rest) => some (.group mode false names, rest)
    | some (mode, count, ')' :: rest) => if count = 0 then none else some (.flags mode, rest)
    | _ => none
  | cs => some (.group mode true names, cs)

/-! ## Patterns -/

/-- The pattern of a character. -/
def ofChar (mode : Mode) (code : Nat) (byte : Bool) : Option Pattern :=
  if byte && !mode.unicode && 0x80 ≤ code then none
  else some (.one (Char.ofNat code).utf8Size 0)

/-- What a reader keeps beside the text: the mode and the names of groups so far. -/
structure Reading where
  mode : Mode := {}
  names : List (List Char) := []
  deriving DecidableEq, Repr

mutual

/-- The choices up to a closing parenthesis or the end. -/
def readChoices? : (fuel : Nat) → Reading → List Char →
    Option (List Pattern × Reading × List Char)
  | 0, _, _ => none
  | fuel + 1, r, cs => do
    let (parts, r, rest) ← readParts? fuel r [] cs
    match rest with
    | '|' :: rest =>
      let (choices, r, rest) ← readChoices? fuel r rest
      some (ofParts parts :: choices, r, rest)
    | rest => some ([ofParts parts], r, rest)

/-- The parts of a sequence, given those already read with the last one first. -/
def readParts? : (fuel : Nat) → Reading → (before : List Pattern) → List Char →
    Option (List Pattern × Reading × List Char)
  | 0, _, _, _ => none
  | fuel + 1, r, before, cs =>
    let repeated (least : Nat) (most : Option Nat) (rest : List Char) :
        Option (List Pattern × Reading × List Char) :=
      match before with
      | p :: ps =>
        if isRepeatable p then readParts? fuel r (.times least most p :: ps) rest else none
      | [] => none
    match r.mode.skip cs with
    | [] => some (before.reverse, r, [])
    | ')' :: rest => some (before.reverse, r, ')' :: rest)
    | '|' :: rest => some (before.reverse, r, '|' :: rest)
    | '?' :: rest => repeated 0 (some 1) (skipLazy rest)
    | '*' :: rest => repeated 0 none (skipLazy rest)
    | '+' :: rest => repeated 1 none (skipLazy rest)
    | '\x7b' :: rest => do
      let (least, most, rest) ← readCounts? r.mode rest
      repeated least most rest
    | '^' :: rest => readParts? fuel r (.look true :: before) rest
    | '$' :: rest => readParts? fuel r (.look true :: before) rest
    | '.' :: rest =>
      if r.mode.unicode then readParts? fuel r (.one Class.negative.states 0 :: before) rest
      else none
    | '[' :: rest => do
      let (c, rest) ← readClass? r.mode (2 * rest.length + 2) rest
      readParts? fuel r (.one c.states c.depth :: before) rest
    | '\\' :: rest => do
      match ← readEscape? r.mode rest with
      | (.char code byte, rest) =>
        let p ← ofChar r.mode code byte
        readParts? fuel r (p :: before) rest
      | (.look holds, rest) => readParts? fuel r (.look holds :: before) rest
    | '(' :: rest => do
      match ← readOpening? r.mode r.names rest with
      | (.flags mode, rest) => readParts? fuel { r with mode } (.flags :: before) rest
      | (.group mode captures names, rest) =>
        let (choices, inner, rest) ← readChoices? fuel ⟨mode, names⟩ rest
        match rest with
        | ')' :: rest =>
          let group := .group captures (ofChoices choices)
          readParts? fuel { r with names := inner.names } (group :: before) rest
        | _ => none
    | c :: rest => do
      let p ← ofChar r.mode c.toNat false
      readParts? fuel r (p :: before) rest

end

/-- The pattern that a text writes, if it is well formed and within the limits. -/
def read? (cs : List Char) : Option Pattern :=
  match readChoices? (2 * cs.length + 4) {} cs with
  | some (choices, _, []) =>
    let p := ofChoices choices
    if p.withinLimits then some p else none
  | _ => none

/-! ## Patterns of matchers -/

/-- Reads on after a brace that may open a repetition: the text up to the character that decides, and
whether it is a repetition. `digits` and `comma` say what was seen since the brace. -/
def readBraces : (digits comma : Bool) → List Char → List Char × Bool × List Char
  | _, _, [] => ([], false, [])
  | digits, comma, c :: cs =>
    if c.isDigit then
      let (taken, isCount, rest) := readBraces true comma cs
      (c :: taken, isCount, rest)
    else if c = ',' ∧ digits ∧ !comma then
      let (taken, isCount, rest) := readBraces digits true cs
      (c :: taken, isCount, rest)
    else ([c], c == '\x7d' && digits, cs)

/-- A text with a backslash before each brace that opens no repetition; `fuel` bounds its length. -/
def escapeBraces : (fuel : Nat) → List Char → List Char
  | 0, _ => []
  | _ + 1, [] => []
  | _ + 1, ['\\'] => []
  | fuel + 1, '\\' :: c :: cs => '\\' :: c :: escapeBraces fuel cs
  | fuel + 1, '\x7b' :: cs =>
    let (taken, isCount, rest) := readBraces false false cs
    (if isCount then ['\x7b'] else ['\\', '\x7b']) ++ taken ++ escapeBraces fuel rest
  | fuel + 1, c :: cs => c :: escapeBraces fuel cs

/-- The pattern of a matcher: its value between the two anchors. Where that is malformed, the braces
that open no repetition are taken for plain characters. -/
def ofValue? (value : String) : Option Pattern :=
  let text := '^' :: value.toList ++ ['$']
  (read? text).or (read? (escapeBraces (text.length + 1) text))

end PanelLint.Promql.Pattern
