import PanelLint.Json.Numeral
import PanelLint.Json.Text
/-!
# Reading JSON

`Json.read` reads one JSON value that makes up the whole of a text, up to white space. Nothing beyond
the standard notation is taken: no comments, no comma at the end of a list, no other white space than
blanks, tabs and line ends. Arrays and objects may be nested to a given depth. An object is read with
all its members, in the order of the text.
-/

namespace PanelLint.Json

/-- Whether a character is white space between the parts of a JSON text. -/
def isSpace (c : Char) : Bool := c == ' ' || c == '\t' || c == '\n' || c == '\r'

/-- What is left after the white space at the front. -/
def skipSpace (cs : List Char) : List Char := cs.dropWhile isSpace

/-- What is left after the letters of a word. -/
def readWord : (word cs : List Char) → Except Fault (List Char)
  | [], cs => .ok cs
  | _ :: _, [] => .error (.before .unfinishedValue [])
  | w :: word, c :: cs =>
    if c = w then readWord word cs else .error (.after .expectedWord (c :: cs))

/-- What stands between two items of a list, up to the next one: `none` when the list ends. -/
def nextItem (first : Bool) (cs : List Char) : Except Fault (Option (List Char)) :=
  match skipSpace cs with
  | [] => .error (.before .unfinishedList [])
  | c :: rest =>
    if c = ']' then .ok none
    else if first then .ok (some (c :: rest))
    else if c = ',' then
      match skipSpace rest with
      | [] => .error (.before .unfinishedValue [])
      | c :: rest =>
        if c = ']' then .error (.after .trailingComma (c :: rest)) else .ok (some (c :: rest))
    else .error (.after .expectedListEnd (c :: rest))

/-- What stands between two members of an object, up to the text of the next key: `none` when the
object ends. -/
def nextMember (first : Bool) (cs : List Char) : Except Fault (Option (List Char)) :=
  match skipSpace cs with
  | [] => .error (.before .unfinishedObject [])
  | c :: rest =>
    if c = '\x7d' then .ok none
    else if first then
      if c = '"' then .ok (some rest) else .error (.after .keyNotString (c :: rest))
    else if c = ',' then
      match skipSpace rest with
      | [] => .error (.before .unfinishedValue [])
      | c :: rest =>
        if c = '"' then .ok (some rest)
        else if c = '\x7d' then .error (.after .trailingComma (c :: rest))
        else .error (.after .keyNotString (c :: rest))
    else .error (.after .expectedObjectEnd (c :: rest))

/-- A key after its opening quote, with the colon behind it; `fuel` bounds its length. -/
def readKey (fuel : Nat) (cs : List Char) : Except Fault (String × List Char) := do
  let (key, rest) ← readText fuel cs
  match skipSpace rest with
  | [] => .error (.before .unfinishedObject [])
  | c :: rest => if c = ':' then .ok (key, rest) else .error (.after .expectedColon (c :: rest))

mutual

/-- A value within `depth` more arrays and objects. `fuel` bounds the calls and the length of a string;
twice the length of the text is enough for both. -/
def readValue : (fuel depth : Nat) → List Char → Except Fault (Value × List Char)
  | 0, _, cs => .error (.after .unfinishedValue cs)
  | fuel + 1, depth, cs =>
    match skipSpace cs with
    | [] => .error (.before .unfinishedValue [])
    | c :: rest =>
      if c = 'n' then (readWord "ull".toList rest).map fun rest => (.null, rest)
      else if c = 't' then (readWord "rue".toList rest).map fun rest => (.bool true, rest)
      else if c = 'f' then (readWord "alse".toList rest).map fun rest => (.bool false, rest)
      else if c = '-' then readNumber true rest
      else if c.isDigit then readNumber false (c :: rest)
      else if c = '"' then (readText fuel rest).map fun (text, rest) => (.string text, rest)
      else if c = '[' then
        if depth = 0 then .error (.after .tooDeep (c :: rest))
        else (readItems fuel (depth - 1) true rest).map fun (vs, rest) => (.array vs, rest)
      else if c = '\x7b' then
        if depth = 0 then .error (.after .tooDeep (c :: rest))
        else (readMembers fuel (depth - 1) true rest).map fun (ms, rest) => (.object ms, rest)
      else .error (.after .expectedValue (c :: rest))

/-- The items of a list up to its end. -/
def readItems : (fuel depth : Nat) → (first : Bool) → List Char →
    Except Fault (List Value × List Char)
  | 0, _, _, cs => .error (.after .unfinishedList cs)
  | fuel + 1, depth, first, cs => do
    match ← nextItem first cs with
    | none => .ok ([], (skipSpace cs).drop 1)
    | some cs =>
      let (v, rest) ← readValue fuel depth cs
      let (vs, rest) ← readItems fuel depth false rest
      .ok (v :: vs, rest)

/-- The members of an object up to its end. -/
def readMembers : (fuel depth : Nat) → (first : Bool) → List Char →
    Except Fault (List (String × Value) × List Char)
  | 0, _, _, cs => .error (.after .unfinishedObject cs)
  | fuel + 1, depth, first, cs => do
    match ← nextMember first cs with
    | none => .ok ([], (skipSpace cs).drop 1)
    | some cs =>
      let (key, rest) ← readKey fuel cs
      let (v, rest) ← readValue fuel depth rest
      let (ms, rest) ← readMembers fuel depth false rest
      .ok ((key, v) :: ms, rest)

end

/-- The depth to which a JSON text may be nested. -/
def maxDepth : Nat := 127

/-- The value of a whole text with at most `depth` nested arrays and objects. -/
def readWithin (depth : Nat) (text : List Char) : Except SyntaxError Value :=
  let value := do
    let (v, rest) ← readValue (2 * text.length + 2) depth text
    match skipSpace rest with
    | [] => .ok v
    | rest => .error (Fault.after .trailingCharacters rest)
  value.mapError (Fault.locate text)

/-- The value of a whole text. -/
def read (text : List Char) : Except SyntaxError Value := readWithin maxDepth text

end PanelLint.Json
