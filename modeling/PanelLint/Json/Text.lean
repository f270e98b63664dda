import PanelLint.Json.SyntaxError
import PanelLint.Number.Read
/-!
# The strings of a JSON text

A string runs to its closing quote. No control character stands in it, and a backslash begins an
escape: a letter or a punctuation mark for a character of its own, or `u` and four hexadecimal digits
for a code unit of UTF-16. Two units that make a surrogate pair give one character; a surrogate
without its partner is an error.
-/

namespace PanelLint.Json

open PanelLint.Number

/-- The escapes by one character, and what they stand for. -/
def escapes : List (Char × Char) :=
  [('"', '"'), ('\\', '\\'), ('/', '/'), ('b', '\x08'), ('f', '\x0c'), ('n', '\n'), ('r', '\r'),
    ('t', '\t')]

/-- A code unit from four hexadecimal digits. -/
def readUnit (cs : List Char) : Except Fault (Nat × List Char) :=
  let ds := cs.take 4
  if ds.length = 4 ∧ ds.all isHexDigit then .ok (ofDigits 16 ds, cs.drop 4)
  else if byteCount cs < 4 then .error (.before .unfinishedString [])
  else .error ⟨.badEscape, byteCount cs - 4⟩

/-- Whether a code unit is the first half of a pair. -/
def isHighSurrogate (unit : Nat) : Bool := 0xD800 ≤ unit && unit < 0xDC00

/-- Whether a code unit is the second half of a pair. -/
def isLowSurrogate (unit : Nat) : Bool := 0xDC00 ≤ unit && unit < 0xE000

/-- The second half of a pair, whose first half is `high`. -/
def readPair (high : Nat) (cs : List Char) : Except Fault (Char × List Char) :=
  match cs with
  | '\\' :: 'u' :: rest => do
    let (low, rest) ← readUnit rest
    if isLowSurrogate low then
      .ok (Char.ofNat (0x10000 + (high - 0xD800) * 0x400 + (low - 0xDC00)), rest)
    else .error (.before .loneSurrogate rest)
  | ['\\'] => .error (.before .unfinishedString [])
  | '\\' :: rest => .error (.after .unfinishedPair rest)
  | [] => .error (.before .unfinishedString [])
  | cs => .error (.after .unfinishedPair cs)

/-- What follows a backslash. -/
def readEscape : List Char → Except Fault (Char × List Char)
  | [] => .error (.before .unfinishedString [])
  | c :: cs =>
    if c = 'u' then do
      let (unit, rest) ← readUnit cs
      if isLowSurrogate unit then .error (.before .loneSurrogate rest)
      else if isHighSurrogate unit then readPair unit rest
      else .ok (Char.ofNat unit, rest)
    else
      match escapes.lookup c with
      | some e => .ok (e, cs)
      | none => .error (.after .badEscape (c :: cs))

/-- The characters up to the closing quote; `fuel` bounds their number. -/
def readCharacters : (fuel : Nat) → List Char → Except Fault (List Char × List Char)
  | 0, _ => .error (.before .unfinishedString [])
  | _ + 1, [] => .error (.before .unfinishedString [])
  | fuel + 1, c :: cs =>
    if c = '"' then .ok ([], cs)
    else if c = '\\' then do
      let (e, rest) ← readEscape cs
      let (text, rest) ← readCharacters fuel rest
      .ok (e :: text, rest)
    else if c.toNat < 0x20 then .error (.after .controlCharacter (c :: cs))
    else do
      let (text, rest) ← readCharacters fuel cs
      .ok (c :: text, rest)

/-- A string after its opening quote; `fuel` bounds its length. -/
def readText (fuel : Nat) (cs : List Char) : Except Fault (String × List Char) :=
  (readCharacters fuel cs).map fun (text, rest) => (String.ofList text, rest)

end PanelLint.Json
