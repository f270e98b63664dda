/-!
# Where a text is no JSON

A reader stops at a `Fault`: its cause, and how many bytes of the text lie beyond the place. Counting
from the end lets every reader work on what is left of the text alone. `Fault.locate` turns it into a
`SyntaxError` with a line and a column, which are counted from the start; columns count bytes.
-/

namespace PanelLint.Json

/-- Why a text is no JSON. -/
inductive Cause
  | unfinishedList
  | unfinishedObject
  | unfinishedString
  | unfinishedValue
  | expectedColon
  | expectedListEnd
  | expectedObjectEnd
  | expectedWord
  | expectedValue
  | badEscape
  | badNumber
  | numberOutOfRange
  | controlCharacter
  | keyNotString
  | loneSurrogate
  | trailingComma
  | trailingCharacters
  | unfinishedPair
  | tooDeep
  deriving DecidableEq, Repr

/-- The text of a cause. -/
def Cause.text : Cause → String
  | .unfinishedList => "EOF while parsing a list"
  | .unfinishedObject => "EOF while parsing an object"
  | .unfinishedString => "EOF while parsing a string"
  | .unfinishedValue => "EOF while parsing a value"
  | .expectedColon => "expected \x60:\x60"
  | .expectedListEnd => "expected \x60,\x60 or \x60]\x60"
  | .expectedObjectEnd => "expected \x60,\x60 or \x60\x7d\x60"
  | .expectedWord => "expected ident"
  | .expectedValue => "expected value"
  | .badEscape => "invalid escape"
  | .badNumber => "invalid number"
  | .numberOutOfRange => "number out of range"
  | .controlCharacter =>
    "control character (\\u0000-\\u001F) found while parsing a string"
  | .keyNotString => "key must be a string"
  | .loneSurrogate => "lone leading surrogate in hex escape"
  | .trailingComma => "trailing comma"
  | .trailingCharacters => "trailing characters"
  | .unfinishedPair => "unexpected end of hex escape"
  | .tooDeep => "recursion limit exceeded"

/-- A place in a text at which it is no JSON, with `left` bytes beyond it. -/
structure Fault where
  cause : Cause
  left : Nat
  deriving DecidableEq, Repr

/-- The number of bytes of a text. -/
def byteCount (cs : List Char) : Nat := (String.ofList cs).utf8ByteSize

/-- The fault right before `rest`. -/
def Fault.before (cause : Cause) (rest : List Char) : Fault := ⟨cause, byteCount rest⟩

/-- The fault after the first byte of `rest`, or at its end if it is empty. -/
def Fault.after (cause : Cause) (rest : List Char) : Fault := ⟨cause, byteCount rest - 1⟩

/-- A cause with its place: lines count from one, columns from zero before the first byte. -/
structure SyntaxError where
  cause : Cause
  line : Nat
  column : Nat
  deriving DecidableEq, Repr

/-- The text of a syntax error. -/
def SyntaxError.message (e : SyntaxError) : String :=
  e.cause.text ++ " at line " ++ toString e.line ++ " column " ++ toString e.column

/-- The place of a fault in the whole text. -/
def Fault.locate (text : List Char) (fault : Fault) : SyntaxError :=
  let bytes := text.flatMap String.utf8EncodeChar
  let before := bytes.take (bytes.length - fault.left)
  ⟨fault.cause, before.count 0x0A + 1, (before.reverse.takeWhile (· != 0x0A)).length⟩

end PanelLint.Json
