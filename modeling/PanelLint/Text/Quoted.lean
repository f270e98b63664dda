import PanelLint.Text.Printable
/-!
# Quoted texts in messages

Messages show a character or a string between quotes. What could not be told apart on a terminal is
escaped: the quote itself, the backslash, the usual controls by a letter, and every other character
that is not printable by its code point in hexadecimal.
-/

namespace PanelLint.Text

/-- The lower-case hexadecimal digits of a number, the most significant first. -/
def hexDigits (n : Nat) : List Char := Nat.toDigits 16 n

/-- One character between quotes of the kind `quote`. -/
def escaped (quote c : Char) : List Char :=
  if c = '\x00' then ['\\', '0']
  else if c = '\t' then ['\\', 't']
  else if c = '\r' then ['\\', 'r']
  else if c = '\n' then ['\\', 'n']
  else if c = quote ∨ c = '\\' then ['\\', c]
  else if isPrintable c then [c]
  else ['\\', 'u', '\x7b'] ++ hexDigits c.toNat ++ ['\x7d']

/-- A character in single quotes. -/
def quotedChar (c : Char) : String := String.ofList ('\'' :: escaped '\'' c ++ ['\''])

/-- A text in double quotes. -/
def quotedString (s : String) : String :=
  String.ofList ('"' :: s.toList.flatMap (escaped '"') ++ ['"'])

end PanelLint.Text
