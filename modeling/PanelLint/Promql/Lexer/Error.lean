import PanelLint.Text.Quoted
/-!
# Why a text has no tokens

Each character that no token begins with, and each end that comes too early, is an error of its own.
The messages show the character between plain quotes; only the message for a character that begins
nothing at all escapes it.
-/

namespace PanelLint.Promql

open PanelLint.Text

/-- Why a text has no tokens. -/
inductive LexError
  | unclosedParen
  | strayRightParen
  | strayRightBrace
  | strayRightBracket
  | afterEqual (c : Char)
  | afterBang (c : Char)
  | bangAtEnd
  | afterPoint (c : Char)
  | unexpected (c : Char)
  | badNumber (text : String)
  | unknownEscape (c : Char)
  | openEscape
  | openString (quote : Char)
  | afterBangInBraces (c : Char)
  | leftBraceInBraces
  | inBraces (c : Char)
  | openBraces
  | secondColon
  | earlyColon
  | leftBracketInBrackets
  | inBrackets (c : Char)
  | openBrackets
  deriving DecidableEq, Repr

/-- A character between single quotes as it is. -/
def shown (c : Char) : String := String.ofList ['\'', c, '\'']

/-- The text of a lexical error. -/
def LexError.message : LexError → String
  | .unclosedParen => "unclosed left parenthesis"
  | .strayRightParen => "unexpected right parenthesis ')'"
  | .strayRightBrace => "unexpected right brace '\x7d'"
  | .strayRightBracket => "unexpected right bracket ']'"
  | .afterEqual c => "unexpected character after '=': " ++ shown c
  | .afterBang c => "unexpected character after '!': " ++ shown c
  | .bangAtEnd => "'!' can not be at the end"
  | .afterPoint c => "unexpected character after '.': " ++ shown c
  | .unexpected c => "unexpected character: " ++ quotedChar c
  | .badNumber text => "bad number or duration syntax: " ++ text
  | .unknownEscape c => "unknown escape sequence " ++ shown c
  | .openEscape => "escape sequence not terminated"
  | .openString quote => "unterminated quoted string " ++ String.ofList [quote]
  | .afterBangInBraces c => "unexpected character after '!' inside braces: " ++ shown c
  | .leftBraceInBraces => "unexpected left brace '\x7b' inside braces"
  | .inBraces c => "unexpected character inside braces: " ++ shown c
  | .openBraces => "unexpected end of input inside braces"
  | .secondColon => "unexpected second colon(:) in brackets"
  | .earlyColon => "expect duration before first colon(:) in brackets"
  | .leftBracketInBrackets => "unexpected left brace '[' inside brackets"
  | .inBrackets c => "unexpected character inside brackets: " ++ shown c
  | .openBrackets => "unexpected end of input inside brackets"

end PanelLint.Promql
