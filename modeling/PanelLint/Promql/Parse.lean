import PanelLint.Promql.Check
import PanelLint.Promql.Lexer
/-!
# Parsing PromQL

`parse` takes a query text through its three stages: its tokens, the phrase they make, and the
checks. An error of an earlier stage, wherever it is in the text, comes before one of a later stage.
-/

namespace PanelLint.Promql

/-- Why a text is not a query. -/
inductive ParseError
  | lexical (error : LexError)
  | grammar
  | noExpression
  | check (error : CheckError)
  deriving DecidableEq, Repr

/-- The text of a parse error. -/
def ParseError.message : ParseError → String
  | .lexical e => e.message
  | .grammar => "invalid promql query"
  | .noExpression => "no expression found in input"
  | .check e => e.message

/-- How reading a text fails: it is not a query, or the reader gives up on a length of time beyond
all bounds, and with it the whole run ends. -/
inductive Failure
  | rejected (error : ParseError)
  | aborted
  deriving DecidableEq, Repr

/-- The query that a text is. -/
def parse (text : List Char) : Except Failure Expr :=
  match Lexer.tokens text with
  | .error e => .error (.rejected (.lexical e))
  | .ok ts =>
    match Phrase.ofTokens ts with
    | .error .badToken => .error (.rejected .grammar)
    | .error .overflow => .error .aborted
    | .ok none => .error (.rejected .noExpression)
    | .ok (some phrase) =>
      match phrase.check with
      | .error e => .error (.rejected (.check e))
      | .ok e => .ok e

end PanelLint.Promql
