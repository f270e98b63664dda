import PanelLint.Promql.Duration
import PanelLint.Promql.Phrase
/-!
# The grammar of queries

`Phrase.ofTokens` reads the tokens of a query into a phrase, from left to right and without ever
taking a token back: one token ahead decides what to do. Operators are grouped by their precedence.
A unary sign takes all that binds at least as tightly as `^`, and the modifiers in square brackets,
after `offset` and after `@` belong to the operand right before them.

The reader stops at the first token that no query goes on with. A number of seconds that is too
large for a length of time stops it too, as soon as the token after the number shows that the
length ends there; nothing is known of the query then, so that is no refusal.
-/

namespace PanelLint.Promql

/-- Why the tokens of a query were not read to their end. -/
inductive Stop
  /-- No query goes on like this. -/
  | badToken
  /-- A length of time is beyond all bounds. -/
  | overflow
  deriving DecidableEq, Repr

namespace Phrase

/-! ## Labels, matchers and modifiers -/

/-- The label that a token names, if it can name one. -/
def label? : Token → Option String
  | .identifier name => some name
  | .metric name => some name
  | .keyword _ text => some text
  | _ => none

/-- The labels after the first one. -/
def readLabelsRest : List Token → Except Stop (List String × List Token)
  | .rightParen :: ts => .ok ([], ts)
  | .comma :: .rightParen :: ts => .ok ([], ts)
  | .comma :: t :: ts =>
    match label? t with
    | some l => (readLabelsRest ts).map fun (ls, ts) => (l :: ls, ts)
    | none => .error .badToken
  | _ => .error .badToken

/-- Labels in parentheses. -/
def readLabels : List Token → Except Stop (List String × List Token)
  | .leftParen :: .rightParen :: ts => .ok ([], ts)
  | .leftParen :: t :: ts =>
    match label? t with
    | some l => (readLabelsRest ts).map fun (ls, ts) => (l :: ls, ts)
    | none => .error .badToken
  | _ => .error .badToken

/-- The match operator that a token is. -/
def matchOperator? : Token → Option MatchOperator
  | .equal => some .equal
  | .operator .ne => some .notEqual
  | .regex => some .regex
  | .notRegex => some .notRegex
  | _ => none

/-- What follows two match operators: a value is passed over. -/
def dropValue : List Token → List Token
  | .string _ :: ts => ts
  | .identifier _ :: ts => ts
  | ts => ts

/-- What follows the name and the operator of a matcher. -/
def readMatcherValue (name : String) (op : MatchOperator) :
    List Token → Except Stop (MatcherPhrase × List Token)
  | .string value :: ts => .ok (.complete name op value, ts)
  | .identifier value :: ts => .ok (.bareValue value, ts)
  | t :: ts =>
    match matchOperator? t with
    | some second => .ok (.twoOperators second, dropValue ts)
    | none => .error .badToken
  | [] => .error .badToken

/-- A label matcher. -/
def readMatcher : List Token → Except Stop (MatcherPhrase × List Token)
  | .identifier name :: t :: ts =>
    match matchOperator? t with
    | some op => readMatcherValue name op ts
    | none => .ok (.nameOnly name, t :: ts)
  | _ => .error .badToken

/-- The matchers after the first one; `fuel` bounds their number. -/
def readMatchersRest :
    (fuel : Nat) → List Token → Except Stop (List (Bool × MatcherPhrase) × List Token)
  | 0, _ => .error .badToken
  | _ + 1, .rightBrace :: ts => .ok ([], ts)
  | _ + 1, .comma :: .rightBrace :: ts => .ok ([], ts)
  | fuel + 1, .comma :: ts => do
    let (m, ts) ← readMatcher ts
    let (ms, ts) ← readMatchersRest fuel ts
    .ok ((false, m) :: ms, ts)
  | fuel + 1, .keyword (.operator .or) _ :: ts => do
    let (m, ts) ← readMatcher ts
    let (ms, ts) ← readMatchersRest fuel ts
    .ok ((true, m) :: ms, ts)
  | _ + 1, _ => .error .badToken

/-- What follows an opening brace. -/
def readMatchers : List Token → Except Stop (MatchersPhrase × List Token)
  | .rightBrace :: ts => .ok (.empty, ts)
  | .comma :: .rightBrace :: ts => .ok (.comma, ts)
  | ts => do
    let (m, ts) ← readMatcher ts
    let (ms, ts) ← readMatchersRest ts.length ts
    .ok (.list m ms, ts)

/-- The labels of a group, which may be left out. -/
def readGroupLabels : List Token → Except Stop (List String × List Token)
  | .leftParen :: ts => readLabels (.leftParen :: ts)
  | ts => .ok ([], ts)

/-- `on` or `ignoring` and what goes with them. -/
def readMatching (bool on : Bool) (ts : List Token) :
    Except Stop (ModifierPhrase × List Token) := do
  let (labels, ts) ← readLabels ts
  match ts with
  | .keyword (.groupSide left) _ :: ts =>
    let (group, ts) ← readGroupLabels ts
    .ok (.matching bool on labels (some (left, group)), ts)
  | ts => .ok (.matching bool on labels none, ts)

/-- What stands between a binary operator and its right operand. -/
def readModifier : List Token → Except Stop (ModifierPhrase × List Token)
  | .keyword .bool _ :: .keyword (.matching on) _ :: ts => readMatching true on ts
  | .keyword .bool _ :: ts => .ok (.plain true, ts)
  | .keyword (.matching on) _ :: ts => readMatching false on ts
  | .keyword (.groupSide left) _ :: ts =>
    (readLabels ts).map fun (_, ts) => (.strayGroup left, ts)
  | ts => .ok (.plain false, ts)

/-! ## Lengths of time -/

/-- The binary operator that a token is. -/
def operator? : Token → Option Operator
  | .operator op => some op
  | .keyword (.operator op) _ => some op
  | _ => none

/-- Whether a token can follow a complete expression. -/
def followsExpr : List Token → Bool
  | [] => true
  | .finish :: _ => true
  | .rightParen :: _ => true
  | .comma :: _ => true
  | .leftBracket :: _ => true
  | .atSign :: _ => true
  | .keyword .offset _ :: _ => true
  | t :: _ => (operator? t).isSome

/-- Whether a token can follow a length of time in square brackets. -/
def followsSpan : List Token → Bool
  | .rightBracket :: _ => true
  | .colon :: _ => true
  | _ => false

/-- A length of time, after which only some tokens may follow. -/
def readSpan (follows : List Token → Bool) : List Token → Except Stop (Span × List Token)
  | .duration text :: ts => .ok (.units text, ts)
  | .number text :: ts =>
    if !follows ts then .error .badToken
    else if spanOverflows text then .error .overflow
    else .ok (.seconds text, ts)
  | _ => .error .badToken

/-- A number after `@`. -/
def readInstant (negative : Bool) : List Token → Except Stop (TimePhrase × List Token)
  | .number text :: ts => .ok (.fixed negative (.seconds text), ts)
  | .duration text :: ts => .ok (.fixed negative (.units text), ts)
  | _ => .error .badToken

/-! ## Modifiers after an operand -/

/-- What follows an opening square bracket after `e`. -/
def readBrackets (e : Phrase) : List Token → Except Stop (Phrase × List Token)
  | .rightBracket :: ts => .ok (.noRange e, ts)
  | ts => do
    let (span, ts) ← readSpan followsSpan ts
    match ts with
    | .rightBracket :: ts => .ok (.range e span, ts)
    | .colon :: .rightBracket :: ts => .ok (.subquery e span none, ts)
    | .colon :: ts =>
      let (step, ts) ← readSpan followsSpan ts
      match ts with
      | .rightBracket :: ts => .ok (.subquery e span (some step), ts)
      | _ => .error .badToken
    | _ => .error .badToken

/-- What follows `offset` after `e`. -/
def readOffset (e : Phrase) : List Token → Except Stop (Phrase × List Token)
  | .finish :: ts => .ok (.noOffset e, ts)
  | .operator .add :: ts => (readSpan followsExpr ts).map fun (d, ts) => (.offset e false d, ts)
  | .operator .sub :: ts => (readSpan followsExpr ts).map fun (d, ts) => (.offset e true d, ts)
  | ts => (readSpan followsExpr ts).map fun (d, ts) => (.offset e false d, ts)

/-- What follows `@` after `e`. -/
def readTime (e : Phrase) : List Token → Except Stop (Phrase × List Token)
  | .finish :: ts => .ok (.noTime e, ts)
  | .operator .add :: ts => (readInstant false ts).map fun (t, ts) => (.atTime e t, ts)
  | .operator .sub :: ts => (readInstant true ts).map fun (t, ts) => (.atTime e t, ts)
  | .keyword (.edge start) _ :: .leftParen :: .rightParen :: ts => .ok (.atTime e (.edge start), ts)
  | ts => (readInstant false ts).map fun (t, ts) => (.atTime e t, ts)

/-- The modifiers after an operand `e`; `fuel` bounds their number. -/
def readPostfix : (fuel : Nat) → Phrase → List Token → Except Stop (Phrase × List Token)
  | 0, _, _ => .error .badToken
  | fuel + 1, e, .leftBracket :: ts => do
    let (e, ts) ← readBrackets e ts
    readPostfix fuel e ts
  | fuel + 1, e, .keyword .offset _ :: ts => do
    let (e, ts) ← readOffset e ts
    readPostfix fuel e ts
  | fuel + 1, e, .atSign :: ts => do
    let (e, ts) ← readTime e ts
    readPostfix fuel e ts
  | _ + 1, e, ts => .ok (e, ts)

/-- A vector selector after its name. -/
def readSelector (name : Option String) : List Token → Except Stop (Phrase × List Token)
  | .leftBrace :: ts =>
    (readMatchers ts).map fun (ms, ts) => (.vector name (some ms), ts)
  | ts => .ok (.vector name none, ts)

/-! ## Expressions -/

mutual

/-- An expression whose operators bind at least as tightly as `level`. -/
def readExpr : (fuel : Nat) → (level : Nat) → List Token → Except Stop (Phrase × List Token)
  | 0, _, _ => .error .badToken
  | fuel + 1, level, ts => do
    let (e, ts) ← readOperand fuel ts
    readOperators fuel level e ts

/-- The operators and right operands after a left operand `e`. -/
def readOperators :
    (fuel : Nat) → (level : Nat) → Phrase → List Token → Except Stop (Phrase × List Token)
  | 0, _, _, _ => .error .badToken
  | _ + 1, _, e, [] => .ok (e, [])
  | fuel + 1, level, e, t :: ts =>
    match operator? t with
    | none => .ok (e, t :: ts)
    | some op =>
      if op.precedence < level then .ok (e, t :: ts)
      else do
        let (modifier, ts) ← readModifier ts
        let (right, ts) ← readExpr fuel op.rightPrecedence ts
        readOperators fuel level (.binary op modifier e right) ts

/-- An operand: signs, or a primary expression with its modifiers. -/
def readOperand : (fuel : Nat) → List Token → Except Stop (Phrase × List Token)
  | 0, _ => .error .badToken
  | fuel + 1, .operator .add :: ts => do
    let (e, ts) ← readExpr fuel Operator.pow.precedence ts
    .ok (.plus e, ts)
  | fuel + 1, .operator .sub :: ts => do
    let (e, ts) ← readExpr fuel Operator.pow.precedence ts
    .ok (.minus e, ts)
  | fuel + 1, ts => do
    let (e, ts) ← readPrimary fuel ts
    readPostfix (ts.length + 1) e ts

/-- An expression without operators and modifiers. -/
def readPrimary : (fuel : Nat) → List Token → Except Stop (Phrase × List Token)
  | 0, _ => .error .badToken
  | _ + 1, .number text :: ts => .ok (.number (.seconds text), ts)
  | _ + 1, .duration text :: ts => .ok (.number (.units text), ts)
  | _ + 1, .string text :: ts => .ok (.string text, ts)
  | fuel + 1, .leftParen :: ts => do
    let (e, ts) ← readExpr fuel 0 ts
    match ts with
    | .rightParen :: ts => .ok (.paren e, ts)
    | _ => .error .badToken
  | fuel + 1, .identifier name :: .leftParen :: ts => do
    let ((args, extra), ts) ← readBody fuel (.leftParen :: ts)
    .ok (.call name args extra, ts)
  | _ + 1, .identifier name :: ts => readSelector (some name) ts
  | _ + 1, .metric name :: ts => readSelector (some name) ts
  | _ + 1, .leftBrace :: ts => readSelector none (.leftBrace :: ts)
  | fuel + 1, .keyword (.aggregation op) _ :: .keyword (.grouping keeps) _ :: ts => do
    let (labels, ts) ← readLabels ts
    let ((args, extra), ts) ← readBody fuel ts
    .ok (.aggregate op (some ⟨keeps, labels⟩) args extra, ts)
  | fuel + 1, .keyword (.aggregation op) _ :: .leftParen :: ts => do
    let ((args, extra), ts) ← readBody fuel (.leftParen :: ts)
    match ts with
    | .keyword (.grouping keeps) _ :: ts =>
      let (labels, ts) ← readLabels ts
      .ok (.aggregate op (some ⟨keeps, labels⟩) args extra, ts)
    | ts => .ok (.aggregate op none args extra, ts)
  | _ + 1, .keyword (.aggregation _) text :: ts => readSelector (some text) ts
  | _ + 1, .keyword (.grouping _) text :: ts => readSelector (some text) ts
  | _ + 1, .keyword (.operator op) text :: ts =>
    if op.isSet then readSelector (some text) ts else .error .badToken
  | _ + 1, .keyword .offset text :: ts => readSelector (some text) ts
  | _ + 1, .keyword (.edge _) text :: ts => readSelector (some text) ts
  | _ + 1, _ => .error .badToken

/-- Arguments in parentheses, and whether there is a comma with no argument after it. -/
def readBody : (fuel : Nat) → List Token → Except Stop ((List Phrase × Bool) × List Token)
  | 0, _ => .error .badToken
  | _ + 1, .leftParen :: .rightParen :: ts => .ok (([], false), ts)
  | fuel + 1, .leftParen :: ts => do
    let (e, ts) ← readExpr fuel 0 ts
    let ((es, extra), ts) ← readArgs fuel ts
    .ok ((e :: es, extra), ts)
  | _ + 1, _ => .error .badToken

/-- What follows an argument. -/
def readArgs : (fuel : Nat) → List Token → Except Stop ((List Phrase × Bool) × List Token)
  | 0, _ => .error .badToken
  | _ + 1, .rightParen :: ts => .ok (([], false), ts)
  | fuel + 1, .comma :: .comma :: ts => do
    let ((es, _), ts) ← readArgs fuel (.comma :: ts)
    .ok ((es, true), ts)
  | _ + 1, .comma :: .rightParen :: ts => .ok (([], true), ts)
  | fuel + 1, .comma :: ts => do
    let (e, ts) ← readExpr fuel 0 ts
    let ((es, extra), ts) ← readArgs fuel ts
    .ok ((e :: es, extra), ts)
  | _ + 1, _ => .error .badToken

end

/-- The phrase that the tokens of a query make; `none` for a query without tokens. -/
def ofTokens (ts : List Token) : Except Stop (Option Phrase) :=
  match ts with
  | [.finish] => .ok none
  | ts => do
    let (e, rest) ← readExpr (8 * ts.length + 8) 0 ts
    match rest with
    | [] => .ok (some e)
    | [.finish] => .ok (some e)
    | _ => .error .badToken

end Phrase

end PanelLint.Promql
