import PanelLint.Number.Shortest
import PanelLint.Promql.Expr
import PanelLint.Promql.Function
import PanelLint.Promql.Grammar
import PanelLint.Promql.Pattern.Reader
/-!
# The checks of a query

`Phrase.check` turns a phrase into an expression or says what is wrong with it first. The parts of a
phrase are checked before the phrase, from left to right; forms that are wrong whatever their parts
are, such as a comma too many, are reported before those.
-/

namespace PanelLint.Promql

open PanelLint.Number

/-! ## Errors -/

/-- Why a phrase is no query. -/
inductive CheckError
  | quantity (error : QuantityError)
  | badPattern (value : String)
  | twoOperators (second : MatchOperator)
  | bareValue (value : String)
  | nameOnly (name : String)
  | strayComma
  | badLabel (label : String)
  | strayGroup (left : Bool)
  | extraComma
  | noRange
  | noOffset
  | noTime
  | unknownFunction (name : String)
  | nameTwice (name value : String)
  | emptyMatchers
  | offsetInRange
  | timeInRange
  | notSelector
  | misplacedOffset
  | secondOffset
  | misplacedTime
  | secondTime
  | timeOutOfBounds (time : Binary64)
  | unaryOf (type : ValueType) (colon : Bool)
  | subqueryOf (type : ValueType)
  | noArguments (op : Aggregation)
  | aggregateCount (expected got : Nat)
  | aggregateType (expected got : ValueType)
  | boolOutsideComparison
  | scalarComparison
  | labelOnBothSides (label : String)
  | setOfScalar (op : Operator)
  | setWithGroup (op : Operator)
  | operandType
  | matchingOfScalar
  | tooFewArguments (expected : Nat) (name : String) (got : Nat)
  | tooManyArguments (expected : Nat) (name : String) (got : Nat)
  | wrongArguments (expected : Nat) (name : String) (got : Nat)
  | argumentType (expected : ValueType) (name : String) (got : ValueType)
  deriving DecidableEq, Repr

/-- A text in single quotes. -/
def inQuotes (s : String) : String := "'" ++ s ++ "'"

/-- The message of a wrong number of arguments; `bound` is empty or says which way. -/
def argumentCount (bound : String) (expected : Nat) (name : String) (got : Nat) : String :=
  "expected " ++ bound ++ toString expected ++ " argument(s) in call to " ++ inQuotes name ++
    ", got " ++ toString got

/-- The text of an error of a check. -/
def CheckError.message : CheckError → String
  | .quantity e => e.message
  | .badPattern value => "illegal regex for " ++ value
  | .twoOperators second =>
    "unexpected " ++ inQuotes second.text ++ " in label matching, expected string"
  | .bareValue value =>
    "unexpected identifier " ++ inQuotes value ++ " in label matching, expected string"
  | .nameOnly name =>
    "invalid label matcher, expected label matching operator after " ++ inQuotes name
  | .strayComma => "unexpected ',' in label matching, expected identifier or right_brace"
  | .badLabel label => label ++ " is not valid label in grouping opts"
  | .strayGroup left => if left then "unexpected <group_left>" else "unexpected <group_right>"
  | .extraComma => "trailing commas not allowed in function call args"
  | .noRange => "missing unit character in duration"
  | .noOffset => "unexpected end of input in offset, expected duration"
  | .noTime => "unexpected end of input in @, expected timestamp"
  | .unknownFunction name => "unknown function with name " ++ inQuotes name
  | .nameTwice name value =>
    "metric name must not be set twice: " ++ inQuotes name ++ " or " ++ inQuotes value
  | .emptyMatchers => "vector selector must contain at least one non-empty matcher"
  | .offsetInRange => "no offset modifiers allowed before range"
  | .timeInRange => "no @ modifiers allowed before range"
  | .notSelector => "ranges only allowed for vector selectors"
  | .misplacedOffset =>
    "offset modifier must be preceded by an vector selector or matrix selector or a subquery"
  | .secondOffset => "offset may not be set multiple times"
  | .misplacedTime =>
    "@ modifier must be preceded by an vector selector or matrix selector or a subquery"
  | .secondTime => "@ <timestamp> may not be set multiple times"
  | .timeOutOfBounds time => "timestamp out of bounds for @ modifier: " ++ time.positional
  | .unaryOf type colon =>
    "unary expression only allowed on expressions of type scalar or vector, got" ++
      (if colon then ": " else " ") ++ type.text
  | .subqueryOf type => "subquery is only allowed on vector, got " ++ type.text ++ " instead"
  | .noArguments op =>
    "no arguments for aggregate expression " ++ inQuotes op.text ++ " provided"
  | .aggregateCount expected got =>
    "wrong number of arguments for aggregate expression provided, expected " ++
      toString expected ++ ", got " ++ toString got
  | .aggregateType expected got =>
    "expected type " ++ expected.text ++ " in aggregation expression, got " ++ got.text
  | .boolOutsideComparison => "bool modifier can only be used on comparison operators"
  | .scalarComparison => "comparisons between scalars must use BOOL modifier"
  | .labelOnBothSides label =>
    "label " ++ inQuotes label ++ " must not occur in ON and GROUP clause at once"
  | .setOfScalar op =>
    "set operator " ++ inQuotes op.text ++ " not allowed in binary scalar expression"
  | .setWithGroup op => "no grouping allowed for " ++ inQuotes op.text ++ " operation"
  | .operandType => "binary expression must contain only scalar and instant vector types"
  | .matchingOfScalar => "vector matching only allowed between vectors"
  | .tooFewArguments expected name got => argumentCount "at least " expected name got
  | .tooManyArguments expected name got => argumentCount "at most " expected name got
  | .wrongArguments expected name got => argumentCount "" expected name got
  | .argumentType expected name got =>
    "expected type " ++ expected.text ++ " in call to function " ++ inQuotes name ++ ", got " ++
      got.text

/-- Refuses with an error when a condition holds. -/
def refuseIf (condition : Bool) (error : CheckError) : Except CheckError Unit :=
  if condition then .error error else .ok ()

/-! ## Quantities -/

/-- The seconds of a span that stands for a number. -/
def Span.value : Span → Except CheckError Binary64
  | .units text =>
    match readDuration text with
    | .ok ms => .ok (Binary64.round false ms 1000)
    | .error e => .error (.quantity e)
  | .seconds text =>
    match readNumber text with
    | .ok x => .ok x
    | .error e => .error (.quantity e)

/-- The length of time of a span. -/
def Span.length : Span → Except CheckError Length
  | .units text =>
    match readDuration text with
    | .ok ms => .ok (.milliseconds ms)
    | .error e => .error (.quantity e)
  | .seconds text =>
    match readNumber text with
    | .ok x => .ok (.seconds x)
    | .error e => .error (.quantity e)

/-- A fixed time has to be finite and no extreme number. -/
def TimePhrase.check : TimePhrase → Except CheckError Instant
  | .edge start => .ok (.edge start)
  | .fixed negative number => do
    let x ← number.value
    let x := if negative then x.neg else x
    refuseIf (!x.isFinite || x.isExtreme) (.timeOutOfBounds x)
    .ok (.fixed x)

/-! ## Matchers and labels -/

/-- A matcher has a value, and its pattern is well formed. -/
def MatcherPhrase.check : MatcherPhrase → Except CheckError Matcher
  | .complete label op value =>
    if (op = .regex ∨ op = .notRegex) ∧ (Pattern.ofValue? value).isNone then
      .error (.badPattern value)
    else .ok ⟨label, op, value⟩
  | .twoOperators second => .error (.twoOperators second)
  | .bareValue value => .error (.bareValue value)
  | .nameOnly name => .error (.nameOnly name)

/-- The groups of matchers with one more: in the last group, or in a group of its own after `or`. -/
def addMatcher (groups : List (List Matcher)) (apart : Bool) (m : Matcher) :
    List (List Matcher) :=
  if apart then groups ++ [[m]]
  else match groups.getLast? with
    | some last => groups.dropLast ++ [last ++ [m]]
    | none => [[m]]

/-- The matchers between braces, in their groups. -/
def MatchersPhrase.check : MatchersPhrase → Except CheckError (List (List Matcher))
  | .empty => .ok []
  | .comma => .error .strayComma
  | .list first rest => do
    let m ← first.check
    rest.foldlM (fun groups (apart, p) => (p.check).map (addMatcher groups apart)) [[m]]

/-- Whether a matcher accepts a label with an empty value. -/
def Matcher.matchesEmpty (m : Matcher) : Bool :=
  let pattern := ((Pattern.ofValue? m.value).map Pattern.matchesEmpty).getD false
  match m.op with
  | .equal => m.value.isEmpty
  | .notEqual => !m.value.isEmpty
  | .regex => pattern
  | .notRegex => !pattern

/-- The labels of a grouping or matching hold no colon. -/
def checkLabels (labels : List String) : Except CheckError (List String) :=
  match labels.find? fun l => l.toList.contains ':' with
  | some l => .error (.badLabel l)
  | none => .ok labels

/-- A grouping with checked labels. -/
def GroupingPhrase.check (g : GroupingPhrase) : Except CheckError Grouping :=
  (checkLabels g.labels).map fun labels => ⟨g.keeps, labels⟩

/-- A selection has one name at most, and something that an empty series does not meet. -/
def checkSelection (name : Option String) (groups : List (List Matcher)) :
    Except CheckError Selection := do
  let matchers := groups.flatten
  match name with
  | some n =>
    match matchers.find? (·.label == "__name__") with
    | some m => .error (.nameTwice n m.value)
    | none => .ok ⟨name, groups⟩
  | none =>
    refuseIf (matchers.all Matcher.matchesEmpty) .emptyMatchers
    .ok ⟨name, groups⟩

/-- The modifier of a binary operator. -/
def ModifierPhrase.check : ModifierPhrase → Except CheckError Modifier
  | .plain bool => .ok { bool }
  | .strayGroup left => .error (.strayGroup left)
  | .matching bool on labels group => do
    let labels ← checkLabels labels
    match group with
    | none => .ok { bool, matching := some ⟨on, labels⟩ }
    | some (left, extra) =>
      let extra ← checkLabels extra
      .ok { bool, matching := some ⟨on, labels⟩,
            cardinality := if left then .manyToOne extra else .oneToMany extra }

/-! ## Modifiers of operands -/

/-- A range in square brackets belongs to a bare vector selector. -/
def checkRange (e : Expr) (range : Length) : Except CheckError Expr :=
  match e with
  | .vector _ (some _) _ => .error .offsetInRange
  | .vector _ _ (some _) => .error .timeInRange
  | .vector s none none => .ok (.matrix s none none range)
  | _ => .error .notSelector

/-- A shift belongs to a selector or a subquery without one. -/
def checkOffset (e : Expr) (offset : Offset) : Except CheckError Expr :=
  match e with
  | .vector s none t => .ok (.vector s (some offset) t)
  | .matrix s none t r => .ok (.matrix s (some offset) t r)
  | .subquery i none t r st => .ok (.subquery i (some offset) t r st)
  | .vector .. => .error .secondOffset
  | .matrix .. => .error .secondOffset
  | .subquery .. => .error .secondOffset
  | _ => .error .misplacedOffset

/-- A fixed time belongs to a selector or a subquery without one. -/
def checkTime (e : Expr) (time : Instant) : Except CheckError Expr :=
  match e with
  | .vector s o none => .ok (.vector s o (some time))
  | .matrix s o none r => .ok (.matrix s o (some time) r)
  | .subquery i o none r st => .ok (.subquery i o (some time) r st)
  | .vector .. => .error .secondTime
  | .matrix .. => .error .secondTime
  | .subquery .. => .error .secondTime
  | _ => .error .misplacedTime

/-- A minus belongs to a scalar or a vector; a number takes it in. -/
def checkMinus (e : Expr) : Except CheckError Expr :=
  match e with
  | .number x => .ok (.number x.neg)
  | .string _ => .error (.unaryOf .string true)
  | .matrix .. => .error (.unaryOf .matrix true)
  | e =>
    if e.type = .scalar ∨ e.type = .vector then .ok (.neg e)
    else .error (.unaryOf e.type false)

/-! ## Binary operators -/

/-- The first label that stands both in `on` and in the group. -/
def sharedLabel? (m : Modifier) : Option String :=
  let group := match m.cardinality with
    | .manyToOne labels => labels
    | .oneToMany labels => labels
    | _ => []
  match m.matching with
  | some ⟨true, labels⟩ => labels.find? group.contains
  | _ => none

/-- Whether the modifier names labels to match on. -/
def Modifier.namesLabels (m : Modifier) : Bool :=
  match m.matching with
  | some matching => !matching.labels.isEmpty
  | none => false

/-- Whether the modifier groups one side. -/
def Modifier.groups (m : Modifier) : Bool :=
  match m.cardinality with
  | .manyToOne _ => true
  | .oneToMany _ => true
  | _ => false

/-- The modifier that a set operator gets: it matches many series to many. -/
def Modifier.ofSet (m : Modifier) : Modifier :=
  if m.cardinality = .oneToOne then { m with cardinality := .manyToMany } else m

/-- Whether a type is that of an operand of a binary operator. -/
def ValueType.isOperand (t : ValueType) : Bool := t == .scalar || t == .vector

/-- A binary operator with operands and a modifier that suit it. -/
def checkBinary (op : Operator) (m : Modifier) (l r : Expr) : Except CheckError Expr := do
  let scalars := l.type == .scalar && r.type == .scalar
  let vectors := l.type == .vector && r.type == .vector
  refuseIf (m.bool && !op.isComparison) .boolOutsideComparison
  refuseIf (op.isComparison && scalars && !m.bool) .scalarComparison
  match sharedLabel? m with
  | some label => .error (.labelOnBothSides label)
  | none =>
    refuseIf (op.isSet && (l.type == .scalar || r.type == .scalar)) (.setOfScalar op)
    refuseIf (op.isSet && vectors && m.groups) (.setWithGroup op)
    refuseIf (!l.type.isOperand || !r.type.isOperand) .operandType
    refuseIf (!vectors && m.namesLabels) .matchingOfScalar
    .ok (.binary op (if op.isSet then m.ofSet else m) l r)

/-! ## Calls and aggregations -/

/-- Whether a number is so far out of the domain of a function that the call is accepted as it
is. -/
def outOfDomain (name : String) (args : List Expr) : Bool :=
  match args with
  | .number x :: _ =>
    if name = "exp" then !x.isFinite
    else if name = "ln" ∨ name = "log2" ∨ name = "log10" then !x.isFinite || x.nonPositive
    else false
  | _ => false

/-- The arguments of a call have the types of the parameters; `i` is the index of the first one. -/
def checkArguments (f : Function) : (i : Nat) → List Expr → Except CheckError Unit
  | _, [] => .ok ()
  | i, e :: es =>
    match f.paramAt? i with
    | some t =>
      if e.type = t then checkArguments f (i + 1) es
      else .error (.argumentType t f.name e.type)
    | none => checkArguments f (i + 1) es

/-- The number of the arguments of a call. -/
def checkCount (f : Function) (got : Nat) : Except CheckError Unit :=
  let count := f.params.length
  if f.optional then
    if got < count - 1 then .error (.tooFewArguments (count - 1) f.name got)
    else refuseIf (!f.repeats && count < got) (.tooManyArguments count f.name got)
  else refuseIf (got != count) (.wrongArguments count f.name got)

/-- A call with the right arguments. -/
def checkCall (f : Function) (args : List Expr) : Except CheckError Expr := do
  checkCount f args.length
  if outOfDomain f.name args then .ok (.call f.name f.result args)
  else do
    checkArguments f 0 args
    .ok (.call f.name f.result args)

/-- An expression of an aggregation has the type that is due there. -/
def checkAggregateType (expected : ValueType) (e : Expr) : Except CheckError Unit :=
  refuseIf (e.type != expected) (.aggregateType expected e.type)

/-- An aggregation with the right arguments: the vector last, and a parameter before it if there is
one. -/
def checkAggregate (op : Aggregation) (grouping : Option Grouping) (args : List Expr) :
    Except CheckError Expr := do
  refuseIf args.isEmpty (.noArguments op)
  match op.parameter?, args with
  | none, [e] =>
    checkAggregateType .vector e
    .ok (.aggregate op grouping none e)
  | some t, [p, e] =>
    checkAggregateType .vector e
    checkAggregateType t p
    .ok (.aggregate op grouping (some p) e)
  | none, _ => .error (.aggregateCount 1 args.length)
  | some _, _ => .error (.aggregateCount 2 args.length)

/-! ## Phrases -/

/-- The grouping of an aggregation, if it has one. -/
def checkGrouping : Option GroupingPhrase → Except CheckError (Option Grouping)
  | none => .ok none
  | some g => g.check.map some

mutual

/-- The expression that a phrase stands for. -/
def Phrase.check : Phrase → Except CheckError Expr
  | .number span => (span.value).map .number
  | .string text => .ok (.string text)
  | .vector name none => do
    let s ← checkSelection name []
    .ok (.vector s none none)
  | .vector name (some matchers) => do
    let groups ← matchers.check
    let s ← checkSelection name groups
    .ok (.vector s none none)
  | .paren e => (e.check).map .paren
  | .plus e => e.check
  | .minus e => do
    let e ← e.check
    checkMinus e
  | .binary op modifier l r => do
    let l ← l.check
    let m ← modifier.check
    let r ← r.check
    checkBinary op m l r
  | .call name args extraComma => do
    match Function.find? name with
    | none => .error (.unknownFunction name)
    | some f =>
      refuseIf extraComma .extraComma
      let args ← Phrase.checkAll args
      checkCall f args
  | .aggregate op grouping args extraComma => do
    let grouping ← checkGrouping grouping
    refuseIf extraComma .extraComma
    let args ← Phrase.checkAll args
    checkAggregate op grouping args
  | .range e span => do
    let e ← e.check
    let range ← span.length
    checkRange e range
  | .noRange _ => .error .noRange
  | .subquery e span step => do
    let e ← e.check
    let range ← span.length
    let step ← match step with
      | none => .ok none
      | some s => (s.length).map some
    refuseIf (e.type != .vector) (.subqueryOf e.type)
    .ok (.subquery e none none range step)
  | .offset e negative span => do
    let e ← e.check
    let length ← span.length
    checkOffset e ⟨negative, length⟩
  | .noOffset _ => .error .noOffset
  | .atTime e time => do
    let e ← e.check
    let time ← time.check
    checkTime e time
  | .noTime _ => .error .noTime

/-- The expressions of several phrases, from left to right. -/
def Phrase.checkAll : List Phrase → Except CheckError (List Expr)
  | [] => .ok []
  | p :: ps => do
    let e ← p.check
    let es ← Phrase.checkAll ps
    .ok (e :: es)

end

end PanelLint.Promql
