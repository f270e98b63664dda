import PanelLint.Promql.Expr
/-!
# Outlines of queries

The outline of a query shows its shape in one line and leaves out its numbers, durations and strings.
-/

namespace PanelLint.Promql

/-- Texts with a separator between them. -/
def joined (separator : String) (texts : List String) : String :=
  String.intercalate separator texts

/-- A word and labels in parentheses, after a space. -/
def withLabels (word : String) (labels : List String) : String :=
  " " ++ word ++ "(" ++ joined "," labels ++ ")"

/-- A selection: its name, or `_`, and its matchers without their values. -/
def Selection.outline (s : Selection) : String :=
  let group (ms : List Matcher) : String := joined "," (ms.map fun m => m.label ++ m.op.text)
  s.name.getD "_" ++
    if s.groups.isEmpty then ""
    else " \x7b" ++ joined " or " (s.groups.map group) ++ "\x7d"

/-- Which modifiers an operand has. -/
def modifiersOutline (offset : Option Offset) (time : Option Instant) : String :=
  (if time.isSome then " @" else "") ++ if offset.isSome then " offset" else ""

/-- A grouping. -/
def Grouping.outline (g : Grouping) : String :=
  withLabels (if g.keeps then "by" else "without") g.labels

/-- The modifier of a binary operator. -/
def Modifier.outline (m : Modifier) : String :=
  let matching := match m.matching with
    | some g => withLabels (if g.on then "on" else "ignoring") g.labels
    | none => ""
  let cardinality := match m.cardinality with
    | .oneToOne => ""
    | .manyToOne labels => withLabels "group_left" labels
    | .oneToMany labels => withLabels "group_right" labels
    | .manyToMany => " many"
  (if m.bool then " bool" else "") ++ matching ++ cardinality

mutual

/-- The outline of a query. -/
def Expr.outline : Expr → String
  | .number _ => "num"
  | .string _ => "str"
  | .vector s offset time => "(vec " ++ s.outline ++ modifiersOutline offset time ++ ")"
  | .matrix s offset time _ => "(mat " ++ s.outline ++ modifiersOutline offset time ++ ")"
  | .subquery e offset time _ step =>
    "(sub " ++ e.outline ++ (if step.isSome then " step" else "") ++
      modifiersOutline offset time ++ ")"
  | .paren e => "(paren " ++ e.outline ++ ")"
  | .neg e => "(neg " ++ e.outline ++ ")"
  | .binary op m l r =>
    "(" ++ op.text ++ m.outline ++ " " ++ l.outline ++ " " ++ r.outline ++ ")"
  | .call name _ args => "(call " ++ name ++ Expr.outlines args ++ ")"
  | .aggregate op grouping none e =>
    "(agg " ++ op.text ++ ((grouping.map Grouping.outline).getD "") ++ " " ++ e.outline ++ ")"
  | .aggregate op grouping (some p) e =>
    "(agg " ++ op.text ++ ((grouping.map Grouping.outline).getD "") ++ " " ++ p.outline ++ " " ++
      e.outline ++ ")"

/-- The outlines of the arguments of a call, each after a space. -/
def Expr.outlines : List Expr → String
  | [] => ""
  | e :: es => " " ++ e.outline ++ Expr.outlines es

end

end PanelLint.Promql
