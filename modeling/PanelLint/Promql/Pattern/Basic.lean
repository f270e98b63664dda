/-!
# Patterns

The regular expressions of label matchers. Of a pattern it matters only whether it is well formed and
whether it matches the empty text, so `Pattern` keeps what takes a character apart from what does
not, and little else.
-/

namespace PanelLint.Promql

/-- A regular expression. -/
inductive Pattern
  | empty
  /-- Something that takes one character, for which a matcher needs `states`; `nesting` is the depth
  of a character class. -/
  | one (states nesting : Nat)
  /-- A test of the place in the text, with its outcome on the empty text. -/
  | look (holds : Bool)
  /-- A change of flags. -/
  | flags
  /-- A group, which may keep what it matches. -/
  | group (captures : Bool) (inner : Pattern)
  /-- At least `least` and at most `most` times; without `most`, any number of times. -/
  | times (least : Nat) (most : Option Nat) (inner : Pattern)
  | sequence (parts : List Pattern)
  | choice (parts : List Pattern)
  deriving Repr, Inhabited

namespace Pattern

mutual

/-- Whether the empty text matches. -/
def matchesEmpty : Pattern → Bool
  | .empty => true
  | .one _ _ => false
  | .look holds => holds
  | .flags => true
  | .group _ p => p.matchesEmpty
  | .times least _ p => least == 0 || p.matchesEmpty
  | .sequence ps => allMatchEmpty ps
  | .choice ps => anyMatchesEmpty ps

/-- Whether the empty text matches every one of some patterns. -/
def allMatchEmpty : List Pattern → Bool
  | [] => true
  | p :: ps => p.matchesEmpty && allMatchEmpty ps

/-- Whether the empty text matches one of some patterns. -/
def anyMatchesEmpty : List Pattern → Bool
  | [] => false
  | p :: ps => p.matchesEmpty || anyMatchesEmpty ps

end

mutual

/-- How deep a pattern is nested. -/
def depth : Pattern → Nat
  | .empty => 0
  | .one _ nesting => nesting
  | .look _ => 0
  | .flags => 0
  | .group _ p => p.depth + 1
  | .times _ _ p => p.depth + 1
  | .sequence ps => depths ps + 1
  | .choice ps => depths ps + 1

/-- The greatest depth of some patterns. -/
def depths : List Pattern → Nat
  | [] => 0
  | p :: ps => max p.depth (depths ps)

end

mutual

/-- How many states a matcher for a pattern needs. Only a group that keeps what it matches has states
of its own; what is repeated is copied as often as it has to match, and what may be left out has a
state for the choice. -/
def size : Pattern → Nat
  | .empty => 1
  | .one states _ => states
  | .look _ => 1
  | .flags => 1
  | .group captures p => p.size + if captures then 2 else 0
  | .times least none p => max 1 least * p.size + 1
  | .times least (some most) p =>
    max 1 (least * p.size) + if least < most then (most - least) * (p.size + 1) + 1 else 0
  | .sequence ps => sizes ps
  | .choice ps => sizes ps + 2

/-- The states for some patterns together. -/
def sizes : List Pattern → Nat
  | [] => 0
  | p :: ps => p.size + sizes ps

end

/-- Whether a pattern is within the limits on its depth and on the states of its matcher. -/
def withinLimits (p : Pattern) : Bool := p.depth ≤ 250 && p.size ≤ 436906

/-- The sequence of some patterns; a single one is itself. -/
def ofParts : List Pattern → Pattern
  | [] => .empty
  | [p] => p
  | ps => .sequence ps

/-- The choice between some patterns; a single one is itself. -/
def ofChoices : List Pattern → Pattern
  | [p] => p
  | ps => .choice ps

end Pattern

end PanelLint.Promql
