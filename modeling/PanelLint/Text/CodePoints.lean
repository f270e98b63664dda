/-!
# Sets of code points

A property of characters that a standard fixes by a table is written here as a list of inclusive
ranges of code points. `CodePoints.has` is membership; it is all that the table modules share.
-/

namespace PanelLint.Text

/-- A set of code points, as inclusive ranges. -/
abbrev CodePoints := List (Nat × Nat)

/-- Whether a character lies in one of the ranges. -/
def CodePoints.has (ranges : CodePoints) (c : Char) : Bool :=
  ranges.any fun r => decide (r.1 ≤ c.toNat) && decide (c.toNat ≤ r.2)

theorem CodePoints.has_iff (ranges : CodePoints) (c : Char) :
    CodePoints.has ranges c = true ↔ ∃ r ∈ ranges, r.1 ≤ c.toNat ∧ c.toNat ≤ r.2 := by
  simp [CodePoints.has, List.any_eq_true]

end PanelLint.Text
