/-!
# Integers of fixed width

Integers are kept exact throughout. Where a format only admits those of so many bits, it says so by
one of the two tests here.
-/

namespace PanelLint.Number

/-- Whether a natural number fits so many bits. -/
def isUnsigned (bits n : Nat) : Bool := n < Nat.pow 2 bits

/-- Whether an integer fits so many bits, of which one is for the sign. -/
def isSigned (bits : Nat) (n : Int) : Bool :=
  -(Nat.pow 2 (bits - 1) : Int) ≤ n && n < (Nat.pow 2 (bits - 1) : Int)

theorem isUnsigned_iff (bits n : Nat) : isUnsigned bits n = true ↔ n < Nat.pow 2 bits :=
  decide_eq_true_iff

theorem isSigned_iff (bits : Nat) (n : Int) :
    isSigned bits n = true ↔
      -(Nat.pow 2 (bits - 1) : Int) ≤ n ∧ n < (Nat.pow 2 (bits - 1) : Int) := by
  rw [isSigned, Bool.and_eq_true, decide_eq_true_iff, decide_eq_true_iff]

end PanelLint.Number
