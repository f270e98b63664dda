import PanelLint.Promql.Check
/-!
# What the checks see of a number

A check asks of a number whether it is finite, whether it is the largest one there is, and whether it
is positive; it may also negate it.  `Binary64.coarse` keeps just that of a number.

The seconds of a duration are all the same in this respect: every duration that is read is positive
and far from the largest number (`coarse_seconds`).
-/

namespace PanelLint.Number.Binary64

/-! ## 1. Ordinary numbers -/

/-- A number with only its sign, if it is neither zero nor the largest one nor infinite. -/
def coarse : Binary64 → Binary64
  | .finite negative s e =>
    if s = 0 ∨ (s = 2 * hiddenBit - 1 ∧ e = 971) then .finite negative s e
    else .finite negative 1 0
  | .infinite negative => .infinite negative
  | .nan => .nan

theorem coarse_of_ordinary {negative : Bool} {s : Nat} {e : Int} (hs : s ≠ 0) (he : e ≠ 971) :
    coarse (.finite negative s e) = .finite negative 1 0 := by
  rw [coarse, if_neg]
  rintro (h | ⟨-, h⟩)
  · exact hs h
  · exact he h

theorem coarse_neg (x : Binary64) : coarse x.neg = (coarse x).neg := by
  cases x with
  | finite negative s e =>
    simp only [neg, coarse]
    split <;> rfl
  | _ => rfl

theorem isFinite_coarse (x : Binary64) : (coarse x).isFinite = x.isFinite := by
  cases x with
  | finite negative s e =>
    simp only [coarse]
    split <;> rfl
  | _ => rfl

theorem isExtreme_coarse (x : Binary64) : (coarse x).isExtreme = x.isExtreme := by
  cases x with
  | finite negative s e =>
    simp only [coarse]
    split
    · rfl
    · next h =>
      have hne : ¬ (s = 2 * hiddenBit - 1 ∧ e = 971) := fun heq => h (Or.inr heq)
      rw [isExtreme, isExtreme, Bool.eq_iff_iff]
      simp only [Bool.and_eq_true, beq_iff_eq, hne, iff_false]
      rintro ⟨-, h⟩
      exact absurd h (by decide)
  | _ => rfl

theorem nonPositive_coarse (x : Binary64) : (coarse x).nonPositive = x.nonPositive := by
  cases x with
  | finite negative s e =>
    simp only [coarse]
    split
    · rfl
    · next h =>
      have hs : s ≠ 0 := fun hs => h (Or.inl hs)
      simp [nonPositive, hs]
  | _ => rfl

/-! ## 2. Thousandths -/

theorem le_divEven (num den : Nat) : num / den ≤ divEven num den := by
  unfold divEven
  dsimp only
  split <;> omega

theorem exponentFor_thousand {n : Nat} (hn : n < Nat.pow 2 100) :
    exponentFor n 1000 ≤ (n.log2 : Int) - 61 ∧ exponentFor n 1000 ≤ 39 := by
  have hlog : n.log2 < 100 := by
    by_cases h : n = 0
    · subst h
      decide
    · exact (Nat.log2_lt h).mpr hn
  have hthousand : Nat.log2 1000 = 9 := by decide +kernel
  unfold exponentFor
  rw [hthousand]
  dsimp only
  split <;> omega

/-- At its exponent, a number of thousandths is at least one. -/
theorem den_le_num_scaled {n : Nat} {e : Int} (hn : n ≠ 0) (he : e ≤ (n.log2 : Int) - 61) :
    0 < (scaled n 1000 e).2 ∧ (scaled n 1000 e).2 ≤ (scaled n 1000 e).1 := by
  have hlog : Nat.pow 2 n.log2 ≤ n := Nat.log2_self_le hn
  have hbig : 1000 ≤ Nat.pow 2 61 := by decide
  have hpos : ∀ k, 0 < Nat.pow 2 k := fun k => Nat.pow_pos (by decide)
  unfold scaled
  split
  · refine ⟨Nat.mul_pos (by decide) (hpos _), ?_⟩
    calc 1000 * Nat.pow 2 e.toNat ≤ Nat.pow 2 61 * Nat.pow 2 e.toNat := Nat.mul_le_mul_right _ hbig
      _ = Nat.pow 2 (61 + e.toNat) := (Nat.pow_add 2 61 _).symm
      _ ≤ Nat.pow 2 n.log2 := Nat.pow_le_pow_right (by decide) (by omega)
      _ ≤ n := hlog
  · refine ⟨Nat.zero_lt_succ _, ?_⟩
    calc 1000 ≤ Nat.pow 2 61 := hbig
      _ ≤ Nat.pow 2 (n.log2 + (-e).toNat) := Nat.pow_le_pow_right (by decide) (by omega)
      _ = Nat.pow 2 n.log2 * Nat.pow 2 (-e).toNat := Nat.pow_add 2 _ _
      _ ≤ n * Nat.pow 2 (-e).toNat := Nat.mul_le_mul_right _ hlog

/-- Some thousandths, if they are not too many, round to an ordinary number. -/
theorem coarse_round_thousandths {n : Nat} (hn : n ≠ 0) (hlt : n < Nat.pow 2 100) :
    coarse (round false n 1000) = .finite false 1 0 := by
  obtain ⟨he, hbound⟩ := exponentFor_thousand hlt
  obtain ⟨hpos, hle⟩ := den_le_num_scaled hn he
  rw [round, if_neg hn]
  rcases hs : scaled n 1000 (exponentFor n 1000) with ⟨num, den⟩
  rw [hs] at hle hpos
  have hq : 1 ≤ divEven num den := Nat.le_trans (Nat.div_pos hle hpos) (le_divEven num den)
  dsimp only
  rw [hs]
  dsimp only
  by_cases hcarry : divEven num den = 2 * hiddenBit
  · simp only [if_pos hcarry]
    rw [if_neg (by omega)]
    exact coarse_of_ordinary (by decide) (by omega)
  · simp only [if_neg hcarry]
    rw [if_neg (by omega)]
    exact coarse_of_ordinary (by omega) (by omega)

end PanelLint.Number.Binary64

namespace PanelLint.Promql

open PanelLint.Number

/-! ## 3. The seconds of durations -/

/-- Counts of at most 32 bits, each of them once, make no more than the sum of their units. -/
theorem sumCounts_le {us : List (List Char × Nat)} {counts : List (List Char × List Char)} {n : Nat}
    (h : sumCounts us counts = some n) :
    n ≤ Nat.pow 2 32 * us.foldr (fun u total => u.2 + total) 0 := by
  fun_induction sumCounts us counts generalizing n with
  | case1 =>
    cases h
    exact Nat.zero_le _
  | case2 => cases h
  | case3 => cases h
  | case4 length us digits unit counts k hread ih =>
    obtain ⟨m, hm, rfl⟩ := Option.map_eq_some_iff.mp h
    have hrest := ih hm
    have hcount : (if isUnsigned 32 k then k * length else 0) ≤ Nat.pow 2 32 * length := by
      split
      · next hk => exact Nat.mul_le_mul_right _ (Nat.le_of_lt ((isUnsigned_iff 32 k).mp hk))
      · exact Nat.zero_le _
    rw [List.foldr_cons, Nat.mul_add]
    exact Nat.add_le_add hcount hrest
  | case5 name length us digits unit counts hne ih =>
    rw [List.foldr_cons, Nat.mul_add]
    exact Nat.le_trans (ih h) (Nat.le_add_left _ _)

theorem readDuration_bounds {text : String} {n : Nat} (h : readDuration text = .ok n) :
    n ≠ 0 ∧ n < Nat.pow 2 100 := by
  unfold readDuration at h
  dsimp only at h
  split at h
  · cases h
  · cases h
  · next m hne hm =>
    cases h
    obtain ⟨counts, -, hsum⟩ := Option.bind_eq_some_iff.mp hm
    exact ⟨hne, Nat.lt_of_le_of_lt (sumCounts_le hsum) (by decide)⟩

/-- **All durations look the same to the checks.** -/
theorem coarse_seconds {text : String} {n : Nat} (h : readDuration text = .ok n) :
    Binary64.coarse (Binary64.round false n 1000) = .finite false 1 0 := by
  obtain ⟨hn, hlt⟩ := readDuration_bounds h
  exact Binary64.coarse_round_thousandths hn hlt

end PanelLint.Promql
