import PanelLint.Promql.Duration
import PanelLint.Proofs.Text.Run
/-!
# The durations of PromQL

A duration is a row of counts with their units, each unit at most once and the larger before the
smaller, and not nothing in all.  `IsLength` says so of a text, with no reader in it, and the reader
agrees: it succeeds on these texts (`isLength_iff`) and gives the sum (`readDuration_eq_ok_iff`).
-/

namespace PanelLint.Promql

open PanelLint.Number PanelLint.Text

variable {us : List (List Char × Nat)} {counts : List (List Char × List Char)} {v : List Char}
  {n : Nat}

/-! ## 1. Counts with units -/

/-- The text of counts with their units. -/
def spelled (counts : List (List Char × List Char)) : List Char :=
  counts.flatMap fun c => c.1 ++ c.2

/-- The milliseconds of a count of some units.  A count of more than 32 bits is dropped. -/
def amount (us : List (List Char × Nat)) (c : List Char × List Char) : Nat :=
  (if isUnsigned 32 (ofDigits 10 c.1) then ofDigits 10 c.1 else 0) * (us.lookup c.2).getD 0

/-- The milliseconds of several counts. -/
def total (us : List (List Char × Nat)) (counts : List (List Char × List Char)) : Nat :=
  counts.foldr (fun c sum => amount us c + sum) 0

/-- **Counts with units in descending order**: each count is made of decimal digits, and the units are
some of those there are, in the order in which these are given. -/
structure Descending (us : List (List Char × Nat)) (counts : List (List Char × List Char)) : Prop where
  digits : ∀ c ∈ counts, IsRun Char.isDigit c.1
  units : (counts.map Prod.snd).Sublist (us.map Prod.fst)

/-- **A duration**: the text of counts with units in descending order, not nothing in all. -/
def IsLength (v : List Char) : Prop :=
  ∃ counts, Descending units counts ∧ 0 < total units counts ∧ v = spelled counts

theorem descending_nil (us : List (List Char × Nat)) : Descending us [] := ⟨by simp, by simp⟩

/-- The first unit may be taken up by the first count. -/
theorem descending_cons_cons_iff {length : Nat} {digits unit : List Char} :
    Descending ((unit, length) :: us) ((digits, unit) :: counts) ↔
      IsRun Char.isDigit digits ∧ Descending us counts := by
  constructor
  · rintro ⟨hdigits, hunits⟩
    obtain ⟨hfirst, hrest⟩ := List.forall_mem_cons.mp hdigits
    exact ⟨hfirst, hrest, List.cons_sublist_cons.mp hunits⟩
  · rintro ⟨hfirst, hdigits, hunits⟩
    exact ⟨List.forall_mem_cons.mpr ⟨hfirst, hdigits⟩, List.cons_sublist_cons.mpr hunits⟩

/-- Another first unit is left out. -/
theorem descending_cons_iff_of_ne {name : List Char} {length : Nat} {c : List Char × List Char}
    (h : name ≠ c.2) : Descending ((name, length) :: us) (c :: counts) ↔ Descending us (c :: counts) := by
  constructor
  · rintro ⟨hdigits, hunits⟩
    refine ⟨hdigits, ?_⟩
    cases hunits with
    | cons _ hunits => exact hunits
    | cons_cons _ _ => exact absurd rfl h
  · rintro ⟨hdigits, hunits⟩
    exact ⟨hdigits, hunits.cons _⟩

/-- The units of counts are among those there are. -/
theorem Descending.mem_units (h : Descending us counts) {c : List Char × List Char} (hc : c ∈ counts) :
    c.2 ∈ us.map Prod.fst :=
  h.units.subset (List.mem_map_of_mem hc)

theorem amount_skip {name : List Char} {length : Nat} {c : List Char × List Char}
    (h : c.2 ≠ name) : amount ((name, length) :: us) c = amount us c := by
  rw [amount, amount, List.lookup_cons, beq_false_of_ne h]

/-- Counts that have no use for a unit are worth the same without it. -/
theorem total_skip {name : List Char} {length : Nat} (h : ∀ c ∈ counts, c.2 ≠ name) :
    total ((name, length) :: us) counts = total us counts := by
  induction counts with
  | nil => rfl
  | cons c counts ih =>
    obtain ⟨hc, hcounts⟩ := List.forall_mem_cons.mp h
    rw [total, total, List.foldr_cons, List.foldr_cons, amount_skip hc]
    exact congrArg (amount us c + ·) (ih hcounts)

/-- Among counts of the units behind a unit, that unit does not come. -/
theorem Descending.ne_of_nodup {u : List Char × Nat} (h : Descending us counts)
    (hus : ((u :: us).map Prod.fst).Nodup) : ∀ c ∈ counts, c.2 ≠ u.1 := by
  rintro c hc heq
  exact (List.nodup_cons.mp hus).1 (heq ▸ h.mem_units hc)

/-! ## 2. The sum of counts -/

theorem readNat?_eq_some_iff {digits : List Char} {k : Nat} :
    readNat? digits = some k ↔ IsRun Char.isDigit digits ∧ ofDigits 10 digits = k := by
  rw [readNat?, IsRun]
  by_cases hempty : digits = []
  · simp [hempty]
  · by_cases hall : ∀ d ∈ digits, d.isDigit = true
    · simpa [hempty, List.all_eq_true.mpr hall] using fun _ => hall
    · simp [hempty, hall]

/-- **Counts have a sum just where their units descend.** -/
theorem sumCounts_eq_some_iff (hus : (us.map Prod.fst).Nodup) :
    sumCounts us counts = some n ↔ Descending us counts ∧ total us counts = n := by
  fun_induction sumCounts us counts generalizing n with
  | case1 us => simp [descending_nil, total]
  | case2 c counts =>
    simp only [reduceCtorEq, false_iff, not_and]
    intro horder
    cases horder.mem_units List.mem_cons_self
  | case3 length us digits unit counts hread =>
    simp only [reduceCtorEq, false_iff, not_and]
    intro horder
    have hread' := readNat?_eq_some_iff.mpr ⟨horder.digits _ List.mem_cons_self, rfl⟩
    rw [hread] at hread'
    cases hread'
  | case4 length us digits unit counts k hread ih =>
    obtain ⟨hdigits, rfl⟩ := readNat?_eq_some_iff.mp hread
    have hskip : Descending us counts →
        total ((unit, length) :: us) ((digits, unit) :: counts) =
          amount ((unit, length) :: us) (digits, unit) + total us counts := fun horder =>
      congrArg (amount ((unit, length) :: us) (digits, unit) + ·)
        (total_skip (horder.ne_of_nodup hus))
    have hamount : (if isUnsigned 32 (ofDigits 10 digits) then ofDigits 10 digits * length else 0) =
        amount ((unit, length) :: us) (digits, unit) := by
      rw [amount, List.lookup_cons, beq_self_eq_true]
      split_ifs <;> simp
    rw [hamount, Option.map_eq_some_iff, descending_cons_cons_iff]
    constructor
    · rintro ⟨m, hm, rfl⟩
      obtain ⟨horder, rfl⟩ := (ih (List.nodup_cons.mp hus).2).mp hm
      exact ⟨⟨hdigits, horder⟩, hskip horder⟩
    · rintro ⟨⟨-, horder⟩, rfl⟩
      exact ⟨_, (ih (List.nodup_cons.mp hus).2).mpr ⟨horder, rfl⟩, (hskip horder).symm⟩
  | case5 name length us digits unit counts hne ih =>
    rw [ih (List.nodup_cons.mp hus).2, descending_cons_iff_of_ne hne]
    refine and_congr_right fun horder => ?_
    have hne' : ∀ c ∈ (digits, unit) :: counts, c.2 ≠ name := horder.ne_of_nodup hus
    rw [total_skip hne']

/-! ## 3. The counts of a text -/

/-- Behind a run of a class no run of another class goes on that has nothing of it. -/
theorem endsRun_append {p q : Char → Bool} {run rest : List Char} (h : IsRun p run)
    (hpq : ∀ c, p c = true → q c = false) : EndsRun q (run ++ rest) := by
  obtain ⟨c, run, rfl⟩ := List.exists_cons_of_ne_nil h.1
  exact endsRun_cons _ (hpq c (h.2 c List.mem_cons_self))

theorem spelled_cons (c : List Char × List Char) (counts : List (List Char × List Char)) :
    spelled (c :: counts) = c.1 ++ (c.2 ++ spelled counts) := by
  rw [spelled, List.flatMap_cons, List.append_assoc]
  rfl

/-- The counts in a text of digits and units, one after another. -/
theorem countsOf_spelled {fuel : Nat} (hdigits : ∀ c ∈ counts, IsRun Char.isDigit c.1)
    (hunits : ∀ c ∈ counts, IsRun (!·.isDigit) c.2) (hfuel : (spelled counts).length < fuel) :
    countsOf fuel (spelled counts) = some counts := by
  induction counts generalizing fuel with
  | nil =>
    cases fuel with
    | zero => cases hfuel
    | succ fuel => rfl
  | cons c counts ih =>
    obtain ⟨⟨hne, hfirst⟩, hrest⟩ := List.forall_mem_cons.mp hdigits
    obtain ⟨hunit, hothers⟩ := List.forall_mem_cons.mp hunits
    obtain ⟨digits, unit⟩ := c
    obtain ⟨d, ds, rfl⟩ := List.exists_cons_of_ne_nil hne
    have hbehindDigits : EndsRun Char.isDigit (unit ++ spelled counts) :=
      endsRun_append hunit fun c hc => by simpa using hc
    have hbehindUnit : EndsRun (fun d => !d.isDigit) (spelled counts) := by
      cases counts with
      | nil => exact endsRun_nil
      | cons c counts =>
        rw [spelled_cons]
        exact endsRun_append (hrest c List.mem_cons_self) fun d hd => by simp [hd]
    rw [spelled_cons, List.length_append, List.length_append] at hfuel
    cases fuel with
    | zero => cases hfuel
    | succ fuel =>
      rw [spelled_cons, List.cons_append, countsOf, ← List.cons_append]
      dsimp only
      rw [takeWhile_run hfirst hbehindDigits, dropWhile_run hfirst hbehindDigits,
        takeWhile_run hunit.2 hbehindUnit, dropWhile_run hunit.2 hbehindUnit,
        ih hrest hothers (by simp only [List.length_cons] at hfuel; omega)]
      rfl

/-- Every unit is a run of letters. -/
theorem isRun_of_mem_units {unit : List Char} (h : unit ∈ units.map Prod.fst) :
    IsRun (!·.isDigit) unit := by
  have hall : (units.map Prod.fst).all (fun u => !u.isEmpty && u.all (!·.isDigit)) = true := by
    decide
  have hunit := List.all_eq_true.mp hall unit h
  simp only [Bool.and_eq_true, Bool.not_eq_true', List.isEmpty_eq_false_iff, List.all_eq_true]
    at hunit
  exact ⟨hunit.1, fun c hc => by simp [hunit.2 c hc]⟩

/-- The counts of a duration are its text. -/
theorem spelled_of_countsOf {fuel : Nat} (h : countsOf fuel v = some counts) :
    spelled counts = v := by
  induction fuel generalizing v counts with
  | zero => cases h
  | succ fuel ih =>
    cases v with
    | nil =>
      cases h
      rfl
    | cons c cs =>
      rw [countsOf] at h
      obtain ⟨more, hmore, rfl⟩ := Option.map_eq_some_iff.mp h
      rw [spelled_cons, ih hmore, List.takeWhile_append_dropWhile, List.takeWhile_append_dropWhile]

/-! ## 4. Durations -/

theorem nodup_units : (units.map Prod.fst).Nodup := by decide

/-- **What the reader of durations gives**: the sum of the counts, if their units descend and it is not
nothing. -/
theorem readDuration_eq_ok_iff : readDuration (String.ofList v) = .ok n ↔
    ∃ counts, Descending units counts ∧ v = spelled counts ∧ total units counts = n ∧ n ≠ 0 := by
  unfold readDuration
  rw [String.toList_ofList]
  dsimp only
  constructor
  · intro h
    split at h
    · cases h
    · cases h
    · next m hne hsome =>
      cases h
      obtain ⟨counts, hcounts, hsum⟩ := Option.bind_eq_some_iff.mp hsome
      obtain ⟨horder, htotal⟩ := (sumCounts_eq_some_iff nodup_units).mp hsum
      exact ⟨counts, horder, (spelled_of_countsOf hcounts).symm, htotal, hne⟩
  · rintro ⟨counts, horder, rfl, htotal, hne⟩
    have hcounts : countsOf ((spelled counts).length + 1) (spelled counts) = some counts :=
      countsOf_spelled horder.digits (fun c hc => isRun_of_mem_units (horder.mem_units hc))
        (Nat.lt_succ_self _)
    rw [hcounts, Option.bind_some, (sumCounts_eq_some_iff nodup_units).mpr ⟨horder, htotal⟩]
    split
    · next h => cases h
    · next h => exact absurd (Option.some.inj h) hne
    · next h => rw [Option.some.inj h]

/-- **The durations are the texts that the reader takes.** -/
theorem isLength_iff : IsLength v ↔ ∃ n, readDuration (String.ofList v) = .ok n := by
  constructor
  · rintro ⟨counts, horder, hpos, rfl⟩
    exact ⟨_, readDuration_eq_ok_iff.mpr ⟨counts, horder, rfl, rfl, Nat.ne_of_gt hpos⟩⟩
  · rintro ⟨n, hn⟩
    obtain ⟨counts, horder, rfl, rfl, hne⟩ := readDuration_eq_ok_iff.mp hn
    exact ⟨counts, horder, Nat.pos_of_ne_zero hne, rfl⟩

instance : Decidable (IsLength v) :=
  decidable_of_iff ((readDuration (String.ofList v)).isOk = true) <| by
    rw [isLength_iff]
    cases readDuration (String.ofList v) with
    | error e => simp [Except.isOk, Except.toBool]
    | ok n => simp [Except.isOk, Except.toBool]

end PanelLint.Promql
