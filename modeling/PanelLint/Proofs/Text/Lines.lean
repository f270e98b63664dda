import Mathlib.Data.List.Basic
import PanelLint.Number.Shortest
import PanelLint.Text.Quoted
/-!
# Lines

A line ends at a line break.  `unlines` puts texts under each other, with a line break behind each,
and `lines` takes a text apart.  What was put in is what comes out just when no text has a line break
of its own; and a line break more is a line more, never less.

* `lines_unlines_eq_iff`, `length_lines_unlines_eq_iff`: when texts are the lines of what is made of
  them, and when they are as many;
* `le_length_lines_unlines`: they are never more;
* `oneLine_toString_nat`, `oneLine_quotedChar`, `oneLine_positional`: numbers and quoted characters
  have no line break.
-/

namespace PanelLint.Text

/-! ## 1. Texts without line breaks -/

/-- **A text without line breaks.** -/
def OneLine (s : String) : Prop := '\n' ∉ s.toList

instance (s : String) : Decidable (OneLine s) := inferInstanceAs (Decidable ('\n' ∉ s.toList))

@[simp] theorem oneLine_append {a b : String} : OneLine (a ++ b) ↔ OneLine a ∧ OneLine b := by
  simp [OneLine]

@[simp] theorem oneLine_ofList {cs : List Char} : OneLine (String.ofList cs) ↔ '\n' ∉ cs := by
  simp [OneLine]

/-! ## 2. Lines -/

/-- **The lines of a text.**  What stands behind the last line break is none. -/
def lines (s : String) : List String := ((s.toList.splitOn '\n').dropLast).map String.ofList

/-- Texts under each other, with a line break behind each. -/
def unlines (texts : List String) : String := String.join (texts.map (· ++ "\n"))

theorem unlines_cons (text : String) (texts : List String) :
    unlines (text :: texts) = text ++ "\n" ++ unlines texts := String.join_cons

theorem unlines_append (texts more : List String) :
    unlines (texts ++ more) = unlines texts ++ unlines more := by
  rw [unlines, List.map_append, String.join_append]
  rfl

theorem lines_append_break (a b : String) :
    lines (a ++ "\n" ++ b) = (a.toList.splitOn '\n').map String.ofList ++ lines b := by
  have htext : (a ++ "\n" ++ b).toList = a.toList ++ '\n' :: b.toList := by simp
  rw [lines, lines, htext, List.splitOn_append_cons_self,
    List.dropLast_append_of_ne_nil (List.splitOn_ne_nil _ _), List.map_append]

/-- A text behind a line break and before one is a line. -/
theorem mem_lines {line : String} (h : OneLine line) (a b : String) :
    line ∈ lines (a ++ "\n" ++ line ++ "\n" ++ b) := by
  have hassoc : a ++ "\n" ++ line ++ "\n" ++ b = a ++ "\n" ++ (line ++ "\n" ++ b) := by
    simp only [String.append_assoc]
  rw [hassoc, lines_append_break, lines_append_break, List.splitOn_eq_singleton h]
  simp

/-- Only a text without line breaks is one piece. -/
theorem one_lt_length_splitOn {a : String} (h : ¬ OneLine a) :
    1 < (a.toList.splitOn '\n').length := by
  obtain ⟨x, y, hxy⟩ := List.append_of_mem (not_not.mp h)
  have hx := List.length_pos_iff.mpr (List.splitOn_ne_nil '\n' x)
  have hy := List.length_pos_iff.mpr (List.splitOn_ne_nil '\n' y)
  rw [hxy, List.splitOn_append_cons_self, List.length_append]
  omega

/-- Texts under each other are as many lines at least. -/
theorem le_length_lines_unlines (texts : List String) :
    texts.length ≤ (lines (unlines texts)).length := by
  induction texts with
  | nil => exact Nat.zero_le _
  | cons a texts ih =>
    have ha := List.length_pos_iff.mpr (List.splitOn_ne_nil '\n' a.toList)
    rw [unlines_cons, lines_append_break, List.length_append, List.length_map, List.length_cons]
    omega

theorem lines_unlines {texts : List String} (h : ∀ a ∈ texts, OneLine a) :
    lines (unlines texts) = texts := by
  induction texts with
  | nil => rfl
  | cons a texts ih =>
    obtain ⟨ha, htexts⟩ := List.forall_mem_cons.mp h
    rw [unlines_cons, lines_append_break, ih htexts, List.splitOn_eq_singleton ha,
      List.map_singleton, String.ofList_toList, List.singleton_append]

/-- **Texts are as many as their lines** just when none of them has a line break. -/
theorem length_lines_unlines_eq_iff {texts : List String} :
    (lines (unlines texts)).length = texts.length ↔ ∀ a ∈ texts, OneLine a := by
  constructor
  · induction texts with
    | nil => simp
    | cons a texts ih =>
      intro h
      have hle := le_length_lines_unlines texts
      have ha := List.length_pos_iff.mpr (List.splitOn_ne_nil '\n' a.toList)
      rw [unlines_cons, lines_append_break, List.length_append, List.length_map,
        List.length_cons] at h
      refine List.forall_mem_cons.mpr ⟨?_, ih (by omega)⟩
      by_contra hbreak
      have := one_lt_length_splitOn hbreak
      omega
  · intro h
    rw [lines_unlines h]

/-- **Texts are their lines** just when none of them has a line break. -/
theorem lines_unlines_eq_iff {texts : List String} :
    lines (unlines texts) = texts ↔ ∀ a ∈ texts, OneLine a :=
  ⟨fun h => length_lines_unlines_eq_iff.mp (congrArg List.length h), lines_unlines⟩

/-! ## 3. Numbers and quoted characters -/

theorem digitChar_ne_break (n : Nat) : n.digitChar ≠ '\n' := by
  have hsmall : ∀ m < 16, Nat.digitChar m ≠ '\n' := by decide
  by_cases hn : n < 16
  · exact hsmall n hn
  · rw [Nat.digitChar]
    repeat rw [if_neg (by omega)]
    decide

theorem not_mem_toDigits {base : Nat} (hbase : 1 < base) (n : Nat) :
    '\n' ∉ Nat.toDigits base n := by
  induction n using Nat.strongRecOn with
  | ind n ih =>
    rw [Nat.toDigits_eq_if hbase]
    split
    · exact fun h => digitChar_ne_break n (List.mem_singleton.mp h).symm
    · next hn =>
      rw [List.mem_append, not_or]
      refine ⟨ih _ (Nat.div_lt_self (by omega) hbase), fun h => ?_⟩
      exact digitChar_ne_break _ (List.mem_singleton.mp h).symm

theorem oneLine_toString_nat (n : Nat) : OneLine (toString n) :=
  oneLine_ofList.mpr (not_mem_toDigits (by decide) n)

theorem oneLine_toString_int (n : Int) : OneLine (toString n) := by
  rw [Int.toString_eq_repr, Int.repr_eq_if]
  split
  · exact oneLine_toString_nat _
  · exact oneLine_append.mpr ⟨by decide, oneLine_toString_nat _⟩

/-- A character is shown between quotes on one line, whatever it is. -/
theorem oneLine_quotedChar (c : Char) : OneLine (quotedChar c) := by
  have hescaped : '\n' ∉ escaped '\'' c := by
    unfold escaped
    split
    · decide
    split
    · decide
    split
    · decide
    split
    · decide
    next hc =>
    have hne : '\n' ≠ c := Ne.symm hc
    split
    · simp [hne]
    split
    · simp [hne]
    · simp [hexDigits, not_mem_toDigits]
  rw [quotedChar, oneLine_ofList]
  simp [hescaped]

end PanelLint.Text

namespace PanelLint.Number.Binary64

open PanelLint.Text

theorem oneLine_pointed (d : Decimal) : OneLine (pointed d "") := by
  have hdigits : '\n' ∉ Nat.toDigits 10 d.digits := not_mem_toDigits (by decide) d.digits
  unfold pointed
  dsimp only
  split
  · rw [String.append_empty, oneLine_ofList, List.mem_append, not_or]
    exact ⟨hdigits, by simp⟩
  · generalize hpadded : List.replicate _ '0' ++ Nat.toDigits 10 d.digits = ds
    have hds : '\n' ∉ ds := by
      rw [← hpadded, List.mem_append, not_or]
      exact ⟨by simp, hdigits⟩
    rw [oneLine_ofList, List.mem_append, List.mem_cons, not_or, not_or]
    exact ⟨fun h => hds (List.mem_of_mem_take h), by decide, fun h => hds (List.mem_of_mem_drop h)⟩

/-- A number is shown on one line. -/
theorem oneLine_positional (x : Binary64) : OneLine x.positional := by
  cases x with
  | nan => decide
  | infinite n => cases n <;> decide
  | finite n s e =>
    refine oneLine_append.mpr ⟨?_, oneLine_pointed _⟩
    cases n <;> decide

end PanelLint.Number.Binary64
