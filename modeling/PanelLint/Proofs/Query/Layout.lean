import Mathlib.Computability.Language
import PanelLint.Proofs.Query.Idle
/-!
# What a position sees of the text before it

The position of a reference is found by reading the text before it backwards.  Here the same is said
forwards: the texts behind which a reference stands after `offset`, or where a scalar is due, are two
regular languages, put together from words in any case, white space and marks.

* `mem_mul_spaces_iff`: to read over white space backwards is to ask for the language before it;
* `endsWithOffset_iff`, `endsWithScalarOpening_iff`: the readers accept just the two languages;
* `Relaid`: a text in another layout, with other white space around it and letters of other case;
* `position_sees_words`: such texts have the same positions behind them, and which ones they are.
-/

namespace PanelLint.Query

open PanelLint.Text PanelLint.Promql.Lexer

variable {p q w : List Char} {words : List String} {L M : Language Char} {c : Char}

/-! ## 1. The languages -/

/-- White space. -/
def spaces : Language Char := {w | ∀ c ∈ w, isBlank c = true}

/-- One character. -/
def mark (c : Char) : Language Char := {[c]}

/-- Texts without a character. -/
def free (c : Char) : Language Char := {w | c ∉ w}

/-- A text of a language or nothing. -/
def optionally (L : Language Char) : Language Char := 1 + L

/-- Some words, compared without regard to case. -/
def inAnyCase (words : List String) : Language Char :=
  {w | ∃ word ∈ words, w.map fold = word.toList}

/-- **A boundary of a word**: on one side of it, and not on the other, there is a word character. -/
def IsBoundary (front back : List Char) : Prop :=
  front.getLast?.any isWord ≠ back.head?.any isWord

/-- Texts that end in one of some words, which begins at a boundary. -/
def endingIn (words : List String) : Language Char :=
  {p | ∃ front w, p = front ++ w ∧ w ∈ inAnyCase words ∧ IsBoundary front w}

/-- **The texts behind which a length of time is due**: they end in `offset`, and perhaps a minus. -/
def offsetEnds : Language Char :=
  endingIn ["offset"] * spaces * optionally (mark '-') * spaces

/-- The labels of an aggregation, up to the first parenthesis that closes. -/
def groupings : Language Char :=
  inAnyCase ["by", "without"] * spaces * mark '(' * free ')' * mark ')' * spaces

/-- **The texts behind which a scalar is due**: they end in the opening of a scalar taker, or in an
at sign. -/
def scalarEnds : Language Char :=
  endingIn scalarTakers * spaces * optionally groupings * mark '(' * spaces +
    ⊤ * mark '@' * spaces

theorem mem_spaces_iff : w ∈ spaces ↔ ∀ c ∈ w, isBlank c = true := Iff.rfl

theorem mem_mark_iff : w ∈ mark c ↔ w = [c] := Iff.rfl

theorem mem_free_iff : w ∈ free c ↔ c ∉ w := Iff.rfl

theorem mem_inAnyCase_iff :
    w ∈ inAnyCase words ↔ ∃ word ∈ words, w.map fold = word.toList := Iff.rfl

theorem nil_mem_spaces : [] ∈ spaces := fun _ hc => absurd hc List.not_mem_nil

theorem spaces_mul_spaces : spaces * spaces = spaces := by
  ext w
  rw [Language.mem_mul]
  constructor
  · rintro ⟨a, ha, b, hb, rfl⟩
    exact List.forall_mem_append.mpr ⟨ha, hb⟩
  · intro h
    exact ⟨w, h, [], nil_mem_spaces, List.append_nil w⟩

/-- A text that ends in a mark. -/
theorem mem_mul_mark_iff : p ∈ L * mark c ↔ ∃ q ∈ L, p = q ++ [c] := by
  rw [Language.mem_mul]
  constructor
  · rintro ⟨q, hq, _, rfl, rfl⟩
    exact ⟨q, hq, rfl⟩
  · rintro ⟨q, hq, rfl⟩
    exact ⟨q, hq, [c], rfl, rfl⟩

/-- With something optional in its middle, a language falls in two. -/
theorem mul_optionally_spaces :
    L * spaces * optionally M * spaces = (L + L * spaces * M) * spaces := by
  rw [optionally, mul_add, mul_one, add_mul, mul_assoc L, spaces_mul_spaces, ← add_mul]

/-! ## 2. Reading over white space -/

/-- No text of a language ends in white space. -/
def Solid (L : Language Char) : Prop := ∀ w ∈ L, ∀ c ∈ w.getLast?, isBlank c = false

/-- A mark at the end is solid. -/
theorem solid_mul_mark (h : isBlank c = false) : Solid (L * mark c) := by
  intro w hw d hd
  obtain ⟨q, -, rfl⟩ := mem_mul_mark_iff.mp hw
  rw [List.getLast?_concat, Option.mem_some_iff] at hd
  exact hd ▸ h

theorem Solid.add (hL : Solid L) (hM : Solid M) : Solid (L + M) := fun w hw =>
  hw.elim (hL w) (hM w)

theorem dropBlanks_reverse (hlast : ∀ c ∈ q.getLast?, isBlank c = false) (hw : w ∈ spaces) :
    dropBlanks (q ++ w).reverse = q.reverse := by
  rw [List.reverse_append]
  refine dropWhile_run (fun c hc => hw c (List.mem_reverse.mp hc)) fun c hc => hlast c ?_
  rwa [List.head?_reverse] at hc

/-- **White space at the end is read over**: what stands before it is in the language. -/
theorem mem_mul_spaces_iff (h : Solid L) :
    p ∈ L * spaces ↔ (dropBlanks p.reverse).reverse ∈ L := by
  rw [Language.mem_mul]
  constructor
  · rintro ⟨q, hq, w, hw, rfl⟩
    rwa [dropBlanks_reverse (h q hq) hw, List.reverse_reverse]
  · intro hp
    refine ⟨_, hp, (p.reverse.takeWhile isBlank).reverse, fun c hc => ?_, ?_⟩
    · exact List.mem_takeWhile_imp (List.mem_reverse.mp hc)
    · rw [← List.reverse_append, dropBlanks, List.takeWhile_append_dropWhile, List.reverse_reverse]

/-! ## 3. Words at the end of a text -/

/-- Some words, none of them empty. -/
def AreWords (words : List String) : Prop :=
  ∀ word ∈ words, word.toList ≠ [] ∧ word.toList.all isWord = true

instance (words : List String) : Decidable (AreWords words) :=
  inferInstanceAs (Decidable (∀ word ∈ words, _ ∧ _))

/-- What folds to a word character is one. -/
theorem isWord_of_fold (h : isWord (fold c) = true) : isWord c = true := by
  cases hc : isWord c with
  | true => rfl
  | false => rwa [fold_of_not_isWord hc, hc] at h

/-- Whatever its case, a word is not empty and has word characters only. -/
theorem isWord_of_mem_inAnyCase (hwords : AreWords words) (hw : w ∈ inAnyCase words) :
    w ≠ [] ∧ ∀ c ∈ w, isWord c = true := by
  obtain ⟨word, hword, hfold⟩ := hw
  obtain ⟨hne, hall⟩ := hwords word hword
  refine ⟨?_, fun c hc => isWord_of_fold (List.all_eq_true.mp hall _ ?_)⟩
  · rintro rfl
    exact hne hfold.symm
  · rw [← hfold]
    exact List.mem_map_of_mem hc

/-- To drop a word backwards is to split it off the end, in whatever case. -/
theorem dropWord?_eq_some_iff {word cs rest : List Char} :
    dropWord? word cs = some rest ↔ ∃ w, cs = w ++ rest ∧ w.map fold = word := by
  induction word generalizing cs with
  | nil => simp [dropWord?, eq_comm]
  | cons d word ih =>
    cases cs with
    | nil => simp [dropWord?]
    | cons c cs =>
      simp only [dropWord?]
      split
      · next hd =>
        rw [ih]
        constructor
        · rintro ⟨w, rfl, rfl⟩
          exact ⟨c :: w, rfl, by rw [List.map_cons, hd]⟩
        · rintro ⟨w, hcs, hw⟩
          cases w with
          | nil => cases hw
          | cons c' w =>
            obtain ⟨-, rfl⟩ := List.cons.inj hcs
            exact ⟨w, rfl, (List.cons.inj hw).2⟩
      · next hd =>
        refine iff_of_false (by simp) ?_
        rintro ⟨w, hcs, hw⟩
        cases w with
        | nil => cases hw
        | cons c' w =>
          obtain ⟨rfl, -⟩ := List.cons.inj hcs
          exact hd (List.cons.inj hw).1

/-- Some word is split off, and the test holds of what is before it. -/
theorem any_beforeWord?_iff (words : List String) (f : List Char → Bool) :
    (words.any fun word => (beforeWord? word p.reverse).any f) = true ↔
      ∃ q w, p = q ++ w ∧ w ∈ inAnyCase words ∧ f q.reverse = true := by
  simp only [List.any_eq_true, Option.any_eq_true, beforeWord?, dropWord?_eq_some_iff]
  constructor
  · rintro ⟨word, hword, rest, ⟨w, hp, hw⟩, hf⟩
    rw [List.reverse_eq_iff, List.reverse_append] at hp
    refine ⟨rest.reverse, w.reverse, hp, ⟨word, hword, ?_⟩, by rwa [List.reverse_reverse]⟩
    rw [List.map_reverse, hw, List.reverse_reverse]
  · rintro ⟨q, w, rfl, ⟨word, hword, hw⟩, hf⟩
    refine ⟨word, hword, q.reverse, ⟨w.reverse, List.reverse_append, ?_⟩, hf⟩
    rw [List.map_reverse, hw]

/-- Before a word there is a boundary if no word character stands there. -/
theorem isBoundary_iff (hwords : AreWords words) (hw : w ∈ inAnyCase words) :
    IsBoundary q w ↔ atWordStart q.reverse = true := by
  obtain ⟨hne, hall⟩ := isWord_of_mem_inAnyCase hwords hw
  have hhead : w.head?.any isWord = true := by
    cases w with
    | nil => exact absurd rfl hne
    | cons c w => exact hall c List.mem_cons_self
  have hstart : atWordStart q.reverse = !q.getLast?.any isWord := by
    rw [← List.head?_reverse]
    cases q.reverse <;> rfl
  rw [IsBoundary, hhead, hstart, Bool.not_eq_true', ne_eq, Bool.not_eq_true]

/-- **A text ends in a word** if it is in the language of texts that do. -/
theorem endsWithWord_iff (hwords : AreWords words) :
    endsWithWord words p.reverse = true ↔ p ∈ endingIn words := by
  rw [endsWithWord, any_beforeWord?_iff]
  refine exists_congr fun q => exists_congr fun w => and_congr_right fun _ => ?_
  exact and_congr_right fun hw => (isBoundary_iff hwords hw).symm

theorem solid_mul_inAnyCase (hwords : AreWords words) : Solid (L * inAnyCase words) := by
  intro p hp c hc
  obtain ⟨q, -, w, hw, rfl⟩ := Language.mem_mul.mp hp
  obtain ⟨hne, hall⟩ := isWord_of_mem_inAnyCase hwords hw
  rw [List.getLast?_append_of_ne_nil q hne] at hc
  cases hb : isBlank c with
  | false => rfl
  | true => exact absurd (hall c (List.mem_of_mem_getLast? hc)) (by simp [not_isWord_of_isBlank hb])

theorem solid_endingIn (hwords : AreWords words) : Solid (endingIn words) := by
  rintro p ⟨q, w, rfl, hw, -⟩
  exact solid_mul_inAnyCase (L := ⊤) hwords _ (Language.append_mem_mul trivial hw)

theorem endsWithWord_dropBlanks_iff (hwords : AreWords words) :
    endsWithWord words (dropBlanks p.reverse) = true ↔ p ∈ endingIn words * spaces := by
  rw [mem_mul_spaces_iff (solid_endingIn hwords), ← endsWithWord_iff hwords, List.reverse_reverse]

/-! ## 4. The two readers -/

/-- **A length of time is due behind the texts that are listed, and behind no others.** -/
theorem endsWithOffset_iff : endsWithOffset p.reverse = true ↔ p ∈ offsetEnds := by
  have hwords : AreWords ["offset"] := by decide
  rw [offsetEnds, mul_optionally_spaces,
    mem_mul_spaces_iff ((solid_endingIn hwords).add (solid_mul_mark (by decide))),
    Language.mem_add, mem_mul_mark_iff]
  by_cases hminus : ∃ rest, dropBlanks p.reverse = '-' :: rest
  · obtain ⟨rest, hrest⟩ := hminus
    have hno : rest.reverse ++ ['-'] ∉ endingIn ["offset"] := by
      rw [← endsWithWord_iff hwords, List.reverse_append, Bool.not_eq_true]
      exact endsWithWord_cons (by decide)
    rw [endsWithOffset_of_minus hrest, hrest, List.reverse_cons, or_iff_right hno,
      ← List.reverse_reverse rest, endsWithWord_dropBlanks_iff hwords, List.reverse_reverse]
    simp
  · rw [endsWithOffset_of_not_minus (not_exists.mp hminus), ← endsWithWord_iff hwords,
      List.reverse_reverse, or_iff_left]
    rintro ⟨q, -, hq⟩
    exact hminus ⟨q.reverse, by rw [List.reverse_eq_iff.mp hq, List.reverse_append]; rfl⟩

/-- The texts in which a scalar taker has its grouping begun. -/
def groupingEnds : Language Char :=
  endingIn scalarTakers * spaces * inAnyCase ["by", "without"] * spaces

/-- `by` or `without` behind a scalar taker. -/
theorem endsWithGrouping_iff : endsWithGrouping p.reverse = true ↔ p ∈ groupingEnds := by
  have hread := any_beforeWord?_iff (p := (dropBlanks p.reverse).reverse) ["by", "without"]
    fun rest => endsWithWord scalarTakers (dropBlanks rest)
  rw [List.reverse_reverse] at hread
  rw [endsWithGrouping, hread, groupingEnds, mem_mul_spaces_iff (solid_mul_inAnyCase (by decide)),
    Language.mem_mul]
  constructor
  · rintro ⟨q, w, hp, hw, hq⟩
    exact ⟨q, (endsWithWord_dropBlanks_iff (by decide)).mp hq, w, hw, hp.symm⟩
  · rintro ⟨q, hq, w, hw, hp⟩
    exact ⟨q, w, hp.symm, hw, (endsWithWord_dropBlanks_iff (by decide)).mpr hq⟩

/-- The parenthesis is looked for backwards, up to one that closes; by induction on the text. -/
theorem opensGrouping_iff_exists {before : List Char} : opensGrouping before = true ↔
    ∃ u rest, before = u ++ '(' :: rest ∧ ')' ∉ u ∧ endsWithGrouping rest = true := by
  induction before with
  | nil => simp [opensGrouping]
  | cons c cs ih =>
    rw [opensGrouping, Bool.and_eq_true, Bool.or_eq_true, Bool.and_eq_true, bne_iff_ne, beq_iff_eq,
      ih]
    constructor
    · rintro ⟨hc, ⟨rfl, hg⟩ | ⟨u, rest, rfl, hu, hg⟩⟩
      · exact ⟨[], cs, rfl, List.not_mem_nil, hg⟩
      · exact ⟨c :: u, rest, rfl, by simpa using ⟨hc.symm, hu⟩, hg⟩
    · rintro ⟨u, rest, hcs, hu, hg⟩
      cases u with
      | nil =>
        obtain ⟨rfl, rfl⟩ := List.cons.inj hcs
        exact ⟨by decide, Or.inl ⟨rfl, hg⟩⟩
      | cons d u =>
        obtain ⟨rfl, rfl⟩ := List.cons.inj hcs
        rw [List.mem_cons, not_or] at hu
        exact ⟨Ne.symm hu.1, Or.inr ⟨u, rest, rfl, hu.2, hg⟩⟩

/-- A parenthesis that opens a grouping is looked for over all that does not close one. -/
theorem opensGrouping_iff :
    opensGrouping p.reverse = true ↔ p ∈ groupingEnds * mark '(' * free ')' := by
  rw [opensGrouping_iff_exists, Language.mem_mul]
  constructor
  · rintro ⟨u, rest, hp, hu, hg⟩
    rw [← List.reverse_reverse rest, endsWithGrouping_iff] at hg
    have hfree : ')' ∉ u.reverse := fun h => hu (List.mem_reverse.mp h)
    refine ⟨_, mem_mul_mark_iff.mpr ⟨_, hg, rfl⟩, u.reverse, hfree, ?_⟩
    rw [List.reverse_eq_iff.mp hp]
    simp
  · rintro ⟨_, hopen, u, hu, rfl⟩
    obtain ⟨q, hq, rfl⟩ := mem_mul_mark_iff.mp hopen
    exact ⟨u.reverse, q.reverse, by simp, fun h => hu (List.mem_reverse.mp h),
      endsWithGrouping_iff.mpr hq⟩

/-- A grouping that is closed is one from the parenthesis on that opens it. -/
theorem closesGrouping_iff :
    closesGrouping p.reverse = true ↔
      p ∈ groupingEnds * mark '(' * free ')' * mark ')' * spaces := by
  rw [mem_mul_spaces_iff (solid_mul_mark (by decide)), mem_mul_mark_iff, closesGrouping]
  split
  · next inner h =>
    rw [h, ← List.reverse_reverse inner, opensGrouping_iff, List.reverse_reverse, List.reverse_cons]
    simp
  · next h =>
    refine iff_of_false (by simp) ?_
    rintro ⟨q, -, hq⟩
    exact h q.reverse (by rw [List.reverse_eq_iff.mp hq, List.reverse_append]; rfl)

/-- The opening of a scalar taker is a parenthesis behind its name or behind its grouping. -/
theorem scalarEnds_eq : scalarEnds =
    ((endingIn scalarTakers * spaces + groupingEnds * mark '(' * free ')' * mark ')' * spaces) *
      mark '(' + ⊤ * mark '@') * spaces := by
  rw [scalarEnds, optionally, mul_add, mul_one, groupings, groupingEnds, add_mul _ (⊤ * mark '@')]
  simp only [mul_assoc]

/-- **A scalar is due behind the texts that are listed, and behind no others.** -/
theorem endsWithScalarOpening_iff : endsWithScalarOpening p.reverse = true ↔ p ∈ scalarEnds := by
  rw [scalarEnds_eq,
    mem_mul_spaces_iff ((solid_mul_mark (by decide)).add (solid_mul_mark (by decide))),
    Language.mem_add, mem_mul_mark_iff, mem_mul_mark_iff]
  cases h : dropBlanks p.reverse with
  | nil => simp [endsWithScalarOpening, h]
  | cons c cs =>
    by_cases hc : c = '('
    · subst hc
      rw [endsWithScalarOpening_of_paren h, Bool.or_eq_true, ← List.reverse_reverse cs,
        endsWithWord_dropBlanks_iff (by decide), closesGrouping_iff, ← Language.mem_add]
      simp
    · rw [endsWithScalarOpening_of_other h hc, beq_iff_eq]
      have htop : cs.reverse ∈ (⊤ : Language Char) := trivial
      simp [hc, htop]

/-! ## 5. Letters of other case -/

/-- The capital letters of ASCII. -/
def capitals : List Char := "ABCDEFGHIJKLMNOPQRSTUVWXYZ".toList

/-- Only the capitals of ASCII have another lower case. -/
theorem toLower_eq_or_mem_capitals (c : Char) : c.toLower = c ∨ c ∈ capitals := by
  unfold Char.toLower
  split
  · next h =>
    have hlow : 65 ≤ c.toNat := UInt32.le_iff_toNat_le.mp h.1
    have hhigh : c.toNat < 91 := Nat.lt_succ_of_le (UInt32.le_iff_toNat_le.mp h.2)
    have hall : ∀ n < 91, 65 ≤ n → Char.ofNat n ∈ capitals := by decide
    exact Or.inr (Char.ofNat_toNat c ▸ hall c.toNat hhigh hlow)
  · exact Or.inl rfl

/-- What does not tell the capitals from the small letters. -/
def SeesNoCase {α : Type} (f : Char → α) : Prop := ∀ c ∈ capitals, f c.toLower = f c

-- the instance is that of lists, since characters are finitely many and could be gone through too
instance {α : Type} [DecidableEq α] (f : Char → α) : Decidable (SeesNoCase f) :=
  List.decidableBAll (fun c => f c.toLower = f c) capitals

theorem SeesNoCase.eq {α : Type} {f : Char → α} (h : SeesNoCase f) (c : Char) :
    f c.toLower = f c := by
  rcases toLower_eq_or_mem_capitals c with hc | hc
  · rw [hc]
  · exact h c hc

/-- A language that does not change with the case of ASCII letters. -/
def Caseless (L : Language Char) : Prop := ∀ p, p.map Char.toLower ∈ L ↔ p ∈ L

/-- A text in two parts, each of which may change its case. -/
theorem Caseless.mul (hL : Caseless L) (hM : Caseless M) : Caseless (L * M) := by
  intro p
  rw [Language.mem_mul, Language.mem_mul]
  constructor
  · rintro ⟨a, ha, b, hb, hp⟩
    obtain ⟨a, b, rfl, rfl, rfl⟩ := List.map_eq_append_iff.mp hp.symm
    exact ⟨a, (hL a).mp ha, b, (hM b).mp hb, rfl⟩
  · rintro ⟨a, ha, b, hb, rfl⟩
    exact ⟨_, (hL a).mpr ha, _, (hM b).mpr hb, List.map_append.symm⟩

theorem Caseless.add (hL : Caseless L) (hM : Caseless M) : Caseless (L + M) := fun p =>
  or_congr (hL p) (hM p)

theorem Caseless.optionally (hL : Caseless L) : Caseless (optionally L) :=
  Caseless.add (fun p => by rw [Language.mem_one, Language.mem_one, List.map_eq_nil_iff]) hL

theorem caseless_top : Caseless ⊤ := fun _ => iff_of_true trivial trivial

theorem caseless_spaces : Caseless spaces := by
  intro p
  have hblank : SeesNoCase isBlank := by decide
  rw [mem_spaces_iff, mem_spaces_iff, List.forall_mem_map]
  exact forall₂_congr fun c _ => by rw [hblank.eq c]

/-- No letter becomes a mark. -/
theorem toLower_eq_iff (h : SeesNoCase (· == c)) (d : Char) : d.toLower = c ↔ d = c := by
  rw [← beq_iff_eq, h.eq d, beq_iff_eq]

theorem caseless_mark (h : SeesNoCase (· == c)) : Caseless (mark c) := by
  intro p
  rw [mem_mark_iff, mem_mark_iff, List.map_eq_singleton_iff]
  simp [toLower_eq_iff h]

theorem caseless_free (h : SeesNoCase (· == c)) : Caseless (free c) := by
  intro p
  rw [mem_free_iff, mem_free_iff, List.mem_map]
  simp [toLower_eq_iff h]

theorem caseless_inAnyCase : Caseless (inAnyCase words) := by
  intro p
  have hseen : SeesNoCase fold := by decide
  have hfold : (p.map Char.toLower).map fold = p.map fold := by
    rw [List.map_map]
    exact List.map_congr_left fun c _ => hseen.eq c
  rw [mem_inAnyCase_iff, mem_inAnyCase_iff, hfold]

/-- Boundaries are between word characters and others, and letters stay word characters. -/
theorem isBoundary_map_toLower :
    IsBoundary (q.map Char.toLower) (w.map Char.toLower) ↔ IsBoundary q w := by
  have hseen : SeesNoCase isWord := by decide
  have hword : ∀ o : Option Char, (o.map Char.toLower).any isWord = o.any isWord := by
    rintro (_ | c)
    · rfl
    · exact hseen.eq c
  rw [IsBoundary, List.getLast?_map, List.head?_map, hword, hword, IsBoundary]

/-- **Texts that end in a word** do not change with their case. -/
theorem caseless_endingIn : Caseless (endingIn words) := by
  intro p
  constructor
  · rintro ⟨q, w, hp, hw, hboundary⟩
    obtain ⟨q, w, rfl, rfl, rfl⟩ := List.map_eq_append_iff.mp hp
    exact ⟨q, w, rfl, (caseless_inAnyCase w).mp hw, isBoundary_map_toLower.mp hboundary⟩
  · rintro ⟨q, w, rfl, hw, hboundary⟩
    exact ⟨_, _, List.map_append, (caseless_inAnyCase w).mpr hw,
      isBoundary_map_toLower.mpr hboundary⟩

theorem caseless_offsetEnds : Caseless offsetEnds :=
  ((caseless_endingIn.mul caseless_spaces).mul (caseless_mark (by decide)).optionally).mul
    caseless_spaces

theorem caseless_groupings : Caseless groupings :=
  ((((caseless_inAnyCase.mul caseless_spaces).mul (caseless_mark (by decide))).mul
    (caseless_free (by decide))).mul (caseless_mark (by decide))).mul caseless_spaces

theorem caseless_scalarEnds : Caseless scalarEnds :=
  ((((caseless_endingIn.mul caseless_spaces).mul caseless_groupings.optionally).mul
    (caseless_mark (by decide))).mul caseless_spaces).add
      ((caseless_top.mul (caseless_mark (by decide))).mul caseless_spaces)

/-! ## 6. Texts in another layout -/

/-- **A text in another layout**: with ASCII letters of other case, with more or less white space at
its end, or with white space before it. -/
inductive Relaid : List Char → List Char → Prop
  | recased {p p' : List Char} : p.map Char.toLower = p'.map Char.toLower → Relaid p p'
  | lengthened {p s : List Char} : s ∈ spaces → Relaid p (p ++ s)
  | shortened {p s : List Char} : s ∈ spaces → Relaid (p ++ s) p
  | indented {p s : List Char} : s ∈ spaces → Relaid p (s ++ p)
  | trans {p p' p'' : List Char} : Relaid p p' → Relaid p' p'' → Relaid p p''

/-- A position does not change with the case of letters before it. -/
theorem position_recased {p' : List Char} (depth : Nat)
    (h : p.map Char.toLower = p'.map Char.toLower) :
    Position.of p'.reverse depth = Position.of p.reverse depth := by
  have hoffset : endsWithOffset p'.reverse = endsWithOffset p.reverse := by
    rw [Bool.eq_iff_iff, endsWithOffset_iff, endsWithOffset_iff, ← caseless_offsetEnds, ← h,
      caseless_offsetEnds]
  have hscalar : endsWithScalarOpening p'.reverse = endsWithScalarOpening p.reverse := by
    rw [Bool.eq_iff_iff, endsWithScalarOpening_iff, endsWithScalarOpening_iff,
      ← caseless_scalarEnds, ← h, caseless_scalarEnds]
  rw [Position.of, Position.of, hoffset, hscalar]

/-- Nor with white space behind the text. -/
theorem position_lengthened (depth : Nat) (hw : w ∈ spaces) :
    Position.of (p ++ w).reverse depth = Position.of p.reverse depth := by
  have hdrop : dropBlanks (p ++ w).reverse = dropBlanks p.reverse := by
    rw [List.reverse_append]
    exact List.dropWhile_append_of_pos fun c hc => hw c (List.mem_reverse.mp hc)
  unfold Position.of endsWithOffset endsWithScalarOpening
  rw [hdrop]

/-- White space before a text is idle. -/
theorem isIdle_of_blank {d : Char} {line : List Char}
    (h : ∀ c ∈ d :: line, isBlank c = true) : isIdle (d :: line) = true := by
  have hdrop : dropBlanks (d :: line) = [] := List.dropWhile_eq_nil_iff.mpr h
  have hopens : opensGrouping (d :: line) = false := by
    rw [← Bool.not_eq_true, opensGrouping_iff_exists]
    rintro ⟨u, rest, hline, -, -⟩
    exact absurd (h '(' (by simp [hline])) (by decide)
  refine isIdle_iff.mpr ⟨?_, ?_, ?_, ?_, hopens, ?_⟩
  · rw [endsWithOffset, hdrop]
    decide
  · rw [endsWithScalarOpening, hdrop]
  · rw [hdrop]
    decide
  · rw [endsWithGrouping, hdrop]
    decide
  · rw [closesGrouping, hdrop]

/-- Nor with white space before it. -/
theorem position_indented (depth : Nat) (hw : w ∈ spaces) :
    Position.of (w ++ p).reverse depth = Position.of p.reverse depth := by
  rw [List.reverse_append]
  cases h : w.reverse with
  | nil => rw [List.append_nil]
  | cons d line =>
    have hblank : ∀ c ∈ d :: line, isBlank c = true := fun c hc =>
      hw c (List.mem_reverse.mp (h ▸ hc))
    exact (position_behind_iff (not_isWord_of_isBlank (hblank d List.mem_cons_self))).mp
      (isIdle_of_blank hblank) _ depth

/-- **Texts in another layout have the same positions behind them**, by induction on how they are
related. -/
theorem Relaid.position {p' : List Char} (h : Relaid p p') (depth : Nat) :
    Position.of p'.reverse depth = Position.of p.reverse depth := by
  induction h with
  | recased h => exact position_recased depth h
  | lengthened hs => exact position_lengthened depth hs
  | shortened hs => exact (position_lengthened depth hs).symm
  | indented hs => exact position_indented depth hs
  | trans _ _ ih ih' => exact ih'.trans ih

/-! ## 7. What a position sees -/

/-- Behind a text that ends in `offset` no scalar is due. -/
theorem not_scalarOpening_of_offset {before : List Char} (h : endsWithOffset before = true) :
    endsWithScalarOpening before = false := by
  cases hdrop : dropBlanks before with
  | nil => rw [endsWithScalarOpening, hdrop]
  | cons c cs =>
    by_cases hc : c = '(' ∨ c = '@'
    · have hminus : ∀ rest, dropBlanks before ≠ '-' :: rest := by
        intro rest hrest
        obtain rfl := (List.cons.inj (hdrop.symm.trans hrest)).1
        exact absurd hc (by decide)
      rw [endsWithOffset_of_not_minus hminus, hdrop, endsWithWord_cons] at h
      · cases h
      · rcases hc with rfl | rfl <;> decide
    · rw [not_or] at hc
      rw [endsWithScalarOpening_of_other hdrop hc.1, beq_eq_false_iff_ne]
      exact hc.2

/-- Where a length of time is due, as a language. -/
theorem position_eq_offset_iff : Position.of p.reverse 0 = .offset ↔ p ∈ offsetEnds := by
  rw [← endsWithOffset_iff, Position.of]
  cases endsWithOffset p.reverse <;> cases endsWithScalarOpening p.reverse <;> simp

/-- Where a scalar is due, likewise: no text is in both. -/
theorem position_eq_scalar_iff : Position.of p.reverse 0 = .scalar ↔ p ∈ scalarEnds := by
  rw [← endsWithScalarOpening_iff, Position.of]
  cases h : endsWithOffset p.reverse with
  | false => cases endsWithScalarOpening p.reverse <;> simp
  | true => simp [not_scalarOpening_of_offset h]

/-- **A position sees words, not their case or the layout around them.**  It is the same behind a
text in another layout.  Outside square brackets it is that of a length of time just behind a text
that ends in the word `offset` and perhaps a minus, and that of a scalar just behind an at sign or
behind the parenthesis that opens a scalar taker. -/
theorem position_sees_words (p : List Char) :
    (∀ p' depth, Relaid p p' → Position.of p'.reverse depth = Position.of p.reverse depth) ∧
      (Position.of p.reverse 0 = .offset ↔ p ∈ offsetEnds) ∧
      (Position.of p.reverse 0 = .scalar ↔ p ∈ scalarEnds) :=
  ⟨fun _ depth h => h.position depth, position_eq_offset_iff, position_eq_scalar_iff⟩

/-- A parenthesis among the labels of a grouping changes nothing, and the Kelvin sign is a letter of
the name. -/
theorem position_sees_words_topk :
    Relaid "2*top\u212a by (job (x) (".toList " 2*TOP\u212a BY (Job (X) (".toList ∧
      Position.of " 2*TOP\u212a BY (Job (X) (".toList.reverse 0 = .scalar ∧
      "2*top\u212a by (job (x) (".toList ∈ scalarEnds := by
  have hrelaid : Relaid "2*top\u212a by (job (x) (".toList " 2*TOP\u212a BY (Job (X) (".toList := by
    have hindent : " 2*TOP\u212a BY (Job (X) (".toList =
      [' '] ++ "2*TOP\u212a BY (Job (X) (".toList := by decide
    rw [hindent]
    exact .trans (.recased (by decide)) (.indented (List.forall_mem_singleton.mpr (by decide)))
  obtain ⟨hlayout, -, hscalar⟩ := position_sees_words "2*top\u212a by (job (x) (".toList
  have hposition : Position.of "2*top\u212a by (job (x) (".toList.reverse 0 = .scalar := by decide
  exact ⟨hrelaid, (hlayout _ 0 hrelaid).trans hposition, hscalar.mp hposition⟩

end PanelLint.Query
