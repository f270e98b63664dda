import PanelLint.Proofs.Text.Run
import PanelLint.Promql.Lexer
/-!
# How far the reader of numbers looks

Every part of a number or a duration is taken as far as it goes, and one more character decides that
it goes no further.  `Peeks` says this of a reader, and it passes from the parts to the whole:

* `readNumber_frame`: what stands behind a number may be exchanged, as long as its first character
  stays;
* `readNumber_end`: a word or a point right behind a number would have been part of it.
-/

namespace PanelLint.Promql

/-- Whether a token is a number or a duration. -/
def Token.isQuantity : Token → Bool
  | .number _ => true
  | .duration _ => true
  | _ => false

end PanelLint.Promql

namespace PanelLint.Promql.Lexer

open PanelLint.Number (isHexDigit)
open PanelLint.Text

/-! ## 1. Readers that look one character ahead -/

/-- **A reader that looks one character ahead.**  It takes a front part, and takes the same if what
is left is exchanged for a text that begins alike. -/
structure Peeks (f : List Char → List Char × List Char) : Prop where
  append : ∀ cs, (f cs).1 ++ (f cs).2 = cs
  frame : ∀ {x rest rest'}, f (x ++ rest) = (x, rest) → rest.head? = rest'.head? →
    f (x ++ rest') = (x, rest')

/-- Two texts with one front that begin alike behind it begin alike. -/
theorem head_append_congr {x rest rest' : List Char} (h : rest.head? = rest'.head?) :
    (x ++ rest).head? = (x ++ rest').head? := by
  cases x with
  | nil => exact h
  | cons c x => rfl

/-- Where a run ends is decided by one character. -/
theorem endsRun_congr {p : Char → Bool} {rest rest' : List Char} (h : EndsRun p rest)
    (hhead : rest.head? = rest'.head?) : EndsRun p rest' := by
  intro c hc
  exact h c (hhead ▸ hc)

theorem peeks_span (p : Char → Bool) : Peeks fun cs => (cs.takeWhile p, cs.dropWhile p) where
  append cs := List.takeWhile_append_dropWhile
  frame := by
    intro x rest rest' h hhead
    obtain ⟨htake, hdrop⟩ := Prod.mk.inj h
    have hx : ∀ c ∈ x, p c = true := fun c hc => List.mem_takeWhile_imp (htake ▸ hc)
    have hrest : EndsRun p rest := hdrop ▸ endsRun_dropWhile p (x ++ rest)
    have hrest' := endsRun_congr hrest hhead
    rw [takeWhile_run hx hrest', dropWhile_run hx hrest']

/-- One reader after the other. -/
theorem Peeks.comp {f g : List Char → List Char × List Char} (hf : Peeks f) (hg : Peeks g) :
    Peeks fun cs => ((f cs).1 ++ (g (f cs).2).1, (g (f cs).2).2) where
  append cs := by
    rw [List.append_assoc, hg.append, hf.append]
  frame := by
    intro x rest rest' h hhead
    rcases hfx : f (x ++ rest) with ⟨y, r⟩
    rcases hgr : g r with ⟨z, r'⟩
    simp only [hfx, hgr, Prod.mk.injEq] at h
    obtain ⟨rfl, rfl⟩ := h
    have hr : z ++ r' = r := by
      have := hg.append r
      rwa [hgr] at this
    subst hr
    rw [List.append_assoc] at hfx
    have hf' : f (y ++ (z ++ rest')) = (y, z ++ rest') :=
      hf.frame hfx (head_append_congr hhead)
    simp only [List.append_assoc, hf', hg.frame hgr hhead]

/-- A reader that comes into play after a character of some kind only. -/
def takeAfter (q : Char → Prop) [DecidablePred q] (g : List Char → List Char × List Char) :
    List Char → List Char × List Char
  | [] => ([], [])
  | c :: r => if q c then (c :: (g r).1, (g r).2) else ([], c :: r)

theorem peeks_nothing : Peeks fun cs => ([], cs) where
  append _ := rfl
  frame := by
    intro x rest rest' h _
    obtain ⟨rfl, -⟩ := Prod.mk.inj h
    rfl

theorem Peeks.after {q : Char → Prop} [DecidablePred q] {g : List Char → List Char × List Char}
    (hg : Peeks g) : Peeks (takeAfter q g) where
  append cs := by
    cases cs with
    | nil => rfl
    | cons c r =>
      simp only [takeAfter]
      split
      · rw [List.cons_append, hg.append]
      · rfl
  frame := by
    intro x rest rest' h hhead
    cases x with
    | nil =>
      cases rest with
      | nil =>
        obtain rfl : rest' = [] := by simpa using hhead.symm
        rfl
      | cons c rest =>
        cases rest' with
        | nil => cases hhead
        | cons c' rest' =>
          cases hhead
          have hc : ¬ q c := fun hc => by simp [takeAfter, hc] at h
          simp [takeAfter, hc]
    | cons c x =>
      rw [List.cons_append] at h ⊢
      have hc : q c := by
        by_cases hc : q c
        · exact hc
        · simp [takeAfter, hc] at h
      simp only [takeAfter, if_pos hc, Prod.mk.injEq, List.cons.injEq, true_and] at h ⊢
      rw [hg.frame (Prod.ext h.1 h.2) hhead]
      exact ⟨rfl, rfl⟩

/-! ## 2. The parts of a number -/

theorem takeMark_eq (c : Char) :
    takeMark c = takeAfter (fun x => c = '0' ∧ (x = 'x' ∨ x = 'X')) fun cs => ([], cs) := by
  funext cs
  cases cs <;> rfl

theorem takeSign_eq : takeSign = takeAfter (fun c => c = '+' ∨ c = '-') fun cs => ([], cs) := by
  funext cs
  cases cs <;> rfl

theorem takePlaces_eq (digit : Char → Bool) : takePlaces digit =
    takeAfter (fun c => c = '.') fun cs => (cs.takeWhile digit, cs.dropWhile digit) := by
  funext cs
  cases cs <;> rfl

theorem takeExponent_eq : takeExponent = takeAfter (fun c => c = 'e' ∨ c = 'E') fun cs =>
    ((takeSign cs).1 ++ (takeSign cs).2.takeWhile Char.isDigit,
      (takeSign cs).2.dropWhile Char.isDigit) := by
  funext cs
  cases cs <;> rfl

theorem peeks_takeMark (c : Char) : Peeks (takeMark c) := takeMark_eq c ▸ peeks_nothing.after

theorem peeks_takeSign : Peeks takeSign := takeSign_eq ▸ peeks_nothing.after

theorem peeks_takePlaces (digit : Char → Bool) : Peeks (takePlaces digit) :=
  takePlaces_eq digit ▸ (peeks_span digit).after

theorem peeks_takeExponent : Peeks takeExponent :=
  takeExponent_eq ▸ (peeks_takeSign.comp (peeks_span Char.isDigit)).after

theorem peeks_takeFraction (digit : Char → Bool) : Peeks (takeFraction digit) :=
  (peeks_takePlaces digit).comp peeks_takeExponent

/-- Digits and what goes on after them. -/
def takeDigits (digit : Char → Bool) (cs : List Char) : List Char × List Char :=
  (cs.takeWhile digit ++ (takeFraction digit (cs.dropWhile digit)).1,
    (takeFraction digit (cs.dropWhile digit)).2)

theorem peeks_takeDigits (digit : Char → Bool) : Peeks (takeDigits digit) :=
  (peeks_span digit).comp (peeks_takeFraction digit)

/-- The digits that go with the mark of a number. -/
def digitsOf (mark : List Char) : Char → Bool := if mark.isEmpty then Char.isDigit else isHexDigit

theorem takeNumber_point (cs : List Char) :
    takeNumber '.' cs = takeFraction Char.isDigit ('.' :: cs) := by
  rw [takeNumber, if_pos rfl]

theorem takeNumber_digit {c : Char} (hc : c ≠ '.') (cs : List Char) :
    takeNumber c cs =
      (c :: ((takeMark c cs).1 ++
          (takeDigits (digitsOf (takeMark c cs).1) (takeMark c cs).2).1),
        (takeDigits (digitsOf (takeMark c cs).1) (takeMark c cs).2).2) := by
  rw [takeNumber, if_neg hc]
  simp [takeDigits, digitsOf]

theorem takeNumber_frame {c : Char} {x rest rest' : List Char}
    (h : takeNumber c (x ++ rest) = (c :: x, rest)) (hhead : rest.head? = rest'.head?) :
    takeNumber c (x ++ rest') = (c :: x, rest') := by
  by_cases hc : c = '.'
  · subst hc
    rw [takeNumber_point, ← List.cons_append] at h ⊢
    exact (peeks_takeFraction Char.isDigit).frame h hhead
  · rw [takeNumber_digit hc] at h ⊢
    rcases hm : takeMark c (x ++ rest) with ⟨mark, r⟩
    rcases hd : takeDigits (digitsOf mark) r with ⟨y, after⟩
    simp only [hm, hd, Prod.mk.injEq, List.cons.injEq, true_and] at h
    obtain ⟨rfl, rfl⟩ := h
    have hr : y ++ after = r := by
      have := (peeks_takeDigits (digitsOf mark)).append r
      rwa [hd] at this
    subst hr
    rw [List.append_assoc] at hm
    have hm' : takeMark c (mark ++ (y ++ rest')) = (mark, y ++ rest') :=
      (peeks_takeMark c).frame hm (head_append_congr hhead)
    have hd' := (peeks_takeDigits (digitsOf mark)).frame hd hhead
    rw [List.append_assoc, hm']
    simp only [hd']

/-- No digit is left behind a number. -/
theorem endsRun_takeFraction {digit : Char → Bool} (hdigit : ∀ c, c.isDigit = true → digit c = true)
    {cs : List Char} (hcs : EndsRun Char.isDigit cs) :
    EndsRun Char.isDigit (takeFraction digit cs).2 := by
  have hplaces : EndsRun Char.isDigit (takePlaces digit cs).2 := by
    cases cs with
    | nil => exact endsRun_nil
    | cons c r =>
      rw [takePlaces]
      split
      · exact (endsRun_dropWhile digit r).mono hdigit
      · exact hcs
  rw [takeFraction]
  cases hp : (takePlaces digit cs).2 with
  | nil => exact endsRun_nil
  | cons c r =>
    rw [takeExponent]
    split
    · exact endsRun_dropWhile _ _
    · exact hp ▸ hplaces

theorem endsRun_takeNumber (c : Char) (cs : List Char) :
    EndsRun Char.isDigit (takeNumber c cs).2 := by
  by_cases hc : c = '.'
  · subst hc
    rw [takeNumber_point]
    exact endsRun_takeFraction (fun _ h => h) (endsRun_cons cs (by decide))
  · rw [takeNumber_digit hc]
    have hdigit : ∀ d, d.isDigit = true → digitsOf (takeMark c cs).1 d = true := by
      intro d hd
      unfold digitsOf
      split
      · exact hd
      · simp [isHexDigit, hd]
    exact endsRun_takeFraction hdigit ((endsRun_dropWhile _ _).mono hdigit)

/-! ## 3. Durations -/

theorem takeUnits_frame {x rest rest' : List Char} {complete : Bool} (state : DurationState)
    (h : takeUnits state (x ++ rest) = (x, rest, complete)) (hhead : rest.head? = rest'.head?) :
    takeUnits state (x ++ rest') = (x, rest', complete) := by
  induction x generalizing state with
  | nil =>
    cases rest with
    | nil =>
      obtain rfl : rest' = [] := by simpa using hhead.symm
      exact h
    | cons c rest =>
      cases rest' with
      | nil => cases hhead
      | cons c' rest' =>
        cases hhead
        rw [List.nil_append, takeUnits] at h ⊢
        cases hn : state.next? c with
        | some state' => simp [hn] at h
        | none =>
          simp only [hn, Prod.mk.injEq, true_and] at h ⊢
          exact h
  | cons c x ih =>
    rw [List.cons_append, takeUnits] at h ⊢
    cases hn : state.next? c with
    | none => simp [hn] at h
    | some state' =>
      simp only [hn, Prod.mk.injEq, List.cons.injEq, true_and] at h ⊢
      rw [ih state' (Prod.ext h.1 (Prod.ext h.2.1 h.2.2))]
      exact ⟨rfl, rfl, rfl⟩

theorem takeDuration_frame {x rest rest' : List Char} {complete : Bool}
    (h : takeDuration (x ++ rest) = (x, rest, complete)) (hhead : rest.head? = rest'.head?) :
    takeDuration (x ++ rest') = (x, rest', complete) := by
  cases x with
  | nil =>
    cases rest with
    | nil =>
      obtain rfl : rest' = [] := by simpa using hhead.symm
      exact h
    | cons c rest =>
      cases rest' with
      | nil => cases hhead
      | cons c' rest' =>
        cases hhead
        rw [List.nil_append, takeDuration] at h ⊢
        split at h
        · simp at h
        · next hc =>
          rw [if_neg hc]
          simp only [Prod.mk.injEq, true_and] at h ⊢
          exact h
  | cons c x =>
    rw [List.cons_append, takeDuration] at h ⊢
    split at h
    · next hc =>
      rw [if_pos hc]
      simp only [Prod.mk.injEq, List.cons.injEq, true_and] at h ⊢
      rw [takeUnits_frame _ (Prod.ext h.1 (Prod.ext h.2.1 h.2.2)) hhead]
      exact ⟨rfl, rfl, rfl⟩
    · simp at h

theorem isWordRest_of_next {state state' : DurationState} {c : Char}
    (h : state.next? c = some state') : isWordRest c = true := by
  unfold DurationState.next? at h
  by_cases hd : c.isDigit = true
  · simp [isWordRest, Char.isAlphanum, hd]
  · rw [if_neg hd] at h
    cases state with
    | letter =>
      by_cases hs : c = 's'
      · subst hs
        decide
      · simp [hs] at h
    | unit => cases h
    | digits =>
      by_cases hm : c ∈ ['s', 'm', 'h', 'd', 'w']
      · simp only [List.mem_cons, List.not_mem_nil, or_false] at hm
        rcases hm with rfl | rfl | rfl | rfl | rfl <;> decide
      · simp only [if_neg hm] at h
        cases h

/-- All that a duration takes are characters of words. -/
theorem isWordRest_of_takeUnits (state : DurationState) (cs : List Char) :
    ∀ c ∈ (takeUnits state cs).1, isWordRest c = true := by
  induction cs generalizing state with
  | nil => simp [takeUnits]
  | cons c cs ih =>
    rw [takeUnits]
    cases hn : state.next? c with
    | none => simp
    | some state' =>
      intro d hd
      rcases List.mem_cons.mp hd with rfl | hd
      · exact isWordRest_of_next hn
      · exact ih state' d hd

/-- A complete duration takes something, and all of it are characters of words. -/
theorem isWordRest_of_takeDuration {cs units rest : List Char}
    (h : takeDuration cs = (units, rest, true)) :
    units ≠ [] ∧ ∀ c ∈ units, isWordRest c = true := by
  cases cs with
  | nil => simp [takeDuration] at h
  | cons c cs =>
    rw [takeDuration] at h
    split at h
    · next hm =>
      simp only [Prod.mk.injEq] at h
      obtain ⟨rfl, -, -⟩ := h
      refine ⟨by simp, fun d hd => ?_⟩
      rcases List.mem_cons.mp hd with rfl | hd
      · simp only [List.mem_cons, List.not_mem_nil, or_false] at hm
        rcases hm with rfl | rfl | rfl | rfl | rfl | rfl <;> decide
      · exact isWordRest_of_takeUnits _ cs d hd
    · simp at h

/-! ## 4. Numbers and durations -/

/-- A character that numbers and words go on with. -/
def glues (c : Char) : Bool := isWordRest c || c == '.'

theorem endsNumber_congr {rest rest' : List Char} (h : rest.head? = rest'.head?) :
    endsNumber rest = endsNumber rest' := by
  cases rest with
  | nil =>
    obtain rfl : rest' = [] := by simpa using h.symm
    rfl
  | cons c rest =>
    cases rest' with
    | nil => cases h
    | cons c' rest' =>
      cases h
      rfl

/-- A number begins with its first character. -/
theorem exists_takeNumber (c : Char) (cs : List Char) :
    ∃ n r, takeNumber c cs = (c :: n, r) ∧ n ++ r = cs := by
  have hfirst : ∃ n, (takeNumber c cs).1 = c :: n := by
    by_cases hc : c = '.'
    · subst hc
      rw [takeNumber_point]
      exact ⟨_, by simp [takeFraction, takePlaces]; rfl⟩
    · rw [takeNumber_digit hc]
      exact ⟨_, rfl⟩
  obtain ⟨n, hn⟩ := hfirst
  have happ := takeNumber_append c cs
  rw [hn, List.cons_append, List.cons.injEq] at happ
  exact ⟨n, _, Prod.ext hn rfl, happ.2⟩

/-- What the reader of numbers has taken: a number that ends there, or a number and units. -/
theorem readNumber_eq_ok {c : Char} {cs rest : List Char} {t : Token}
    (h : readNumber c cs = .ok (t, rest)) :
    (∃ n, takeNumber c cs = (c :: n, rest) ∧ endsNumber rest = true ∧ n ++ rest = cs ∧
      t = .number (String.ofList (c :: n))) ∨
    ∃ n r units, takeNumber c cs = (c :: n, r) ∧ endsNumber r = false ∧ n ++ r = cs ∧
      takeDuration r = (units, rest, true) ∧ units ++ rest = r ∧
      t = .duration (String.ofList (c :: n ++ units)) := by
  obtain ⟨n, r, hn, hcs⟩ := exists_takeNumber c cs
  unfold readNumber at h
  simp only [hn] at h
  cases he : endsNumber r with
  | true =>
    simp only [he, if_true, Except.ok.injEq, Prod.mk.injEq] at h
    obtain ⟨rfl, rfl⟩ := h
    exact Or.inl ⟨n, hn, he, hcs, rfl⟩
  | false =>
    have happ := takeDuration_append r
    rcases hd : takeDuration r with ⟨units, r', complete⟩
    rw [hd] at happ
    simp only [he, hd] at h
    cases complete with
    | false => simp at h
    | true =>
      cases h
      exact Or.inr ⟨n, r, units, hn, he, hcs, hd, happ, rfl⟩

theorem isQuantity_of_readNumber {c : Char} {cs rest : List Char} {t : Token}
    (h : readNumber c cs = .ok (t, rest)) : t.isQuantity = true := by
  obtain ⟨n, -, -, -, rfl⟩ | ⟨n, r, units, -, -, -, -, -, rfl⟩ := readNumber_eq_ok h <;> rfl

/-- **What stands behind a number may be exchanged**, as long as it begins alike. -/
theorem readNumber_frame {c : Char} {x rest rest' : List Char} {t : Token}
    (h : readNumber c (x ++ rest) = .ok (t, rest)) (hhead : rest.head? = rest'.head?) :
    readNumber c (x ++ rest') = .ok (t, rest') := by
  obtain ⟨n, hn, he, hcs, rfl⟩ | ⟨n, r, units, hn, he, hcs, hd, rfl, rfl⟩ := readNumber_eq_ok h
  · obtain rfl := List.append_cancel_right hcs
    have hn' := takeNumber_frame hn hhead
    unfold readNumber
    rw [endsNumber_congr hhead] at he
    simp only [hn', he, if_true]
  · rw [← List.append_assoc] at hcs
    obtain rfl := List.append_cancel_right hcs
    rw [List.append_assoc] at hn
    have hn' := takeNumber_frame hn (head_append_congr hhead)
    have hd' := takeDuration_frame hd hhead
    rw [endsNumber_congr (head_append_congr hhead)] at he
    unfold readNumber
    rw [List.append_assoc]
    simp only [hn', he, hd', if_true]
    rfl

/-- **Where a number ends.**  No character that a number or a word goes on with follows it, or else
it is a duration, which ends with a letter. -/
theorem readNumber_end {c : Char} {x rest : List Char} {t : Token}
    (h : readNumber c (x ++ rest) = .ok (t, rest)) :
    EndsRun glues rest ∨ ∃ d, x.getLast? = some d ∧ isWordRest d = true := by
  obtain ⟨n, hn, he, -, -⟩ | ⟨n, r, units, -, -, hcs, hd, rfl, -⟩ := readNumber_eq_ok h
  · left
    intro d hhead
    have hdigit : d.isDigit = false := by
      have := endsRun_takeNumber c (x ++ rest)
      rw [hn] at this
      exact this d hhead
    cases rest with
    | nil => cases hhead
    | cons e rest =>
      obtain rfl : e = d := by simpa using hhead
      simp only [endsNumber, Bool.not_eq_true', Bool.or_eq_false_iff] at he
      simp only [isWordStart, Bool.or_eq_false_iff] at he
      simp [glues, isWordRest, Char.isAlphanum, he, hdigit]
  · right
    rw [← List.append_assoc] at hcs
    obtain rfl := List.append_cancel_right hcs
    obtain ⟨hne, hword⟩ := isWordRest_of_takeDuration hd
    refine ⟨units.getLast hne, ?_, hword _ (List.getLast_mem hne)⟩
    rw [List.getLast?_append, List.getLast?_eq_some_getLast hne]
    rfl

/-! ## 5. The characters of numbers -/

/-- A character of a number or a duration. -/
def isNumberChar (c : Char) : Bool := glues c || c == '+' || c == '-'

/-- A reader that takes such characters only. -/
def TakesNumberChars (f : List Char → List Char × List Char) : Prop :=
  ∀ cs, ∀ c ∈ (f cs).1, isNumberChar c = true

theorem takesNumberChars_span {p : Char → Bool} (hp : ∀ c, p c = true → isNumberChar c = true) :
    TakesNumberChars fun cs => (cs.takeWhile p, cs.dropWhile p) :=
  fun _ c hc => hp c (List.mem_takeWhile_imp hc)

theorem TakesNumberChars.comp {f g : List Char → List Char × List Char} (hf : TakesNumberChars f)
    (hg : TakesNumberChars g) :
    TakesNumberChars fun cs => ((f cs).1 ++ (g (f cs).2).1, (g (f cs).2).2) := by
  intro cs c hc
  rcases List.mem_append.mp hc with hc | hc
  · exact hf cs c hc
  · exact hg _ c hc

theorem takesNumberChars_nothing : TakesNumberChars fun cs => ([], cs) :=
  fun _ c hc => absurd hc (by simp)

theorem TakesNumberChars.after {q : Char → Prop} [DecidablePred q]
    {g : List Char → List Char × List Char} (hq : ∀ c, q c → isNumberChar c = true)
    (hg : TakesNumberChars g) : TakesNumberChars (takeAfter q g) := by
  intro cs c hc
  cases cs with
  | nil => exact absurd hc (by simp [takeAfter])
  | cons d r =>
    simp only [takeAfter] at hc
    split at hc
    · next hd =>
      rcases List.mem_cons.mp hc with rfl | hc
      · exact hq c hd
      · exact hg r c hc
    · exact absurd hc (by simp)

theorem isNumberChar_of_glues {c : Char} (h : glues c = true) : isNumberChar c = true := by
  simp [isNumberChar, h]

theorem isNumberChar_of_isWordRest {c : Char} (h : isWordRest c = true) : isNumberChar c = true :=
  isNumberChar_of_glues (by simp [glues, h])

theorem isNumberChar_of_isDigit {c : Char} (h : c.isDigit = true) : isNumberChar c = true :=
  isNumberChar_of_isWordRest (by simp [isWordRest, Char.isAlphanum, h])

theorem isAlpha_iff {c : Char} : c.isAlpha = true ↔
    (65 ≤ c.val.toNat ∧ c.val.toNat ≤ 90) ∨ (97 ≤ c.val.toNat ∧ c.val.toNat ≤ 122) := by
  change (decide ('A'.val ≤ c.val ∧ c.val ≤ 'Z'.val) ||
    (decide ('a'.val ≤ c.val) && decide (c.val ≤ 'z'.val))) = true ↔ _
  simp only [Bool.or_eq_true, Bool.and_eq_true, decide_eq_true_eq, UInt32.le_iff_toNat_le]
  rfl

theorem isWordRest_of_isHexDigit {c : Char} (h : isHexDigit c = true) : isWordRest c = true := by
  simp only [isHexDigit, Bool.or_eq_true, Bool.and_eq_true, decide_eq_true_eq, Char.le_def,
    UInt32.le_iff_toNat_le] at h
  have halnum : c.isDigit = true ∨ c.isAlpha = true := by
    rcases h with (h | h) | h
    · exact Or.inl h
    · exact Or.inr (isAlpha_iff.mpr (Or.inr ⟨h.1, Nat.le_trans h.2 (by decide)⟩))
    · exact Or.inr (isAlpha_iff.mpr (Or.inl ⟨h.1, Nat.le_trans h.2 (by decide)⟩))
  rcases halnum with h | h <;> simp [isWordRest, Char.isAlphanum, h]

theorem takesNumberChars_takeFraction {digit : Char → Bool}
    (hdigit : ∀ c, digit c = true → isNumberChar c = true) :
    TakesNumberChars (takeFraction digit) := by
  have hsign : TakesNumberChars takeSign := by
    rw [takeSign_eq]
    exact takesNumberChars_nothing.after (by rintro c (rfl | rfl) <;> decide)
  have hplaces : TakesNumberChars (takePlaces digit) := by
    rw [takePlaces_eq]
    exact (takesNumberChars_span hdigit).after (by rintro c rfl; decide)
  have hexponent : TakesNumberChars takeExponent := by
    rw [takeExponent_eq]
    exact (hsign.comp (takesNumberChars_span fun _ => isNumberChar_of_isDigit)).after
      (by rintro c (rfl | rfl) <;> decide)
  exact hplaces.comp hexponent

theorem takesNumberChars_takeNumber {c : Char} (hc : isNumberChar c = true) :
    TakesNumberChars (takeNumber c) := by
  intro cs
  by_cases hpoint : c = '.'
  · subst hpoint
    rw [takeNumber_point]
    exact takesNumberChars_takeFraction (fun _ => isNumberChar_of_isDigit) _
  · rw [takeNumber_digit hpoint]
    have hmark : TakesNumberChars (takeMark c) := by
      rw [takeMark_eq]
      exact takesNumberChars_nothing.after (by rintro d ⟨-, rfl | rfl⟩ <;> decide)
    have hdigit : ∀ d, digitsOf (takeMark c cs).1 d = true → isNumberChar d = true := by
      intro d hd
      unfold digitsOf at hd
      split at hd
      · exact isNumberChar_of_isDigit hd
      · exact isNumberChar_of_isWordRest (isWordRest_of_isHexDigit hd)
    have hdigits : TakesNumberChars (takeDigits (digitsOf (takeMark c cs).1)) :=
      (takesNumberChars_span hdigit).comp (takesNumberChars_takeFraction hdigit)
    intro d hd
    rcases List.mem_cons.mp hd with rfl | hd
    · exact hc
    rcases List.mem_append.mp hd with hd | hd
    · exact hmark cs d hd
    · exact hdigits _ d hd

/-- **The characters of a number or a duration.** -/
theorem isNumberChar_of_readNumber {c : Char} {x rest : List Char} {t : Token}
    (hc : isNumberChar c = true) (h : readNumber c (x ++ rest) = .ok (t, rest)) :
    ∀ d ∈ x, isNumberChar d = true := by
  have hnumber := takesNumberChars_takeNumber hc (x ++ rest)
  obtain ⟨n, hn, -, hcs, -⟩ | ⟨n, r, units, hn, -, hcs, hd, rfl, -⟩ := readNumber_eq_ok h
  · obtain rfl := List.append_cancel_right hcs
    intro d hd
    exact hnumber d (by rw [hn]; exact List.mem_cons_of_mem c hd)
  · rw [← List.append_assoc] at hcs
    obtain rfl := List.append_cancel_right hcs
    intro d hmem
    rcases List.mem_append.mp hmem with hmem | hmem
    · exact hnumber d (by rw [hn]; exact List.mem_cons_of_mem c hmem)
    · exact isNumberChar_of_isWordRest ((isWordRest_of_takeDuration hd).2 d hmem)

/-! ## 6. Numbers before any text -/

/-- Units that a duration may end with are taken before every text with which no word goes on. -/
theorem takeUnits_append_of_endsRun {state : DurationState} {units rest : List Char}
    (h : takeUnits state units = (units, [], true)) (hrest : EndsRun isWordRest rest) :
    takeUnits state (units ++ rest) = (units, rest, true) := by
  induction units generalizing state with
  | nil =>
    have hstate : (state != .digits) = true := by simpa [takeUnits] using h
    cases rest with
    | nil => simpa [takeUnits] using hstate
    | cons c rest =>
      have hc := hrest c rfl
      rw [List.nil_append, takeUnits]
      cases hn : state.next? c with
      | none => simp [hc, hstate]
      | some state' => exact absurd (isWordRest_of_next hn) (by simp [hc])
  | cons c units ih =>
    rw [List.cons_append, takeUnits] at *
    cases hn : state.next? c with
    | none => simp [hn] at h
    | some state' =>
      simp only [hn, Prod.mk.injEq, List.cons.injEq, true_and] at h ⊢
      rw [ih (Prod.ext h.1 (Prod.ext h.2.1 h.2.2))]
      exact ⟨rfl, rfl, rfl⟩

theorem takeDuration_append_of_endsRun {units rest : List Char}
    (h : takeDuration units = (units, [], true)) (hrest : EndsRun isWordRest rest) :
    takeDuration (units ++ rest) = (units, rest, true) := by
  cases units with
  | nil => simp [takeDuration] at h
  | cons c units =>
    rw [List.cons_append, takeDuration] at *
    split at h
    · next hc =>
      rw [if_pos hc]
      simp only [Prod.mk.injEq, List.cons.injEq, true_and] at h ⊢
      rw [takeUnits_append_of_endsRun (Prod.ext h.1 (Prod.ext h.2.1 h.2.2)) hrest]
      exact ⟨rfl, rfl, rfl⟩
    · simp at h

/-- **A duration is read whatever stands behind it**, if no word goes on there. -/
theorem readNumber_duration {c : Char} {w rest : List Char} {text : String}
    (h : readNumber c w = .ok (.duration text, [])) (hrest : EndsRun isWordRest rest) :
    readNumber c (w ++ rest) = .ok (.duration text, rest) := by
  obtain ⟨n, -, -, -, hnumber⟩ | ⟨n, r, units, hn, he, rfl, hd, hunits, htext⟩ := readNumber_eq_ok h
  · cases hnumber
  rw [List.append_nil] at hunits
  subst hunits
  cases htext
  -- a number that units follow ends there with any text behind them
  have hhead : units.head? = (units ++ rest).head? := by
    obtain ⟨u, us, rfl⟩ := List.exists_cons_of_ne_nil (isWordRest_of_takeDuration hd).1
    rfl
  have hn' := takeNumber_frame hn hhead
  rw [endsNumber_congr hhead] at he
  unfold readNumber
  rw [List.append_assoc]
  simp only [hn', he, takeDuration_append_of_endsRun hd hrest, if_true]
  rfl

/-- A one is read where no number goes on behind it. -/
theorem readNumber_one {rest : List Char} (h : EndsRun glues rest) :
    readNumber '1' rest = .ok (.number "1", rest) := by
  cases rest with
  | nil => rfl
  | cons c rest =>
    have hc : glues c = false := h c rfl
    simp only [glues, isWordRest, Char.isAlphanum, Bool.or_eq_false_iff, beq_eq_false_iff_ne] at hc
    obtain ⟨⟨⟨halpha, hdigit⟩, hunderscore⟩, hpoint⟩ := hc
    have hexp : ¬ (c = 'e' ∨ c = 'E') := by
      rintro (rfl | rfl) <;> exact absurd halpha (by decide)
    have hn : takeNumber '1' (c :: rest) = (['1'], c :: rest) := by
      simp [takeNumber, takeMark, takeFraction, takePlaces, takeExponent, hdigit, hpoint, hexp]
    have he : endsNumber (c :: rest) = true := by
      simp [endsNumber, isWordStart, halpha, hunderscore, hpoint]
    unfold readNumber
    simp only [hn, he, if_true]

end PanelLint.Promql.Lexer
