import PanelLint.Proofs.Promql.Erasure
import PanelLint.Proofs.Promql.Lengths
import PanelLint.Proofs.Promql.Runs
import PanelLint.Proofs.Query.Lexemes
/-!
# Durations as selected values

A value of the shape of a duration is written into a query as it is, and the lexer takes it there as
one token if it takes it as one by itself (`IsTime.readNumber`).  Only one thing can go on into such a
value: a number whose exponent has no digits yet (`IsTime.readNumber_exponent`).
-/

namespace PanelLint.Promql.Lexer

open PanelLint.Text
open PanelLint.Number (isHexDigit)

/-! ## 1. Numbers that end with a sign -/

/-- A run stops before what ends a text, if that does not belong to its class. -/
theorem length_takeWhile_append {p : Char → Bool} {a : List Char} {d : Char}
    (ha : a.getLast? = some d) (hd : p d = false) (rest : List Char) :
    ((a ++ rest).takeWhile p).length < a.length := by
  induction a with
  | nil => cases ha
  | cons c a ih =>
    rw [List.cons_append, List.takeWhile_cons]
    split
    · next hc =>
      cases a with
      | nil =>
        obtain rfl : c = d := by simpa using ha
        exact absurd hc (by simp [hd])
      | cons e a => exact Nat.succ_lt_succ (ih (by simpa [List.getLast?_cons] using ha))
    · exact Nat.zero_lt_succ _

/-- **A reader that takes a minus only as the sign of an exponent**: behind it come digits and
nothing else. -/
def SignLast (f : List Char → List Char × List Char) : Prop :=
  ∀ {a rest : List Char}, a.getLast? = some '-' → a.length < (f (a ++ rest)).1.length →
    ∀ rest', f (a ++ rest') = (a ++ rest'.takeWhile Char.isDigit, rest'.dropWhile Char.isDigit)

/-- A reader that takes no minus. -/
def NoSign (f : List Char → List Char × List Char) : Prop := ∀ cs, '-' ∉ (f cs).1

/-- What takes no minus takes the same of a text that ends with one, whatever follows. -/
theorem Peeks.before_sign {f : List Char → List Char × List Char} (hf : Peeks f) (hsign : NoSign f)
    {a : List Char} (ha : a.getLast? = some '-') :
    (f a).2.getLast? = some '-' ∧ ∀ rest, f (a ++ rest) = ((f a).1, (f a).2 ++ rest) := by
  have happ := hf.append a
  have hno := hsign a
  rcases hx : f a with ⟨x, y⟩
  rw [hx] at happ hno
  simp only at happ hno ⊢
  subst happ
  cases y with
  | nil => exact absurd (List.mem_of_getLast? (by simpa using ha)) hno
  | cons c y =>
    rw [List.getLast?_append, List.getLast?_cons, Option.some_or] at ha
    refine ⟨by rw [List.getLast?_cons, ha], fun rest => ?_⟩
    rw [List.append_assoc]
    exact hf.frame hx rfl

/-- What stands before the exponent has no sign. -/
theorem SignLast.comp {f g : List Char → List Char × List Char} (hf : Peeks f) (hsign : NoSign f)
    (hg : SignLast g) : SignLast fun cs => ((f cs).1 ++ (g (f cs).2).1, (g (f cs).2).2) := by
  intro a rest ha hlength rest'
  obtain ⟨hlast, hframe⟩ := hf.before_sign hsign ha
  have happ := congrArg List.length (hf.append a)
  rw [List.length_append] at happ
  simp only [hframe, List.length_append] at hlength ⊢
  have hg' := @hg _ rest hlast (by omega) rest'
  rw [hg', ← List.append_assoc, hf.append]

theorem noSign_span {p : Char → Bool} (hp : p '-' = false) :
    NoSign fun cs => (cs.takeWhile p, cs.dropWhile p) := fun cs h =>
  absurd (List.mem_takeWhile_imp h) (by simp [hp])

theorem noSign_takePlaces {digit : Char → Bool} (hdigit : digit '-' = false) :
    NoSign (takePlaces digit) := by
  intro cs h
  cases cs with
  | nil => cases h
  | cons c r =>
    rw [takePlaces] at h
    split at h
    · next hc =>
      subst hc
      rcases List.mem_cons.mp h with h | h
      · cases h
      · exact absurd (List.mem_takeWhile_imp h) (by simp [hdigit])
    · cases h

theorem signLast_takeExponent : SignLast takeExponent := by
  intro a rest ha hlength rest'
  cases a with
  | nil => cases ha
  | cons c a =>
    rw [List.cons_append, takeExponent] at hlength ⊢
    split at hlength
    · next hc =>
      rw [if_pos hc]
      cases a with
      | nil =>
        obtain rfl : c = '-' := by simpa using ha
        rcases hc with hc | hc <;> cases hc
      | cons s a =>
        have hlast : (s :: a).getLast? = some '-' := by simpa [List.getLast?_cons] using ha
        simp only [List.cons_append, takeSign] at hlength ⊢
        by_cases hs : s = '+' ∨ s = '-'
        · rw [if_pos hs]
          cases a with
          | nil => rfl
          | cons d a =>
            have hlast' : (d :: a).getLast? = some '-' := by
              simpa [List.getLast?_cons] using hlast
            have := length_takeWhile_append hlast' (show Char.isDigit '-' = false by decide) rest
            rw [if_pos hs] at hlength
            simp only [List.length_append, List.length_cons, List.length_nil] at hlength this
            omega
        · have := length_takeWhile_append hlast (show Char.isDigit '-' = false by decide) rest
          rw [if_neg hs] at hlength
          simp only [List.length_append, List.length_cons, List.length_nil] at hlength this
          exact absurd this (by simpa using Nat.le_of_lt hlength)
    · exact absurd hlength (by simp)

theorem signLast_takeFraction {digit : Char → Bool} (hdigit : digit '-' = false) :
    SignLast (takeFraction digit) :=
  SignLast.comp (peeks_takePlaces digit) (noSign_takePlaces hdigit) signLast_takeExponent

theorem signLast_takeDigits {digit : Char → Bool} (hdigit : digit '-' = false) :
    SignLast (takeDigits digit) :=
  SignLast.comp (peeks_span digit) (noSign_span hdigit) (signLast_takeFraction hdigit)

theorem digitsOf_minus (mark : List Char) : digitsOf mark '-' = false := by
  unfold digitsOf
  split <;> decide

/-- **A number that goes on behind a minus** goes on with the digits there and no further. -/
theorem takeNumber_of_minus {c : Char} {a rest n r : List Char} (ha : a.getLast? = some '-')
    (hn : takeNumber c (a ++ rest) = (c :: n, r)) (hlength : a.length < n.length) (rest' : List Char) :
    takeNumber c (a ++ rest') =
      (c :: a ++ rest'.takeWhile Char.isDigit, rest'.dropWhile Char.isDigit) := by
  by_cases hc : c = '.'
  · subst hc
    rw [takeNumber_point] at hn ⊢
    refine @signLast_takeFraction Char.isDigit (by decide) ('.' :: a) rest ?_ ?_ rest'
    · simp [List.getLast?_cons, ha]
    · rw [List.cons_append, hn]
      exact Nat.succ_lt_succ hlength
  · have hmark : NoSign (takeMark c) := by
      intro cs h
      cases cs with
      | nil => cases h
      | cons x r =>
        rw [takeMark] at h
        split at h
        · next hx =>
          obtain rfl : '-' = x := by simpa using h
          rcases hx.2 with hx | hx <;> cases hx
        · cases h
    obtain ⟨hlast, hframe⟩ := (peeks_takeMark c).before_sign hmark ha
    have happ := (peeks_takeMark c).append a
    have hlen := congrArg List.length happ
    rw [List.length_append] at hlen
    rw [takeNumber_digit hc, hframe] at hn ⊢
    simp only [Prod.mk.injEq, List.cons.injEq, true_and] at hn
    have hlength' := congrArg List.length hn.1
    rw [List.length_append] at hlength'
    have hdigits := @signLast_takeDigits _ (digitsOf_minus (takeMark c a).1) _ rest hlast (by omega)
      rest'
    rw [hdigits, ← List.append_assoc, happ]
    rfl

/-! ## 2. Counts and units -/

/-- A number is a row of digits where no point, no exponent and no mark follows them. -/
theorem takeNumber_of_digits {c : Char} {ds rest : List Char} (hc : c.isDigit = true)
    (hds : ∀ d ∈ ds, d.isDigit = true)
    (hrest : ∀ d ∈ rest.head?, d.isDigit = false ∧ d ∉ ['.', 'e', 'E', 'x', 'X']) :
    takeNumber c (ds ++ rest) = (c :: ds, rest) := by
  have hpoint : c ≠ '.' := by
    rintro rfl
    cases hc
  have hends : EndsRun Char.isDigit rest := fun d hd => (hrest d hd).1
  have hmark : takeMark c (ds ++ rest) = ([], ds ++ rest) := by
    have hhead : ∀ x ∈ (ds ++ rest).head?, x ≠ 'x' ∧ x ≠ 'X' := by
      intro x hx
      cases ds with
      | nil =>
        have := (hrest x hx).2
        simp only [List.mem_cons, List.not_mem_nil, or_false, not_or] at this
        exact ⟨this.2.2.2.1, this.2.2.2.2⟩
      | cons d ds =>
        obtain rfl : d = x := by simpa using hx
        have hd := hds d List.mem_cons_self
        constructor <;> (rintro rfl; cases hd)
    cases h : ds ++ rest with
    | nil => rfl
    | cons x r =>
      obtain ⟨hx, hX⟩ := hhead x (by rw [h]; rfl)
      rw [takeMark, if_neg]
      rintro ⟨-, rfl | rfl⟩
      · exact hx rfl
      · exact hX rfl
  have hfraction : takeFraction Char.isDigit rest = ([], rest) := by
    cases rest with
    | nil => rfl
    | cons d r =>
      have hd := (hrest d rfl).2
      simp only [List.mem_cons, List.not_mem_nil, or_false, not_or] at hd
      simp [takeFraction, takePlaces, takeExponent, hd]
  rw [takeNumber_digit hpoint, hmark]
  show (c :: ([] ++ (takeDigits Char.isDigit (ds ++ rest)).1), (takeDigits Char.isDigit _).2) = _
  rw [takeDigits, takeWhile_run hds hends, dropWhile_run hds hends, hfraction]
  simp

/-- The letters of units. -/
def unitLetters : List Char := ['s', 'm', 'h', 'd', 'w', 'y']

/-- A complete duration begins with a unit. -/
theorem head_of_takeDuration {cs units rest : List Char}
    (h : takeDuration cs = (units, rest, true)) : ∃ u ∈ cs.head?, u ∈ unitLetters := by
  cases cs with
  | nil => simp [takeDuration] at h
  | cons c cs =>
    rw [takeDuration] at h
    split at h
    · next hc => exact ⟨c, rfl, hc⟩
    · simp at h

end PanelLint.Promql.Lexer

namespace PanelLint.Query

open PanelLint.Number (readNat?)
open PanelLint.Text PanelLint.Promql PanelLint.Promql.Lexer

/-! ## 3. Values that are durations -/

/-- **A duration that the parser accepts**: a value of that shape that the lexer takes as one token,
and whose counts make a length of time. -/
structure IsTime (v : List Char) : Prop where
  shape : isDuration v = true
  token : tokens v = .ok [.duration (String.ofList v), .finish]
  length : ∃ n, readDuration (String.ofList v) = .ok n

/-- A value of digits and units, in the two parts that the lexer reads. -/
structure Counted (c : Char) (ds units : List Char) : Prop where
  first : c.isDigit = true
  digits : ∀ d ∈ ds, d.isDigit = true
  units : takeDuration units = (units, [], true)

theorem unit_not_digit {u : Char} (h : u ∈ unitLetters) :
    u.isDigit = false ∧ u ∉ ['.', 'e', 'E', 'x', 'X'] := by
  have hall : unitLetters.all (fun u => !u.isDigit && !(['.', 'e', 'E', 'x', 'X'].contains u)) = true := by
    decide
  have hu := List.all_eq_true.mp hall u h
  simp only [Bool.and_eq_true, Bool.not_eq_true', List.contains_eq_mem, decide_eq_false_iff_not]
    at hu
  exact hu

theorem endsNumber_of_unit {u : Char} (h : u ∈ unitLetters) (rest : List Char) :
    endsNumber (u :: rest) = false := by
  have hall : unitLetters.all isWordStart = true := by decide
  simp [endsNumber, List.all_eq_true.mp hall u h]

section Counted

variable {c : Char} {ds units rest : List Char}

/-- The digits of a counted value are taken as a number, behind which its units come. -/
theorem Counted.units_head (h : Counted c ds units) : ∃ u us, units = u :: us ∧ u ∈ unitLetters := by
  obtain ⟨u, hu, hmem⟩ := head_of_takeDuration h.units
  obtain ⟨us, rfl⟩ := List.head?_eq_some_iff.mp hu
  exact ⟨u, us, rfl, hmem⟩

theorem Counted.endsNumber (h : Counted c ds units) (rest : List Char) :
    endsNumber (units ++ rest) = false := by
  obtain ⟨u, us, rfl, hu⟩ := h.units_head
  exact endsNumber_of_unit hu (us ++ rest)

theorem Counted.endsRun (h : Counted c ds units) (rest : List Char) :
    EndsRun Char.isDigit (units ++ rest) := by
  obtain ⟨u, us, rfl, hu⟩ := h.units_head
  exact endsRun_cons _ (unit_not_digit hu).1

/-- **A counted value is taken as a duration** before every text with which no word goes on. -/
theorem Counted.readNumber (h : Counted c ds units) (hrest : EndsRun isWordRest rest) :
    readNumber c (ds ++ units ++ rest) = .ok (.duration (String.ofList (c :: ds ++ units)), rest) := by
  have hn : takeNumber c (ds ++ (units ++ rest)) = (c :: ds, units ++ rest) := by
    refine takeNumber_of_digits h.first h.digits fun d hd => ?_
    obtain ⟨u, us, rfl, hu⟩ := h.units_head
    obtain rfl : u = d := by simpa using hd
    exact unit_not_digit hu
  unfold Lexer.readNumber
  rw [List.append_assoc]
  simp only [hn, h.endsNumber, takeDuration_append_of_endsRun h.units hrest, if_true]
  rfl

/-- **A number that ends with the sign of its exponent goes on into a counted value**, and all of
both is taken as a duration. -/
theorem Counted.readNumber_exponent {e : Char} {a n r rest' : List Char} (h : Counted c ds units)
    (ha : a.getLast? = some '-') (hn : takeNumber e (a ++ rest') = (e :: n, r))
    (hlength : a.length < n.length) (hrest : EndsRun isWordRest rest) :
    Lexer.readNumber e (a ++ (c :: ds ++ units ++ rest)) =
      .ok (.duration (String.ofList (e :: a ++ (c :: ds ++ units))), rest) := by
  have hdigits : ∀ d ∈ c :: ds, d.isDigit = true := by
    intro d hd
    rcases List.mem_cons.mp hd with rfl | hd
    · exact h.first
    · exact h.digits d hd
  have hn' := takeNumber_of_minus ha hn hlength (c :: ds ++ (units ++ rest))
  rw [takeWhile_run hdigits (h.endsRun rest), dropWhile_run hdigits (h.endsRun rest)] at hn'
  unfold Lexer.readNumber
  rw [List.append_assoc]
  simp only [hn', h.endsNumber, takeDuration_append_of_endsRun h.units hrest, if_true]
  simp

end Counted

variable {v : List Char}

/-- The characters of durations. -/
theorem char_of_isDuration (h : isDuration v = true) :
    ∀ d ∈ v, isDigit d = true ∨ d ∈ unitLetters := by
  unfold isDuration at h
  cases hf : v.foldlM DurationState.step .count with
  | none => rw [hf] at h; exact absurd h (by simp)
  | some s =>
    refine forall_mem_of_foldlM (fun state d state' hstep => ?_) v _ s hf
    cases hd : isDigit d with
    | true => exact Or.inl rfl
    | false =>
      right
      cases state <;> simp only [DurationState.step, hd] at hstep <;> simp only [unitLetters] <;> grind

/-- A duration begins with a digit. -/
theorem head_of_isDuration {c : Char} {w : List Char} (h : isDuration (c :: w) = true) :
    isDigit c = true := by
  cases hc : isDigit c with
  | true => rfl
  | false => simp [isDuration, DurationState.step, hc] at h

theorem ascii_of_isNumberChar {d : Char} (h : isNumberChar d = true) : d.toNat < 0x80 := by
  simp only [isNumberChar, glues, isWordRest, Char.isAlphanum, Bool.or_eq_true, beq_iff_eq] at h
  rcases h with ((((h | h) | rfl) | rfl) | rfl) | rfl
  · have := isAlpha_iff.mp h
    show d.val.toNat < 0x80
    omega
  · simp only [Char.isDigit, Bool.and_eq_true, decide_eq_true_eq, ge_iff_le, UInt32.le_iff_toNat_le] at h
    have h9 : '9'.val.toNat = 57 := rfl
    show d.val.toNat < 0x80
    omega
  all_goals decide

/-- A duration may end only behind a unit. -/
theorem unit_of_step {state state' : DurationState} {u : Char} (h : state.step u = some state')
    (hend : state' ≠ .digits) : u ∈ unitLetters := by
  cases state <;> simp only [DurationState.step] at h <;> simp only [unitLetters] <;> grind

/-- The last character of a duration is a letter of a unit. -/
theorem last_of_isDuration (h : isDuration v = true) : ∃ u ∈ v.getLast?, u ∈ unitLetters := by
  obtain rfl | ⟨w, u, rfl⟩ := List.eq_nil_or_concat v
  · cases h
  · refine ⟨u, by simp, ?_⟩
    rw [List.concat_eq_append, isDuration, List.foldlM_append] at h
    cases hw : w.foldlM DurationState.step .count with
    | none => simp [hw] at h
    | some state =>
      cases hu : state.step u with
      | none => simp [hw, hu] at h
      | some state' =>
        refine unit_of_step hu ?_
        rintro rfl
        simp [hw, hu] at h

theorem isWordRest_of_unit {u : Char} (h : u ∈ unitLetters) : isWordRest u = true := by
  have hall : unitLetters.all isWordRest = true := by decide
  exact List.all_eq_true.mp hall u h

/-- A character of a duration goes on words, or else it is a digit of another script. -/
theorem wide_of_not_isWordRest {d : Char} (h : isDigit d = true ∨ d ∈ unitLetters)
    (hd : isWordRest d = false) : 0x80 ≤ d.toNat := by
  by_contra hascii
  rcases h with h | h
  · rw [isDigit_of_ascii (by omega)] at h
    rw [isWordRest_of_isDigit h] at hd
    cases hd
  · rw [isWordRest_of_unit h] at hd
    cases hd

theorem not_isDigit_of_mark {c : Char} {m : List Char × Token × List Char}
    (hm : m ∈ marks .plain ++ marks .braces) (hc : c ∈ m.1) : c.isDigit = false := by
  have hall : (marks .plain ++ marks .braces).all (fun m => m.1.all fun d => !d.isDigit) = true := by
    decide
  simpa using List.all_eq_true.mp (List.all_eq_true.mp hall m hm) c hc

/-- What begins with a digit is a number or a duration, and does not stand in braces. -/
theorem number_of_isDigit {s s' : State} {c : Char} {w rest : List Char} {t : Option Token}
    (h : Took s (c :: w) t s' rest) (hc : c.isDigit = true) :
    s.mode ≠ .braces ∧ ∃ u, Lexer.readNumber c (w ++ rest) = .ok (u, rest) := by
  cases h with
  | blank hspace =>
    exact absurd (isSpace_iff.mp hspace) (not_mem_of_class (p := Char.isDigit) (by decide) hc)
  | mark hw _ => rw [not_isDigit_of_mark (mem_all_marks hw) List.mem_cons_self] at hc; cases hc
  | number hb hr =>
    refine ⟨?_, _, hr⟩
    rcases hb with ⟨-, hm⟩ | ⟨-, rfl, -⟩
    · exact hm
    · cases hc
  | string _ hq _ => rcases isQuote_iff.mp hq with rfl | rfl | rfl <;> cases hc
  | word _ hd _ _ => rw [hd] at hc; cases hc
  | label _ hstart _ _ _ => rw [not_isDigit_of_isWordStart hstart] at hc; cases hc
  | or _ ho _ _ => rcases ho with rfl | rfl <;> cases hc
  | _ => cases hc

/-- **Every step begins with an ASCII character.** -/
theorem not_wide_of_took {s s' : State} {c : Char} {w rest : List Char} {t : Option Token}
    (h : Took s (c :: w) t s' rest) : c.toNat < 0x80 := by
  cases h with
  | blank hspace =>
    have hall : spaces.all (fun d => d.toNat < 0x80) = true := by decide
    simpa using List.all_eq_true.mp hall c (isSpace_iff.mp hspace)
  | mark hw _ =>
    have hall : (marks .plain ++ marks .braces).all (fun m => m.1.all (·.toNat < 0x80)) = true := by
      decide
    have hm := List.all_eq_true.mp hall _ (mem_all_marks hw)
    simpa using List.all_eq_true.mp hm c List.mem_cons_self
  | number hb _ =>
    rcases hb with ⟨hd, -⟩ | ⟨-, rfl, -⟩
    · exact ascii_of_isNumberChar (isNumberChar_of_isDigit hd)
    · decide
  | string _ hq _ => rcases isQuote_iff.mp hq with rfl | rfl | rfl <;> decide
  | word _ _ hw _ =>
    have hname := hw c List.mem_cons_self
    rw [isNameRest, Bool.or_eq_true, beq_iff_eq] at hname
    rcases hname with hname | rfl
    · exact ascii_of_isNumberChar (isNumberChar_of_isWordRest hname)
    · decide
  | label _ hstart _ _ _ =>
    exact ascii_of_isNumberChar (isNumberChar_of_isWordRest (isWordRest_of_isWordStart hstart))
  | or _ ho _ _ => rcases ho with rfl | rfl <;> decide
  | _ => decide

/-- No token of a text begins with a character beyond ASCII. -/
theorem tokensFrom_wide {s : State} {d : Char} {cs : List Char} {ts : List Token}
    (hd : 0x80 ≤ d.toNat) : tokensFrom s (d :: cs) ≠ .ok ts := by
  intro h
  obtain ⟨t, s', rest, us, hstep, -⟩ := exists_step_of_tokensFrom h
  obtain ⟨w, -, htook⟩ := took_of_step hstep
  have := not_wide_of_took htook
  omega

/-- Behind a complete duration no word goes on. -/
theorem endsRun_of_takeUnits {state : Lexer.DurationState} {cs x rest : List Char}
    (h : takeUnits state cs = (x, rest, true)) : EndsRun Lexer.isWordRest rest := by
  induction cs generalizing state x with
  | nil =>
    simp only [takeUnits, Prod.mk.injEq] at h
    obtain ⟨-, rfl, -⟩ := h
    exact endsRun_nil
  | cons c cs ih =>
    rw [takeUnits] at h
    cases hn : state.next? c with
    | none =>
      simp only [hn, Prod.mk.injEq, Bool.and_eq_true, Bool.not_eq_true'] at h
      obtain ⟨-, rfl, -, hc⟩ := h
      exact endsRun_cons cs hc
    | some state' =>
      simp only [hn, Prod.mk.injEq] at h
      exact ih (Prod.ext rfl (Prod.ext h.2.1 h.2.2))

theorem endsRun_of_takeDuration {cs units rest : List Char}
    (h : takeDuration cs = (units, rest, true)) : EndsRun Lexer.isWordRest rest := by
  cases cs with
  | nil => simp [takeDuration] at h
  | cons c cs =>
    rw [takeDuration] at h
    split at h
    · simp only [Prod.mk.injEq] at h
      exact endsRun_of_takeUnits (Prod.ext rfl (Prod.ext h.2.1 h.2.2))
    · simp at h

/-- What is complete before a text is complete at the end. -/
theorem takeUnits_alone {state : Lexer.DurationState} {x rest : List Char}
    (h : takeUnits state (x ++ rest) = (x, rest, true)) : takeUnits state x = (x, [], true) := by
  induction x generalizing state with
  | nil =>
    cases rest with
    | nil => exact h
    | cons c rest =>
      rw [List.nil_append, takeUnits] at h
      cases hn : state.next? c with
      | none =>
        simp only [hn, Prod.mk.injEq, Bool.and_eq_true] at h
        rw [takeUnits, h.2.2.1]
      | some state' => simp [hn] at h
  | cons c x ih =>
    rw [List.cons_append, takeUnits] at h
    rw [takeUnits]
    cases hn : state.next? c with
    | none => simp [hn] at h
    | some state' =>
      simp only [hn, Prod.mk.injEq, List.cons.injEq, true_and] at h ⊢
      rw [ih (Prod.ext h.1 (Prod.ext h.2.1 h.2.2))]
      exact ⟨rfl, rfl, rfl⟩

theorem takeDuration_alone {units rest : List Char}
    (h : takeDuration (units ++ rest) = (units, rest, true)) :
    takeDuration units = (units, [], true) := by
  cases units with
  | nil => exact absurd rfl (isWordRest_of_takeDuration h).1
  | cons c units =>
    rw [List.cons_append, takeDuration] at h
    rw [takeDuration]
    split at h
    · next hc =>
      rw [if_pos hc]
      simp only [Prod.mk.injEq, List.cons.injEq, true_and] at h ⊢
      rw [takeUnits_alone (Prod.ext h.1 (Prod.ext h.2.1 h.2.2))]
      exact ⟨rfl, rfl, rfl⟩
    · simp at h

/-- Where no digit of another script stops it, a duration takes all characters of this kind. -/
theorem takeDuration_all {w rest rest' units : List Char}
    (hchars : ∀ d ∈ w, isDigit d = true ∨ d ∈ unitLetters) (hrest : EndsRun Lexer.isWordRest rest)
    (h : takeDuration (w ++ rest) = (units, rest', true))
    (hstop : ∀ d ∈ rest'.head?, d.toNat < 0x80) : takeDuration w = (w, [], true) := by
  have happ := takeDuration_append (w ++ rest)
  rw [h] at happ
  suffices hall : units = w ∧ rest' = rest by
    obtain ⟨rfl, rfl⟩ := hall
    exact takeDuration_alone h
  rcases List.append_eq_append_iff.mp happ with ⟨a, rfl, rfl⟩ | ⟨a, rfl, rfl⟩
  · -- what stops it in the text goes on no word, so it is a digit of another script
    cases a with
    | nil => simp
    | cons d a =>
      have hd := endsRun_of_takeDuration h d rfl
      have hwide := wide_of_not_isWordRest (hchars d (by simp)) hd
      have := hstop d rfl
      omega
  · -- it takes nothing of what follows
    cases a with
    | nil => simp
    | cons d a =>
      have hd := (isWordRest_of_takeDuration h).2 d (by simp)
      rw [hrest d rfl] at hd
      cases hd

/-- Behind the digits that a value of this shape begins with stands something else. -/
theorem exists_digits_of_isDuration {c : Char} {w : List Char} (h : isDuration (c :: w) = true)
    (hc : c.isDigit = true) : ∃ ds d x, w = ds ++ d :: x ∧ (∀ e ∈ ds, e.isDigit = true) ∧
      d.isDigit = false := by
  obtain ⟨d, x, hx⟩ : ∃ d x, w.dropWhile Char.isDigit = d :: x := by
    refine List.exists_cons_of_ne_nil fun hnil => ?_
    -- the letter at the end is no digit
    obtain ⟨u, hlast, hunit⟩ := last_of_isDuration h
    have hall : ∀ e ∈ c :: w, e.isDigit = true := by
      rw [List.forall_mem_cons]
      exact ⟨hc, List.dropWhile_eq_nil_iff.mp hnil⟩
    exact absurd (hall u (List.mem_of_getLast? hlast)) (by simp [(unit_not_digit hunit).1])
  refine ⟨w.takeWhile Char.isDigit, d, x, ?_, fun e he => List.mem_takeWhile_imp he, ?_⟩
  · rw [← hx, List.takeWhile_append_dropWhile]
  · exact endsRun_dropWhile Char.isDigit w d (by rw [hx]; rfl)

/-- **A value of this shape has tokens only if it is a row of digits and then units**, before every
text with which no word goes on. -/
theorem exists_counted_of_tokensFrom {s : State} {rest : List Char} {ts : List Token}
    (hshape : isDuration v = true) (hrest : EndsRun Lexer.isWordRest rest)
    (h : tokensFrom s (v ++ rest) = .ok ts) :
    ∃ c ds units, v = c :: ds ++ units ∧ Counted c ds units := by
  cases v with
  | nil => cases hshape
  | cons c w =>
    have hchars : ∀ d ∈ c :: w, isDigit d = true ∨ d ∈ unitLetters := char_of_isDuration hshape
    have hdigit := head_of_isDuration hshape
    obtain ⟨t, s', rest', us, hstep, htokens, -⟩ := exists_step_of_tokensFrom h
    obtain ⟨y, hy, htook⟩ := took_of_step hstep
    rw [isDigit_of_ascii (not_wide_of_took htook)] at hdigit
    obtain ⟨hm, token, hread⟩ := number_of_isDigit htook hdigit
    rw [← hy] at hread
    obtain ⟨ds, d, x, rfl, hds, hd⟩ := exists_digits_of_isDuration hshape hdigit
    have htail : ∀ e ∈ d :: x, isDigit e = true ∨ e ∈ unitLetters := fun e he =>
      hchars e (List.mem_cons_of_mem c (List.mem_append_right _ he))
    have hnumber : takeNumber c (ds ++ d :: x ++ rest) = (c :: ds, d :: x ++ rest) := by
      rw [List.append_assoc]
      refine takeNumber_of_digits hdigit hds fun e he => ?_
      obtain rfl : d = e := by simpa using he
      refine ⟨hd, fun hmark => ?_⟩
      rcases htail d List.mem_cons_self with hwide | hunit
      · exact not_mem_of_class (p := isDigit) (by decide) hwide hmark
      · exact (unit_not_digit hunit).2 hmark
    have hstop : ∀ e ∈ rest'.head?, e.toNat < 0x80 := by
      intro e he
      obtain ⟨r, rfl⟩ := List.head?_eq_some_iff.mp he
      exact Nat.lt_of_not_le fun hwide => tokensFrom_wide hwide htokens
    obtain ⟨n, hn, hends, -, -⟩ | ⟨n, r, units, hn, -, -, hunits, -, -⟩ := readNumber_eq_ok hread
    · rw [List.append_eq, hnumber] at hn
      obtain ⟨-, rfl⟩ := Prod.mk.inj hn
      -- a number ends before no letter, so a digit of another script stands there
      rcases htail d List.mem_cons_self with hwide | hunit
      · rw [isDigit_of_ascii (hstop d rfl), hd] at hwide
        cases hwide
      · rw [List.cons_append, endsNumber_of_unit hunit] at hends
        cases hends
    · rw [List.append_eq, hnumber] at hn
      obtain ⟨-, rfl⟩ := Prod.mk.inj hn
      exact ⟨c, ds, d :: x, rfl, hdigit, hds, takeDuration_all htail hrest hunits hstop⟩

/-- **A duration that the parser accepts is a row of digits and then units.** -/
theorem IsTime.exists_counted (h : IsTime v) :
    ∃ c ds units, v = c :: ds ++ units ∧ Counted c ds units := by
  have htoken := h.token
  rw [tokens, ← List.append_nil v] at htoken
  exact exists_counted_of_tokensFrom h.shape endsRun_nil htoken

/-- All characters of a duration go on words. -/
theorem IsTime.isWordRest (h : IsTime v) : ∀ d ∈ v, isWordRest d = true := by
  obtain ⟨c, ds, units, rfl, hcount⟩ := h.exists_counted
  intro d hd
  rcases List.mem_append.mp hd with hd | hd
  · rcases List.mem_cons.mp hd with rfl | hd
    · exact isWordRest_of_isDigit hcount.first
    · exact isWordRest_of_isDigit (hcount.digits d hd)
  · exact (isWordRest_of_takeDuration hcount.units).2 d hd

/-- **A duration is taken as one token** before every text with which no word goes on. -/
theorem IsTime.readNumber (h : IsTime v) : ∃ c w, v = c :: w ∧ c.isDigit = true ∧
    ∀ {rest}, EndsRun Lexer.isWordRest rest →
      Lexer.readNumber c (w ++ rest) = .ok (.duration (String.ofList v), rest) := by
  obtain ⟨c, ds, units, rfl, hcount⟩ := h.exists_counted
  exact ⟨c, ds ++ units, rfl, hcount.first, fun hrest => hcount.readNumber hrest⟩

/-- Five minutes, which are written where no value fits. -/
theorem isTime_plain : IsTime "5m".toList where
  shape := by decide
  token := by
    have hstep : step {} '5' ['m'] = .ok (some (.duration "5m"), {}, []) := by decide +kernel
    show tokensFrom {} ['5', 'm'] = _
    rw [tokensFrom_step hstep, tokensFrom]
    rfl
  length := ⟨300000, readDuration_plain⟩

/-! ## 4. No duration holds a sign -/

theorem not_mem_minus_of_sumCounts {us : List (List Char × Nat)}
    {counts : List (List Char × List Char)} {n : Nat} (hus : ∀ u ∈ us, '-' ∉ u.1)
    (h : sumCounts us counts = some n) : '-' ∉ counts.flatMap fun p => p.1 ++ p.2 := by
  fun_induction sumCounts us counts generalizing n with
  | case1 => simp
  | case2 => cases h
  | case3 => cases h
  | case4 length us digits unit counts k hread ih =>
    obtain ⟨m, hm, rfl⟩ := Option.map_eq_some_iff.mp h
    have hrest := ih (fun u hu => hus u (List.mem_cons_of_mem _ hu)) hm
    have hunit := hus _ List.mem_cons_self
    have hdigits : '-' ∉ digits := by
      intro hmem
      unfold readNat? at hread
      split at hread
      · cases hread
      · next hall =>
        simp only [Bool.or_eq_true, Bool.not_eq_true', not_or, Bool.not_eq_false,
          List.all_eq_true] at hall
        exact absurd (hall.2 _ hmem) (by decide)
    simp only [List.flatMap_cons, List.mem_append, not_or]
    exact ⟨⟨hdigits, hunit⟩, hrest⟩
  | case5 name length us digits unit counts hne ih =>
    exact ih (fun u hu => hus u (List.mem_cons_of_mem _ hu)) h

/-- A text with a sign in it is no duration. -/
theorem plainSpelling_of_minus {text : String} (h : '-' ∈ text.toList) : plainSpelling text = "" := by
  unfold plainSpelling
  cases hr : readDuration text with
  | error e => rfl
  | ok n =>
    exfalso
    unfold readDuration at hr
    dsimp only at hr
    split at hr
    · cases hr
    · cases hr
    · next hsome =>
      obtain ⟨counts, hcounts, hsum⟩ := Option.bind_eq_some_iff.mp hsome
      have hno := not_mem_minus_of_sumCounts (by decide) hsum
      rw [← spelled, spelled_of_countsOf hcounts] at hno
      exact hno h

end PanelLint.Query
