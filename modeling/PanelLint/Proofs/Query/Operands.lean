import PanelLint.Proofs.Query.Lexemes
import PanelLint.Proofs.Query.Relevance
import PanelLint.Proofs.Query.Times
/-!
# Operands that are written into a query

Where a scalar is due a reference becomes the selected value if that has the shape of a number, and in
an ordinary expression an identifier will do as well.  If the value has no such shape, the number one
stands in for it in the first case, and a name made of that of the variable in the second.  PromQL knows
the digits and letters of ASCII only.  The shape of a number takes the digits of every script, and the
name of a variable may have letters of every script; both are written as they are.

* `isNumber_iff`: the shape of a number, as a grammar over the digits of every script;
* `isNumeral_iff`: the numbers of PromQL are those of this shape that are written in ASCII;
* `isName_placeholder_iff`: a placeholder is a name just if the variable has a name in ASCII;
* `operands_written`: what is written for a reference is a number or a name, just where neither the
  digits of the value nor the letters of the name are foreign.
-/

namespace PanelLint.Query

open PanelLint.Text PanelLint.Promql.Lexer

variable {name t v : List Char} {value : Option (List Char)}

/-! ## 1. The grammar of decimal numbers -/

section Grammar

variable (digit : Char → Bool)

/-- Nothing, or a sign. -/
def signs : List (List Char) := [[], ['+'], ['-']]

/-- Digits, with a point before, between or behind them if need be. -/
inductive IsMantissa : List Char → Prop
  | whole {w : List Char} : IsRun digit w → IsMantissa w
  | fraction {w f : List Char} : IsRun digit w → (∀ c ∈ f, digit c = true) →
      IsMantissa (w ++ '.' :: f)
  | point {f : List Char} : IsRun digit f → IsMantissa ('.' :: f)

/-- Nothing, or the mark of an exponent and digits with a sign if need be. -/
inductive IsExponent : List Char → Prop
  | none : IsExponent []
  | power {mark : Char} {sign ds : List Char} : mark = 'e' ∨ mark = 'E' → sign ∈ signs →
      IsRun digit ds → IsExponent (mark :: (sign ++ ds))

/-- **A decimal number**, signed if need be, with the digits of some class. -/
inductive IsDecimal : List Char → Prop
  | mk {sign m e : List Char} : sign ∈ signs → IsMantissa digit m → IsExponent digit e →
      IsDecimal (sign ++ (m ++ e))

end Grammar

/-- **A decimal number of PromQL**: its digits are those of ASCII. -/
abbrev IsNumeral (t : List Char) : Prop := IsDecimal Char.isDigit t

section Classes

variable {p q : Char → Bool}

theorem isRun_mono (h : IsRun p t) (hpq : ∀ c ∈ t, p c = true → q c = true) : IsRun q t :=
  ⟨h.1, fun c hc => hpq c hc (h.2 c hc)⟩

theorem IsMantissa.mono (h : IsMantissa p t) (hpq : ∀ c ∈ t, p c = true → q c = true) :
    IsMantissa q t := by
  cases h with
  | whole hw => exact .whole (isRun_mono hw hpq)
  | fraction hw hf =>
    refine .fraction (isRun_mono hw fun c hc => hpq c (by simp [hc])) fun c hc => ?_
    exact hpq c (by simp [hc]) (hf c hc)
  | point hf => exact .point (isRun_mono hf fun c hc => hpq c (by simp [hc]))

theorem IsExponent.mono (h : IsExponent p t) (hpq : ∀ c ∈ t, p c = true → q c = true) :
    IsExponent q t := by
  cases h with
  | none => exact .none
  | power hmark hsign hds =>
    exact .power hmark hsign (isRun_mono hds fun c hc => hpq c (by simp [hc]))

/-- A number is one over every class that has its digits. -/
theorem IsDecimal.mono (h : IsDecimal p t) (hpq : ∀ c ∈ t, p c = true → q c = true) :
    IsDecimal q t := by
  obtain ⟨hsign, hm, he⟩ := h
  exact .mk hsign (hm.mono fun c hc => hpq c (by simp [hc])) (he.mono fun c hc => hpq c (by simp [hc]))

theorem mem_numberMarks_of_sign {sign : List Char} (h : sign ∈ signs) : ∀ c ∈ sign, c ∈ numberMarks := by
  have hall : signs.all (fun sign => sign.all (numberMarks.elem ·)) = true := by decide
  intro c hc
  simpa using List.all_eq_true.mp (List.all_eq_true.mp hall sign h) c hc

theorem IsMantissa.char (h : IsMantissa p t) : ∀ c ∈ t, p c = true ∨ c ∈ numberMarks := by
  have hpoint : '.' ∈ numberMarks := by decide
  intro c hc
  cases h with
  | whole hw => exact Or.inl (hw.2 c hc)
  | fraction hw hf =>
    rcases List.mem_append.mp hc with hc | hc
    · exact Or.inl (hw.2 c hc)
    · rcases List.mem_cons.mp hc with rfl | hc
      · exact Or.inr hpoint
      · exact Or.inl (hf c hc)
  | point hf =>
    rcases List.mem_cons.mp hc with rfl | hc
    · exact Or.inr hpoint
    · exact Or.inl (hf.2 c hc)

theorem IsExponent.char (h : IsExponent p t) : ∀ c ∈ t, p c = true ∨ c ∈ numberMarks := by
  intro c hc
  cases h with
  | none => cases hc
  | power hmark hsign hds =>
    rcases List.mem_cons.mp hc with rfl | hc
    · rcases hmark with rfl | rfl <;> exact Or.inr (by decide)
    · rcases List.mem_append.mp hc with hc | hc
      · exact Or.inr (mem_numberMarks_of_sign hsign c hc)
      · exact Or.inl (hds.2 c hc)

/-- The characters of a number are digits and marks. -/
theorem IsDecimal.char (h : IsDecimal p t) : ∀ c ∈ t, p c = true ∨ c ∈ numberMarks := by
  obtain ⟨hsign, hm, he⟩ := h
  intro c hc
  rcases List.mem_append.mp hc with hc | hc
  · exact Or.inr (mem_numberMarks_of_sign hsign c hc)
  · rcases List.mem_append.mp hc with hc | hc
    · exact hm.char c hc
    · exact he.char c hc

end Classes

/-! ## 2. The machine reads the grammar -/

/-- Whether the machine comes from a state to the end of a number. -/
def NumberState.accepts (s : NumberState) (t : List Char) : Bool :=
  match t.foldlM NumberState.step s with
  | some .whole => true
  | some .fraction => true
  | some .exponent => true
  | _ => false

theorem accepts_cons (s : NumberState) (c : Char) (t : List Char) :
    s.accepts (c :: t) = (s.step c).any (·.accepts t) := by
  unfold NumberState.accepts
  rw [List.foldlM_cons]
  cases s.step c <;> rfl

/-- A state that the machine keeps on digits is left at the first other character. -/
theorem accepts_digits {s : NumberState} {ds : List Char}
    (hs : ∀ c, isDigit c = true → s.step c = some s) (hds : ∀ c ∈ ds, isDigit c = true) :
    s.accepts (ds ++ t) = s.accepts t := by
  induction ds with
  | nil => rfl
  | cons c ds ih =>
    obtain ⟨hc, hds⟩ := List.forall_mem_cons.mp hds
    rw [List.cons_append, accepts_cons, hs c hc]
    exact ih hds

/-- The digits at the front of a text. -/
theorem exists_digits (t : List Char) :
    ∃ ds rest, (∀ c ∈ ds, isDigit c = true) ∧ EndsRun isDigit rest ∧ t = ds ++ rest :=
  ⟨t.takeWhile isDigit, t.dropWhile isDigit, fun _ hc => List.mem_takeWhile_imp hc,
    endsRun_dropWhile isDigit t, List.takeWhile_append_dropWhile.symm⟩

theorem accepts_exponent_iff :
    NumberState.exponent.accepts t = true ↔ ∀ c ∈ t, isDigit c = true := by
  obtain ⟨ds, rest, hds, hrest, rfl⟩ := exists_digits t
  rw [accepts_digits (fun c hc => by simp [NumberState.step, hc]) hds, List.forall_mem_append]
  cases rest with
  | nil => exact iff_of_true rfl ⟨hds, by simp⟩
  | cons c rest => simp [accepts_cons, NumberState.step, hrest c rfl]

theorem accepts_markSigned_iff : NumberState.markSigned.accepts t = true ↔ IsRun isDigit t := by
  cases t with
  | nil => exact iff_of_false (by decide) (fun h => h.1 rfl)
  | cons c t =>
    rw [accepts_cons, IsRun, List.forall_mem_cons, ← accepts_exponent_iff]
    simp only [NumberState.step]
    split <;> simp_all

/-- Behind the mark of an exponent stand digits, with a sign if need be. -/
theorem accepts_mark_iff : NumberState.mark.accepts t = true ↔
    ∃ sign ∈ signs, ∃ ds, IsRun isDigit ds ∧ t = sign ++ ds := by
  have hplain : ∀ {c : Char} {ds : List Char}, isDigit c = true →
      NumberState.mark.accepts (c :: ds) = NumberState.exponent.accepts ds := by
    intro c ds hc
    have hne : ¬ (c = '+' ∨ c = '-') := by rintro (rfl | rfl) <;> exact absurd hc (by decide)
    rw [accepts_cons, NumberState.step, if_neg hne, if_pos hc]
    rfl
  constructor
  · intro h
    cases t with
    | nil => cases h
    | cons c t =>
      by_cases hsign : c = '+' ∨ c = '-'
      · rw [accepts_cons, NumberState.step, if_pos hsign] at h
        refine ⟨[c], ?_, t, accepts_markSigned_iff.mp h, rfl⟩
        rcases hsign with rfl | rfl <;> decide
      · have hc : isDigit c = true := by
          by_contra hc
          rw [accepts_cons, NumberState.step, if_neg hsign, if_neg hc] at h
          cases h
        rw [hplain hc, accepts_exponent_iff] at h
        exact ⟨[], by decide, c :: t, ⟨by simp, List.forall_mem_cons.mpr ⟨hc, h⟩⟩, rfl⟩
  · rintro ⟨sign, hsign, ds, hds, rfl⟩
    simp only [signs, List.mem_cons, List.not_mem_nil, or_false] at hsign
    rcases hsign with rfl | rfl | rfl
    · obtain ⟨c, ds, rfl⟩ := List.exists_cons_of_ne_nil hds.1
      obtain ⟨hc, hds⟩ := List.forall_mem_cons.mp hds.2
      rw [List.nil_append, hplain hc]
      exact accepts_exponent_iff.mpr hds
    · exact accepts_markSigned_iff.mpr hds
    · exact accepts_markSigned_iff.mpr hds

theorem isExponent_cons_iff {c : Char} : IsExponent isDigit (c :: t) ↔
    (c = 'e' ∨ c = 'E') ∧ NumberState.mark.accepts t = true := by
  rw [accepts_mark_iff]
  constructor
  · intro h
    cases h with
    | power hmark hsign hds => exact ⟨hmark, _, hsign, _, hds, rfl⟩
  · rintro ⟨hmark, sign, hsign, ds, hds, rfl⟩
    exact .power hmark hsign hds

theorem IsExponent.endsRun (h : IsExponent isDigit t) : EndsRun isDigit t := by
  cases h with
  | none => exact endsRun_nil
  | power hmark _ _ => rcases hmark with rfl | rfl <;> exact endsRun_cons _ (by decide)

/-- Behind the point stand digits, and an exponent if need be. -/
theorem accepts_fraction_iff : NumberState.fraction.accepts t = true ↔
    ∃ f e, (∀ c ∈ f, isDigit c = true) ∧ IsExponent isDigit e ∧ t = f ++ e := by
  have hloop : ∀ c, isDigit c = true → NumberState.fraction.step c = some .fraction :=
    fun c hc => by simp [NumberState.step, hc]
  -- behind all the digits only an exponent may follow
  have hend : ∀ {rest : List Char}, EndsRun isDigit rest →
      (NumberState.fraction.accepts rest = true ↔ IsExponent isDigit rest) := by
    intro rest hrest
    cases rest with
    | nil => exact iff_of_true rfl .none
    | cons c rest =>
      rw [isExponent_cons_iff, accepts_cons]
      simp only [NumberState.step, hrest c rfl]
      by_cases hmark : c = 'e' ∨ c = 'E' <;> simp [hmark]
  constructor
  · intro h
    obtain ⟨ds, rest, hds, hrest, rfl⟩ := exists_digits t
    rw [accepts_digits hloop hds, hend hrest] at h
    exact ⟨ds, rest, hds, h, rfl⟩
  · rintro ⟨f, e, hf, he, rfl⟩
    rw [accepts_digits hloop hf]
    exact (hend he.endsRun).mpr he

theorem accepts_point_iff : NumberState.point.accepts t = true ↔
    ∃ f e, IsRun isDigit f ∧ IsExponent isDigit e ∧ t = f ++ e := by
  constructor
  · intro h
    cases t with
    | nil => cases h
    | cons c t =>
      have hc : isDigit c = true := by
        by_contra hc
        rw [accepts_cons, NumberState.step, if_neg hc] at h
        cases h
      rw [accepts_cons, NumberState.step, if_pos hc] at h
      obtain ⟨f, e, hf, he, rfl⟩ := accepts_fraction_iff.mp h
      exact ⟨c :: f, e, ⟨by simp, List.forall_mem_cons.mpr ⟨hc, hf⟩⟩, he, rfl⟩
  · rintro ⟨f, e, ⟨hne, hf⟩, he, rfl⟩
    obtain ⟨c, f, rfl⟩ := List.exists_cons_of_ne_nil hne
    obtain ⟨hc, hf⟩ := List.forall_mem_cons.mp hf
    rw [List.cons_append, accepts_cons, NumberState.step, if_pos hc]
    exact accepts_fraction_iff.mpr ⟨f, e, hf, he, rfl⟩

/-- Behind the first digits stand a point, an exponent, or both, or nothing. -/
theorem accepts_whole_iff {ds : List Char} (hds : ∀ c ∈ ds, isDigit c = true) {rest : List Char}
    (hrest : EndsRun isDigit rest) : NumberState.whole.accepts (ds ++ rest) = true ↔
      IsExponent isDigit rest ∨ ∃ f e, (∀ c ∈ f, isDigit c = true) ∧ IsExponent isDigit e ∧
        rest = '.' :: (f ++ e) := by
  rw [accepts_digits (fun c hc => by simp [NumberState.step, hc]) hds]
  cases rest with
  | nil => exact iff_of_true rfl (Or.inl .none)
  | cons c rest =>
    rw [isExponent_cons_iff, accepts_cons]
    simp only [NumberState.step, hrest c rfl]
    by_cases hpoint : c = '.'
    · subst hpoint
      simpa using accepts_fraction_iff
    · by_cases hmark : c = 'e' ∨ c = 'E' <;> simp [hpoint, hmark]

theorem accepts_signed_iff : NumberState.signed.accepts t = true ↔
    ∃ m e, IsMantissa isDigit m ∧ IsExponent isDigit e ∧ t = m ++ e := by
  have hpoint : isDigit '.' = false := by decide
  constructor
  · intro h
    cases t with
    | nil => cases h
    | cons c t =>
      rw [accepts_cons, NumberState.step] at h
      split at h
      · next hc =>
        obtain ⟨ds, rest, hds, hrest, rfl⟩ := exists_digits t
        have hrun : IsRun isDigit (c :: ds) := ⟨by simp, List.forall_mem_cons.mpr ⟨hc, hds⟩⟩
        rcases (accepts_whole_iff hds hrest).mp h with he | ⟨f, e, hf, he, rfl⟩
        · exact ⟨c :: ds, rest, .whole hrun, he, rfl⟩
        · exact ⟨c :: ds ++ '.' :: f, e, .fraction hrun hf, he, by simp⟩
      split at h
      · next hc =>
        obtain ⟨f, e, hf, he, rfl⟩ := accepts_point_iff.mp h
        exact ⟨'.' :: f, e, .point hf, he, by rw [hc]; rfl⟩
      · cases h
  · rintro ⟨m, e, hm, he, rfl⟩
    have hwhole : ∀ {w rest : List Char}, IsRun isDigit w → EndsRun isDigit rest →
        (IsExponent isDigit rest ∨ ∃ f e, (∀ c ∈ f, isDigit c = true) ∧ IsExponent isDigit e ∧
          rest = '.' :: (f ++ e)) → NumberState.signed.accepts (w ++ rest) = true := by
      intro w rest hw hrest h
      obtain ⟨c, w, rfl⟩ := List.exists_cons_of_ne_nil hw.1
      obtain ⟨hc, hw⟩ := List.forall_mem_cons.mp hw.2
      rw [List.cons_append, accepts_cons, NumberState.step, if_pos hc]
      exact (accepts_whole_iff hw hrest).mpr h
    cases hm with
    | whole hw => exact hwhole hw he.endsRun (Or.inl he)
    | @fraction w f hw hf =>
      rw [List.append_assoc]
      exact hwhole hw (endsRun_cons _ hpoint) (Or.inr ⟨f, e, hf, he, rfl⟩)
    | @point f hf => exact accepts_point_iff.mpr ⟨f, e, hf, he, rfl⟩

/-- Without a sign it is all the same whether one came before. -/
theorem accepts_start_cons {c : Char} (hc : ¬ (c = '+' ∨ c = '-')) :
    NumberState.start.accepts (c :: t) = NumberState.signed.accepts (c :: t) := by
  rw [accepts_cons, accepts_cons, NumberState.step, if_neg hc]
  rfl

theorem accepts_start_of_signed (h : NumberState.signed.accepts t = true) :
    NumberState.start.accepts t = true := by
  cases t with
  | nil => cases h
  | cons c t =>
    rw [accepts_start_cons]
    · exact h
    · rintro (rfl | rfl) <;> cases h

/-- **The shape of a number is the grammar**, with the digits of every script. -/
theorem isNumber_iff : isNumber t = true ↔ IsDecimal isDigit t := by
  show NumberState.start.accepts t = true ↔ _
  constructor
  · intro h
    cases t with
    | nil => cases h
    | cons c t =>
      by_cases hc : c = '+' ∨ c = '-'
      · rw [accepts_cons, NumberState.step, if_pos hc] at h
        obtain ⟨m, e, hm, he, rfl⟩ := accepts_signed_iff.mp h
        have hsign : [c] ∈ signs := by rcases hc with rfl | rfl <;> decide
        exact .mk hsign hm he
      · rw [accepts_start_cons hc] at h
        obtain ⟨m, e, hm, he, heq⟩ := accepts_signed_iff.mp h
        have hsign : [] ∈ signs := by decide
        rw [heq]
        exact .mk hsign hm he
  · rintro ⟨hsign, hm, he⟩
    have hsigned := accepts_signed_iff.mpr ⟨_, _, hm, he, rfl⟩
    simp only [signs, List.mem_cons, List.not_mem_nil, or_false] at hsign
    rcases hsign with rfl | rfl | rfl
    · exact accepts_start_of_signed hsigned
    · exact hsigned
    · exact hsigned

/-! ## 3. Numbers and names of PromQL -/

theorem ascii_of_mem_numberMarks {c : Char} (h : c ∈ numberMarks) : c.toNat < 0x80 := by
  have hall : numberMarks.all (fun c => decide (c.toNat < 0x80)) = true := by decide
  simpa using List.all_eq_true.mp hall c h

/-- **The numbers of PromQL are those of the shape that are written in ASCII.** -/
theorem isNumeral_iff : IsNumeral t ↔ isNumber t = true ∧ ∀ c ∈ t, c.toNat < 0x80 := by
  rw [isNumber_iff]
  constructor
  · intro h
    have hascii : ∀ c ∈ t, c.toNat < 0x80 := fun c hc =>
      (h.char c hc).elim (fun hd => ascii_of_isNumberChar (isNumberChar_of_isDigit hd))
        ascii_of_mem_numberMarks
    exact ⟨h.mono fun c hc hd => by rwa [isDigit_of_ascii (hascii c hc)], hascii⟩
  · rintro ⟨h, hascii⟩
    exact h.mono fun c hc hd => by rwa [isDigit_of_ascii (hascii c hc)] at hd

theorem isNumeral_iff_all :
    (isNumber t && t.all fun c => decide (c.toNat < 0x80)) = true ↔ IsNumeral t := by
  simp [isNumeral_iff]

instance (t : List Char) : Decidable (IsNumeral t) := decidable_of_iff _ isNumeral_iff_all

/-- **A name of PromQL** that is none of the words that change the meaning of the text around them,
whatever the case of its letters. -/
structure IsName (t : List Char) : Prop where
  head : ∃ c ∈ t.head?, c.isAlpha = true ∨ c = '_' ∨ c = ':'
  chars : ∀ c ∈ t, c.isAlphanum = true ∨ c = '_' ∨ c = ':'
  free : ∀ w ∈ reservedWords, t.map Char.toLower ≠ w.toList

theorem isIdentifierStart_iff {c : Char} :
    isIdentifierStart c = true ↔ c.isAlpha = true ∨ c = '_' ∨ c = ':' := by
  simp [isIdentifierStart, or_assoc]

theorem isIdentifierRest_iff {c : Char} :
    isIdentifierRest c = true ↔ c.isAlphanum = true ∨ c = '_' ∨ c = ':' := by
  simp only [isIdentifierRest, Bool.or_eq_true, isIdentifierStart_iff, Char.isAlphanum]
  tauto

theorem isReserved_eq_false_iff :
    isReserved t = false ↔ ∀ w ∈ reservedWords, t.map Char.toLower ≠ w.toList := by
  simp only [isReserved, List.any_eq_false, beq_iff_eq]
  exact forall₂_congr fun w _ => not_congr eq_comm

theorem isIdentifier_iff : isIdentifier t = true ↔ IsName t := by
  cases t with
  | nil => exact iff_of_false (by simp [isIdentifier]) fun h => by simpa using h.head
  | cons c t =>
    simp only [isIdentifier, Bool.and_eq_true, List.all_eq_true, Bool.not_eq_true',
      isIdentifierStart_iff, isIdentifierRest_iff, isReserved_eq_false_iff]
    constructor
    · rintro ⟨⟨hc, hrest⟩, hfree⟩
      have hhead : c.isAlphanum = true ∨ c = '_' ∨ c = ':' :=
        hc.imp_left fun halpha => by simp [Char.isAlphanum, halpha]
      exact ⟨⟨c, rfl, hc⟩, List.forall_mem_cons.mpr ⟨hhead, hrest⟩, hfree⟩
    · rintro ⟨⟨d, hd, hhead⟩, hchars, hfree⟩
      obtain rfl : c = d := Option.some.inj hd
      exact ⟨⟨hhead, (List.forall_mem_cons.mp hchars).2⟩, hfree⟩

instance (t : List Char) : Decidable (IsName t) := decidable_of_iff _ isIdentifier_iff

theorem IsName.ascii (h : IsName t) : ∀ c ∈ t, c.toNat < 0x80 := by
  intro c hc
  rcases h.chars c hc with halnum | rfl | rfl
  · exact ascii_of_isNumberChar (by simp [isNumberChar, glues, isWordRest, halnum])
  · decide
  · decide

/-- No number begins like a name. -/
theorem isNumber_cons_of_name {c : Char} (hc : c.isAlpha = true ∨ c = '_' ∨ c = ':') (t : List Char) :
    isNumber (c :: t) = false := by
  show NumberState.start.accepts (c :: t) = false
  rw [accepts_cons, Option.any_eq_false]
  suffices hstep : NumberState.start.step c = none by simp [hstep]
  rcases hc with halpha | rfl | rfl
  · have hdigit : isDigit c = false := by
      rw [isDigit_of_ascii (ascii_of_isNumberChar (by
        simp [isNumberChar, glues, isWordRest, Char.isAlphanum, halpha]))]
      exact not_isDigit_of_isWordStart (by simp [isWordStart, halpha])
    have hne : ∀ d : Char, d.isAlpha = false → c ≠ d := by
      rintro d hd rfl
      rw [halpha] at hd
      cases hd
    simp [NumberState.step, hdigit, hne '+' rfl, hne '-' rfl, hne '.' rfl]
  · decide
  · decide

theorem not_isName_of_isNumber (h : isNumber t = true) : ¬ IsName t := by
  rintro ⟨⟨c, hhead, hc⟩, -, -⟩
  obtain ⟨t, rfl⟩ := List.head?_eq_some_iff.mp hhead
  rw [isNumber_cons_of_name hc] at h
  cases h

/-- **A placeholder is a name just if the variable has a name in ASCII.** -/
theorem isName_placeholder_iff (hname : ∀ c ∈ name, isWord c = true) :
    IsName (placeholder name) ↔ ∀ c ∈ name, c.toNat < 0x80 := by
  constructor
  · intro h c hc
    refine h.ascii c ?_
    rcases placeholder_cases name with ⟨-, heq⟩ | heq <;> rw [heq]
    · exact hc
    · exact List.mem_append_right _ hc
  · intro hascii
    have hfree := isReserved_eq_false_iff.mp (not_isReserved_placeholder name)
    rcases placeholder_cases name with ⟨hi, heq⟩ | heq
    · rw [heq]
      exact isIdentifier_iff.mp hi
    · rw [heq] at hfree ⊢
      refine ⟨⟨'v', rfl, by decide⟩, fun c hc => ?_, hfree⟩
      rcases List.mem_append.mp hc with hc | hc
      · exact isIdentifierRest_iff.mp (List.all_eq_true.mp
          (show ('v' :: "ar_".toList).all isIdentifierRest = true by decide) c hc)
      · have hword := hname c hc
        rw [isWord_of_ascii (hascii c hc), Bool.or_eq_true, beq_iff_eq] at hword
        exact hword.imp_right Or.inl

/-! ## 4. The operands that are written -/

/-- **A value that is taken for a number**: it has the shape and is none. -/
def Misread (value : Option (List Char)) : Prop := ∃ v ∈ value, isNumber v = true ∧ ¬ IsNumeral v

/-- **A value that is not written**, since it has the shape of no operand. -/
def Unfit (value : Option (List Char)) : Prop :=
  ∀ v ∈ value, isNumber v = false ∧ isIdentifier v = false

/-- A name with a character that PromQL does not know. -/
def IsForeign (name : List Char) : Prop := ∃ c ∈ name, 0x80 ≤ c.toNat

/-- What stands in for a value where a scalar is due is a number, just where no value is misread. -/
theorem isNumeral_filter_getD_iff :
    IsNumeral ((value.filter isNumber).getD "1".toList) ↔ ¬ Misread value := by
  have hdefault : IsNumeral "1".toList := by decide
  cases value with
  | none => exact iff_of_true hdefault (by rintro ⟨v, hv, -⟩; cases hv)
  | some v =>
    by_cases hshape : isNumber v = true
    · rw [Option.filter_some_pos hshape]
      simp [Misread, hshape]
    · rw [Option.filter_some_neg (Bool.eq_false_iff.mpr hshape)]
      exact iff_of_true hdefault (by rintro ⟨u, hu, h, -⟩; cases hu; exact hshape h)

/-- **An operand of PromQL**: a number or a name. -/
def IsOperand (t : List Char) : Prop := IsNumeral t ∨ IsName t

instance (t : List Char) : Decidable (IsOperand t) := inferInstanceAs (Decidable (_ ∨ _))

/-- A placeholder is an operand just if the name of the variable is not foreign. -/
theorem isOperand_placeholder_iff (hname : ∀ c ∈ name, isWord c = true) :
    IsOperand (placeholder name) ↔ ¬ IsForeign name := by
  have hnumeral : ¬ IsNumeral (placeholder name) := by
    intro h
    have hnumber := (isNumeral_iff.mp h).1
    rcases placeholder_cases name with ⟨hi, heq⟩ | heq
    · rw [heq] at hnumber
      exact not_isName_of_isNumber hnumber (isIdentifier_iff.mp hi)
    · rw [heq, List.cons_append, isNumber_cons_of_name (by decide)] at hnumber
      cases hnumber
  rw [IsOperand, or_iff_right hnumeral, isName_placeholder_iff hname]
  simp [IsForeign]

/-- **What stands in for a value in an expression is an operand**, just where no value is misread and
no foreign name comes in for a value that is not written. -/
theorem isOperand_standIn_iff (hname : ∀ c ∈ name, isWord c = true) :
    IsOperand (standIn name value .expression) ↔
      ¬ Misread value ∧ ¬ (Unfit value ∧ IsForeign name) := by
  by_cases hunfit : Unfit value
  · have hplaceholder : standIn name value .expression = placeholder name := by
      rw [standIn, Option.filter_eq_none_iff.mpr fun v hv => by simp [hunfit v hv], Option.getD_none]
    have hmisread : ¬ Misread value := by
      rintro ⟨v, hv, hnumber, -⟩
      rw [(hunfit v hv).1] at hnumber
      cases hnumber
    rw [hplaceholder, isOperand_placeholder_iff hname]
    simp [hunfit, hmisread]
  · obtain ⟨v, rfl, hv⟩ : ∃ v, value = some v ∧ (isNumber v || isIdentifier v) = true := by
      simpa [Unfit, -Bool.not_eq_true, imp_iff_not_or, or_comm] using hunfit
    have hwritten : standIn name (some v) .expression = v := by
      simp only [standIn, Option.filter_some, if_pos hv, Option.getD_some]
    rw [hwritten, and_iff_left fun h => hunfit h.1]
    rcases (Bool.or_eq_true _ _).mp hv with hnumber | hidentifier
    · rw [IsOperand, or_iff_left (not_isName_of_isNumber hnumber)]
      simp [Misread, hnumber]
    · have hname := isIdentifier_iff.mp hidentifier
      refine iff_of_true (Or.inr hname) ?_
      rintro ⟨u, hu, hnumber, -⟩
      cases hu
      exact not_isName_of_isNumber hnumber hname

/-- **Operands are written where they are due, just if nothing foreign comes through.**  For a declared
variable a text is written in every place.  Where a scalar is due it is a number of PromQL, unless the
value has the shape of one with digits of another script.  In an expression it is a number or a name,
unless that is so, or the value is not written and the name of the variable has a character that is not
of ASCII.  A name that begins like Grafana's own has no part in this: what the dashboard declares is not
looked at. -/
theorem operands_written (templates : List Template) (name : List Char) (t : Template)
    (hname : IsRun isWord name) (hfind : findTemplate? templates name = some t) :
    (¬ globalPrefix <+: name →
      (∃ text, substitute templates name .scalar = .ok text ∧
        (IsNumeral text ↔ ¬ Misread (t.currentValue.map String.toList))) ∧
      ∃ text, substitute templates name .expression = .ok text ∧
        (IsNumeral text ∨ IsName text ↔ ¬ Misread (t.currentValue.map String.toList) ∧
          ¬ (Unfit (t.currentValue.map String.toList) ∧ IsForeign name))) ∧
    (globalPrefix <+: name → ∀ p, substitute templates name p = substitute [] name p) := by
  refine ⟨fun hglobal => ?_, fun hglobal p => substitute_congr (absurd hglobal) p⟩
  rw [← List.isPrefixOf_iff_prefix, Bool.not_eq_true] at hglobal
  exact ⟨⟨_, substitute_of_template hglobal hfind .scalar, isNumeral_filter_getD_iff⟩,
    ⟨_, substitute_of_template hglobal hfind .expression, isOperand_standIn_iff hname.2⟩⟩

/-- The digit three of another script is misread, and a name with an accent is foreign. -/
theorem operands_written_foreign :
    (substitute [{ name := "v", current := some ⟨some (.single "٣")⟩ }] "v".toList .scalar =
        .ok "٣".toList ∧
      Misread (some "٣".toList) ∧ ¬ IsNumeral "٣".toList) ∧
    substitute [{ name := "été" }] "été".toList .expression = .ok "var_été".toList ∧
      Unfit none ∧ IsForeign "été".toList ∧
      ¬ (IsNumeral "var_été".toList ∨ IsName "var_été".toList) := by
  have hmisread : Misread (some "٣".toList) := ⟨_, rfl, by decide +kernel, by decide +kernel⟩
  have hforeign : IsForeign "été".toList := ⟨'é', by decide, by decide⟩
  have hunfit : Unfit none := fun v hv => by cases hv
  obtain ⟨text, hscalar, hnumeral⟩ := ((operands_written
    [{ name := "v", current := some ⟨some (.single "٣")⟩ }] "v".toList _
    ⟨by decide, List.all_eq_true.mp (by decide)⟩ rfl).1 (by decide)).1
  obtain ⟨text', hexpression, hoperand⟩ := ((operands_written [{ name := "été" }] "été".toList _
    ⟨by decide, List.all_eq_true.mp (by decide +kernel)⟩ rfl).1 (by decide)).2
  have htext : text = "٣".toList := Except.ok.inj (hscalar.symm.trans (by decide +kernel))
  have htext' : text' = "var_été".toList := Except.ok.inj (hexpression.symm.trans (by decide +kernel))
  subst htext htext'
  exact ⟨⟨hscalar, hmisread, fun h => hnumeral.mp h hmisread⟩, hexpression, hunfit, hforeign,
    fun h => (hoperand.mp h).2 ⟨hunfit, hforeign⟩⟩

end PanelLint.Query
