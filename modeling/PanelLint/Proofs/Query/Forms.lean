import PanelLint.Proofs.Text.Run
import PanelLint.Query.Piece
/-!
# The forms of a reference

`Reference.read?` reads a reference by taking runs of characters as far as they go.  Here the three
forms are described by themselves, as texts: `Reference.Begins cs r rest` says that a text `cs` is
the reference `r`, written in one of the forms, and `rest` after it.

* `Reference.read?_eq_some_iff`: the reader finds just the forms, so that a text begins with at most
  one reference;
* `leftToRight_scan`: the pieces of code are found from left to right, a character being kept only
  where no form begins.
-/

namespace PanelLint.Query

open PanelLint.Text

/-! ## 1. Runs -/

/-- Nothing, or a mark and a run. -/
def IsMarkedRun (mark : Char) (p : Char → Bool) (part : List Char) : Prop :=
  part = [] ∨ ∃ run, IsRun p run ∧ part = mark :: run

theorem run?_eq_some_iff {p : Char → Bool} {cs run rest : List Char} :
    run? p cs = some (run, rest) ↔ IsRun p run ∧ EndsRun p rest ∧ cs = run ++ rest := by
  constructor
  · intro h
    have happ := run?_append h
    unfold run? at h
    split at h
    · exact absurd h (by simp)
    · next hne =>
      simp only [Option.some.injEq, Prod.mk.injEq] at h
      obtain ⟨rfl, rfl⟩ := h
      exact ⟨⟨by simpa using hne, fun c hc => List.mem_takeWhile_imp hc⟩,
        endsRun_dropWhile p cs, happ.symm⟩
  · rintro ⟨hr, he, rfl⟩
    unfold run?
    rw [takeWhile_run hr.2 he, dropWhile_run hr.2 he, if_neg]
    simpa using hr.1

theorem run?_eq_none {p : Char → Bool} {cs : List Char} (h : EndsRun p cs) : run? p cs = none := by
  simp [run?, takeWhile_of_endsRun h]

/-- An optional part is read as far as it goes, where what follows cannot belong to it. -/
theorem markedRun_of {mark : Char} {p : Char → Bool} {part rest : List Char}
    (hpart : IsMarkedRun mark p part) (he : EndsRun p rest) (hmark : ∀ c ∈ rest.head?, c ≠ mark) :
    markedRun mark p (part ++ rest) = (part, rest) := by
  rcases hpart with rfl | ⟨run, hrun, rfl⟩
  · cases rest with
    | nil => rfl
    | cons c rest =>
      rw [List.nil_append, markedRun, if_neg (hmark c rfl)]
  · rw [List.cons_append, markedRun, if_pos rfl, run?_eq_some_iff.mpr ⟨hrun, he, rfl⟩]

/-- A mark with nothing behind it is not taken. -/
theorem markedRun_of_endsRun {mark : Char} {p : Char → Bool} {cs : List Char} (h : EndsRun p cs) :
    markedRun mark p (mark :: cs) = ([], mark :: cs) := by
  simp [markedRun, run?_eq_none h]

theorem markedRun_of_ne {mark c : Char} {p : Char → Bool} {cs : List Char} (h : c ≠ mark) :
    markedRun mark p (c :: cs) = ([], c :: cs) := by
  simp [markedRun, h]

theorem isMarkedRun_markedRun (mark : Char) (p : Char → Bool) (cs : List Char) :
    IsMarkedRun mark p (markedRun mark p cs).1 := by
  unfold markedRun
  split
  · exact Or.inl rfl
  · next c cs =>
    split
    · next hc =>
      split
      · next run rest hr => exact Or.inr ⟨run, (run?_eq_some_iff.mp hr).1, by rw [hc]⟩
      · exact Or.inl rfl
    · exact Or.inl rfl

/-! ## 2. The three forms -/

/-- **A text is a reference and a rest.**  A name without brackets or braces goes on as far as it
can; the other forms show their end themselves. -/
inductive Reference.Begins : List Char → Reference → List Char → Prop
  | plain {name rest : List Char} : IsRun isWord name → EndsRun isWord rest →
      Begins ('$' :: name ++ rest) ⟨'$' :: name, name⟩ rest
  | bracketed {name format rest : List Char} : IsRun isWord name → IsMarkedRun ':' isWord format →
      Begins ('[' :: '[' :: name ++ format ++ [']', ']'] ++ rest)
        ⟨'[' :: '[' :: name ++ format ++ [']', ']'], name⟩ rest
  | braced {name field format rest : List Char} : IsRun isWord name →
      IsMarkedRun '.' isFieldChar field → IsMarkedRun ':' isFormatChar format →
      Begins ('$' :: '\x7b' :: name ++ field ++ format ++ ['\x7d'] ++ rest)
        ⟨'$' :: '\x7b' :: name ++ field ++ format ++ ['\x7d'], name⟩ rest

namespace Reference

/-- A reference is a front part of the text it begins. -/
theorem Begins.text_append {cs rest : List Char} {r : Reference} (h : Begins cs r rest) :
    cs = r.text ++ rest := by
  cases h <;> rfl

theorem Begins.name_isRun {cs rest : List Char} {r : Reference} (h : Begins cs r rest) :
    IsRun isWord r.name := by
  cases h <;> assumption

theorem endsRun_markedRun {mark : Char} {p q : Char → Bool} {part rest : List Char}
    (hpart : IsMarkedRun mark p part) (hmark : q mark = false) (he : EndsRun q rest) :
    EndsRun q (part ++ rest) := by
  rcases hpart with rfl | ⟨run, -, rfl⟩
  · exact he
  · exact endsRun_cons _ hmark

theorem readPlain?_eq_some {cs rest : List Char} {r : Reference}
    (h : readPlain? cs = some (r, rest)) : Begins ('$' :: cs) r rest := by
  unfold readPlain? at h
  simp only [Option.map_eq_some_iff, Prod.exists, Prod.mk.injEq] at h
  obtain ⟨name, after, hrun, rfl, rfl⟩ := h
  obtain ⟨hname, he, rfl⟩ := run?_eq_some_iff.mp hrun
  exact Begins.plain hname he

theorem readBracketed?_eq_some {cs rest : List Char} {r : Reference}
    (h : readBracketed? cs = some (r, rest)) : Begins ('[' :: '[' :: cs) r rest := by
  unfold readBracketed? at h
  split at h
  · exact absurd h (by simp)
  · next name after hrun =>
    obtain ⟨hname, -, rfl⟩ := run?_eq_some_iff.mp hrun
    have happ := markedRun_append ':' isWord after
    have hformat := isMarkedRun_markedRun ':' isWord after
    rcases hf : markedRun ':' isWord after with ⟨format, tail⟩
    rw [hf] at happ hformat
    simp only [hf] at h
    split at h
    · next last =>
      simp only [Option.some.injEq, Prod.mk.injEq] at h
      obtain ⟨rfl, rfl⟩ := h
      rw [← happ]
      simpa using @Begins.bracketed name format last hname hformat
    · exact absurd h (by simp)

theorem readBraced?_eq_some {cs rest : List Char} {r : Reference}
    (h : readBraced? cs = some (r, rest)) : Begins ('$' :: '\x7b' :: cs) r rest := by
  unfold readBraced? at h
  split at h
  · exact absurd h (by simp)
  · next name after hrun =>
    obtain ⟨hname, -, rfl⟩ := run?_eq_some_iff.mp hrun
    have happ := markedRun_append '.' isFieldChar after
    have hfield := isMarkedRun_markedRun '.' isFieldChar after
    rcases hf : markedRun '.' isFieldChar after with ⟨field, after'⟩
    rw [hf] at h happ hfield
    have happ' := markedRun_append ':' isFormatChar after'
    have hformat := isMarkedRun_markedRun ':' isFormatChar after'
    rcases hg : markedRun ':' isFormatChar after' with ⟨format, tail⟩
    rw [hg] at happ' hformat
    simp only [hg] at h
    split at h
    · next last =>
      simp only [Option.some.injEq, Prod.mk.injEq] at h
      obtain ⟨rfl, rfl⟩ := h
      rw [← happ, ← happ']
      simpa using @Begins.braced name field format last hname hfield hformat
    · exact absurd h (by simp)

theorem readPlain?_of_run {name rest : List Char} (hname : IsRun isWord name)
    (he : EndsRun isWord rest) : readPlain? (name ++ rest) = some (⟨'$' :: name, name⟩, rest) := by
  unfold readPlain?
  rw [run?_eq_some_iff.mpr ⟨hname, he, rfl⟩]
  rfl

theorem readBracketed?_of_run {name format : List Char} (rest : List Char)
    (hname : IsRun isWord name) (hformat : IsMarkedRun ':' isWord format) :
    readBracketed? (name ++ (format ++ ']' :: ']' :: rest)) =
      some (⟨'[' :: '[' :: name ++ format ++ [']', ']'], name⟩, rest) := by
  have hclose : EndsRun isWord (']' :: ']' :: rest) := endsRun_cons _ (by decide)
  unfold readBracketed?
  rw [run?_eq_some_iff.mpr ⟨hname, endsRun_markedRun hformat (by decide) hclose, rfl⟩]
  simp only [markedRun_of hformat hclose (by simp)]

theorem readBraced?_of_run {name field format : List Char} (rest : List Char)
    (hname : IsRun isWord name) (hfield : IsMarkedRun '.' isFieldChar field)
    (hformat : IsMarkedRun ':' isFormatChar format) :
    readBraced? (name ++ (field ++ (format ++ '\x7d' :: rest))) =
      some (⟨'$' :: '\x7b' :: name ++ field ++ format ++ ['\x7d'], name⟩, rest) := by
  have hclose : ∀ p : Char → Bool, p '\x7d' = false → EndsRun p ('\x7d' :: rest) :=
    fun p hp => endsRun_cons _ hp
  have hafter : EndsRun isFieldChar (format ++ '\x7d' :: rest) :=
    endsRun_markedRun hformat (by decide) (hclose _ (by decide))
  have hpoint : ∀ c ∈ (format ++ '\x7d' :: rest).head?, c ≠ '.' := by
    rcases hformat with rfl | ⟨run, -, rfl⟩ <;> simp
  unfold readBraced?
  rw [run?_eq_some_iff.mpr ⟨hname, endsRun_markedRun hfield (by decide)
    (endsRun_markedRun hformat (by decide) (hclose _ (by decide))), rfl⟩]
  simp only [markedRun_of hfield hafter hpoint,
    markedRun_of hformat (hclose _ (by decide)) (by simp)]

/-- **The reader finds just the forms.** -/
theorem read?_eq_some_iff {cs rest : List Char} {r : Reference} :
    read? cs = some (r, rest) ↔ Begins cs r rest := by
  constructor
  · intro h
    unfold read? at h
    split at h
    · exact readBraced?_eq_some h
    · exact readPlain?_eq_some h
    · exact readBracketed?_eq_some h
    · exact absurd h (by simp)
  · intro h
    cases h with
    | @plain name rest hname he =>
      obtain ⟨c, name, rfl⟩ := List.exists_cons_of_ne_nil hname.1
      have hc : c ≠ '\x7b' := by
        rintro rfl
        exact absurd (hname.2 '\x7b' (by simp)) (by decide)
      have hread := readPlain?_of_run hname he
      unfold read?
      split
      · next heq => exact absurd (List.cons.inj (List.cons.inj heq).2).1 hc
      · next heq =>
        rw [← (List.cons.inj heq).2]
        exact hread
      · next heq => exact absurd (List.cons.inj heq).1 (by decide)
      · next hne _ => exact absurd rfl (hne _)
    | @bracketed name format rest hname hformat =>
      simpa [read?] using readBracketed?_of_run rest hname hformat
    | @braced name field format rest hname hfield hformat =>
      simpa [read?] using readBraced?_of_run rest hname hfield hformat

theorem read?_eq_none_iff {cs : List Char} :
    read? cs = none ↔ ∀ r rest, ¬ Begins cs r rest := by
  constructor
  · intro h r rest hb
    rw [read?_eq_some_iff.mpr hb] at h
    exact absurd h (by simp)
  · intro h
    cases hr : read? cs with
    | none => rfl
    | some p => exact absurd (read?_eq_some_iff.mp hr) (h p.1 p.2)

end Reference

/-! ## 3. References from left to right -/

/-- **Code read from left to right.**  Where a form begins, all of it is a reference; a character is
kept only where none does. -/
inductive LeftToRight : List Char → List Piece → Prop
  | nil : LeftToRight [] []
  | kept {c : Char} {cs : List Char} {ps : List Piece} :
      (∀ r rest, ¬ Reference.Begins (c :: cs) r rest) → LeftToRight cs ps →
      LeftToRight (c :: cs) (.kept c :: ps)
  | reference {cs rest : List Char} {r : Reference} {ps : List Piece} :
      Reference.Begins cs r rest → LeftToRight rest ps → LeftToRight cs (.reference r :: ps)

theorem leftToRight_scan (cs : List Char) : LeftToRight cs (Piece.scan cs) := by
  fun_induction Piece.scan cs with
  | case1 => exact LeftToRight.nil
  | case2 c cs r rest h _ ih =>
    exact LeftToRight.reference (Reference.read?_eq_some_iff.mp h) ih
  | case3 c cs h ih => exact LeftToRight.kept (Reference.read?_eq_none_iff.mp h) ih

/-- Code in which no form begins is kept character by character. -/
theorem scan_of_no_reference {cs : List Char}
    (h : ∀ tail, tail <:+ cs → ∀ r rest, ¬ Reference.Begins tail r rest) :
    Piece.scan cs = cs.map Piece.kept := by
  induction cs with
  | nil => exact Piece.scan_nil
  | cons c cs ih =>
    rw [Piece.scan_of_none (Reference.read?_eq_none_iff.mpr (h _ List.suffix_rfl)),
      ih (fun tail ht => h tail (ht.trans (List.suffix_cons c cs))), List.map_cons]

/-- The names of references are words. -/
theorem name_isRun_of_mem_scan {cs : List Char} {r : Reference}
    (h : .reference r ∈ Piece.scan cs) : IsRun isWord r.name := by
  fun_induction Piece.scan cs with
  | case1 => exact absurd h (by simp)
  | case2 c cs r' rest hr _ ih =>
    rcases List.mem_cons.mp h with heq | h
    · injection heq with heq
      rw [heq]
      exact (Reference.read?_eq_some_iff.mp hr).name_isRun
    · exact ih h
  | case3 c cs hr ih =>
    rcases List.mem_cons.mp h with heq | h
    · exact absurd heq (by simp)
    · exact ih h

end PanelLint.Query
