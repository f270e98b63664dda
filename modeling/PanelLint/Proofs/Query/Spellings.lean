import PanelLint.Proofs.Query.Seams
/-!
# The spellings of a reference

A reference may be written with a sign, with a brace or with brackets, and with a field and a format
that only Grafana looks at.  Expansion reads each spelling just as far as it goes, whatever stands
around it, and keeps no more of it than the name, so that one can be put in place of another.

* `pieces_of_spelling`: a spelling is one piece of the query;
* `expand_respelled`: the expansion of a query does not depend on the spelling.
-/

namespace PanelLint.Query

open PanelLint.Text

variable {name tok pre post : List Char}

/-- **A way to write a reference to a variable**, with no quote in it. -/
inductive Spelling (name : List Char) : List Char → Prop
  | plain : Spelling name ('$' :: name)
  | braced : Spelling name ('$' :: '\x7b' :: (name ++ ['\x7d']))
  | field {f : List Char} : IsRun isFieldChar f → (∀ c ∈ f, isQuote c = false) →
      Spelling name ('$' :: '\x7b' :: (name ++ '.' :: (f ++ ['\x7d'])))
  | format {g : List Char} : IsRun isFormatChar g → (∀ c ∈ g, isQuote c = false) →
      Spelling name ('$' :: '\x7b' :: (name ++ ':' :: (g ++ ['\x7d'])))
  | fieldFormat {f g : List Char} : IsRun isFieldChar f → (∀ c ∈ f, isQuote c = false) →
      IsRun isFormatChar g → (∀ c ∈ g, isQuote c = false) →
      Spelling name ('$' :: '\x7b' :: (name ++ '.' :: (f ++ ':' :: (g ++ ['\x7d']))))
  | bracketed : Spelling name ('[' :: '[' :: (name ++ [']', ']']))
  | bracketedFormat {w : List Char} : IsRun isWord w →
      Spelling name ('[' :: '[' :: (name ++ ':' :: (w ++ [']', ']'])))

/-- A spelling is read as far as it goes, whatever follows. -/
theorem Spelling.begins (h : Spelling name tok) (hname : IsRun isWord name)
    (hpost : EndsRun isWord post) : Reference.Begins (tok ++ post) ⟨tok, name⟩ post := by
  have hnone : ∀ {mark p}, IsMarkedRun mark p [] := Or.inl rfl
  have hsome : ∀ {mark p run}, IsRun p run → IsMarkedRun mark p (mark :: run) :=
    fun hrun => Or.inr ⟨_, hrun, rfl⟩
  cases h with
  | plain => exact .plain hname hpost
  | braced => simpa using Reference.Begins.braced hname hnone hnone
  | field hf _ => simpa using Reference.Begins.braced hname (hsome hf) hnone
  | format hg _ => simpa using Reference.Begins.braced hname hnone (hsome hg)
  | fieldFormat hf _ hg _ => simpa using Reference.Begins.braced hname (hsome hf) (hsome hg)
  | bracketed => simpa using Reference.Begins.bracketed hname hnone
  | bracketedFormat hw => simpa using Reference.Begins.bracketed hname (hsome hw)

theorem Spelling.not_isQuote (h : Spelling name tok) (hname : IsRun isWord name) :
    ∀ c ∈ tok, isQuote c = false := by
  have hword : ∀ {w}, IsRun isWord w → ∀ c ∈ w, isQuote c = false := fun hw c hc =>
    not_isQuote_of_isInert (isInert_of_isWord (hw.2 c hc))
  have hmark := not_isQuote_of_all
    (show ['$', '\x7b', '\x7d', '[', ']', '.', ':'].all (!isQuote ·) = true by decide)
  have hcode := hword hname
  cases h with
  | plain => simpa [hmark] using hcode
  | braced => simpa [hmark, or_imp, forall_and] using hcode
  | field _ hf => simpa [hmark, or_imp, forall_and] using ⟨hcode, hf⟩
  | format _ hg => simpa [hmark, or_imp, forall_and] using ⟨hcode, hg⟩
  | fieldFormat _ hf _ hg => simpa [hmark, or_imp, forall_and] using ⟨hcode, hf, hg⟩
  | bracketed => simpa [hmark, or_imp, forall_and] using hcode
  | bracketedFormat hw => simpa [hmark, or_imp, forall_and] using ⟨hcode, hword hw⟩

/-- No spelling goes on with what stands before it. -/
theorem Spelling.fresh (h : Spelling name tok) : Fresh (tok ++ post) := by
  have hsign : ∀ cs, Fresh ('$' :: cs) := fun cs =>
    ⟨fun c hc => by cases hc; decide, fun rest heq => absurd (List.cons.inj heq).1 (by decide)⟩
  have hbracket : ∀ cs, Fresh ('[' :: '[' :: cs) := fun cs =>
    ⟨fun c hc => by cases hc; decide, fun rest heq => by
      obtain ⟨-, rfl⟩ := List.cons.inj heq
      exact endsRun_cons cs (by decide)⟩
  cases h with
  | bracketed => exact hbracket _
  | bracketedFormat _ => exact hbracket _
  | plain => exact hsign _
  | braced => exact hsign _
  | field _ _ => exact hsign _
  | format _ _ => exact hsign _
  | fieldFormat _ _ _ _ => exact hsign _

/-- **A spelling is one piece of the query**, and the others are those of what is behind it. -/
theorem pieces_of_spelling (h : Spelling name tok) (hname : IsRun isWord name)
    (hpost : EndsRun isWord post) : pieces (tok ++ post) = .reference ⟨tok, name⟩ :: pieces post := by
  obtain ⟨t, d, rfl, ht, hd⟩ := exists_code_before post
  have hword : EndsRun isWord t := fun c hc => hpost c (by rw [List.head?_append, hc]; rfl)
  have hread := Reference.read?_eq_some_iff.mpr (h.begins hname hword)
  rw [pieces_code_before_code (h.not_isQuote hname) ht hd, pieces_code_before ht hd,
    Piece.scan_of_some hread, List.cons_append]

/-- A text without an open brace keeps none. -/
theorem noLooseBrace_of_text (h : ¬ ['$', '\x7b'] <:+: pre) : NoLooseBrace (pieces pre) := by
  rintro ⟨front, back, hps⟩
  refine h ⟨front.flatMap Piece.text, back.flatMap Piece.text, ?_⟩
  rw [← pieces_texts pre, ← hps, List.flatMap_append, List.flatMap_append]
  rfl

/-- **The expansion of a query does not depend on how a reference in it is spelled.**  This needs a
place where no literal is open and no brace waits to be closed, and no word that goes on behind it. -/
theorem expand_respelled (templates : List Template) (name pre post tok tok' : List Char)
    (hname : IsRun isWord name) (hclosed : LeavesNoneOpen pre) (hbrace : ¬ ['$', '\x7b'] <:+: pre)
    (hpost : EndsRun isWord post) (htok : Spelling name tok) (htok' : Spelling name tok') :
    expand templates (pre ++ tok ++ post) = expand templates (pre ++ tok' ++ post) := by
  have hpieces : ∀ {tok}, Spelling name tok →
      pieces (pre ++ tok ++ post) = pieces pre ++ .reference ⟨tok, name⟩ :: pieces post := by
    intro tok h
    rw [List.append_assoc, pieces_append hclosed h.fresh (Or.inl (noLooseBrace_of_text hbrace)),
      pieces_of_spelling h hname hpost]
  rw [expand, expand, hpieces htok, hpieces htok', List.foldlM_append, List.foldlM_append]
  -- of the reference only the name is read
  rfl

/-- Behind brackets that open nothing, and before one that closes nothing. -/
theorem expand_respelled_brackets :
    IsRun isWord "v".toList ∧ LeavesNoneOpen "\"[[\" + up[[".toList ∧
    expand [{ name := "v", current := some ⟨some (.single "7m")⟩ }]
        ("\"[[\" + up[[".toList ++ "[[v]]".toList ++ "]".toList) =
      .ok "\"[[\" + up[[7m]".toList ∧
    expand [{ name := "v", current := some ⟨some (.single "7m")⟩ }]
        ("\"[[\" + up[[".toList ++ "$\x7bv.x:csv\x7d".toList ++ "]".toList) =
      .ok "\"[[\" + up[[7m]".toList := by
  have hname : IsRun isWord "v".toList := ⟨by decide, List.all_eq_true.mp (by decide)⟩
  have hclosed : LeavesNoneOpen "\"[[\" + up[[".toList := by decide +kernel
  have hexpand : expand [{ name := "v", current := some ⟨some (.single "7m")⟩ }]
      ("\"[[\" + up[[".toList ++ "[[v]]".toList ++ "]".toList) = .ok "\"[[\" + up[[7m]".toList := by
    decide +kernel
  have hfield : Spelling "v".toList "$\x7bv.x:csv\x7d".toList :=
    .fieldFormat (f := "x".toList) (g := "csv".toList)
      ⟨by decide, List.all_eq_true.mp (by decide)⟩ (not_isQuote_of_all (by decide))
      ⟨by decide, List.all_eq_true.mp (by decide)⟩ (not_isQuote_of_all (by decide))
  refine ⟨hname, hclosed, hexpand, ?_⟩
  rw [← hexpand]
  exact expand_respelled _ _ _ _ _ _ hname hclosed (by decide) (endsRun_cons _ (by decide)) hfield
    .bracketed

end PanelLint.Query
