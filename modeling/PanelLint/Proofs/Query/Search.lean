import PanelLint.Proofs.Query.Failures
/-!
# The search for references

Code is searched for references from left to right.  A search takes the leftmost place where a form
begins, all of that form, and goes on behind it; what it passes over it keeps.  `Search` says this
with no reader in it, only with the forms themselves.

* `search_iff`: the pieces of code are what a search finds, and there is no other search;
* `Search.resumed`: a search that has come to some place goes on there as if it had begun there;
* `expand_searches`: so what an expansion replaces is what a search finds in each stretch of code.
  What only starts like a form hides nothing that begins inside it.
-/

namespace PanelLint.Query

open PanelLint.Text

variable {cs rest name field : List Char} {c : Char} {r : Reference} {ps pre qs : List Piece}

/-! ## 1. Searches -/

/-- No form begins with a text. -/
def Reference.NoneBegins (cs : List Char) : Prop := ∀ r rest, ¬ Reference.Begins cs r rest

theorem Reference.noneBegins_nil : NoneBegins [] := Reference.read?_eq_none_iff.mp rfl

/-- No form begins in a text before a place, whatever stands from there on. -/
def NoneBeginsBefore (before tail : List Char) : Prop :=
  ∀ front back, before ++ tail = front ++ back → front.length < before.length →
    Reference.NoneBegins back

/-- **What a search finds.**  It goes to the leftmost place where a form begins, takes that form and
goes on behind it.  Where no form begins any more, it keeps the rest. -/
inductive Search : List Char → List Piece → Prop
  | ended {cs : List Char} : (∀ tail, tail <:+ cs → Reference.NoneBegins tail) →
      Search cs (cs.map .kept)
  | found {before tail rest : List Char} {r : Reference} {ps : List Piece} :
      NoneBeginsBefore before tail → Reference.Begins tail r rest → Search rest ps →
      Search (before ++ tail) (before.map .kept ++ .reference r :: ps)

theorem noneBeginsBefore_nil (tail : List Char) : NoneBeginsBefore [] tail :=
  fun _ _ _ hlen => absurd hlen (Nat.not_lt_zero _)

theorem noneBeginsBefore_cons {before tail : List Char} : NoneBeginsBefore (c :: before) tail ↔
    Reference.NoneBegins (c :: before ++ tail) ∧ NoneBeginsBefore before tail := by
  constructor
  · intro h
    refine ⟨h [] _ rfl (Nat.succ_pos _), fun front back heq hlen => ?_⟩
    exact h (c :: front) back (congrArg (c :: ·) heq) (Nat.succ_lt_succ hlen)
  · rintro ⟨hfirst, h⟩ front back heq hlen
    cases front with
    | nil =>
      rw [List.nil_append] at heq
      exact heq ▸ hfirst
    | cons d front => exact h front back (List.cons.inj heq).2 (Nat.lt_of_succ_lt_succ hlen)

/-- Before a place where nothing begins code is kept character by character. -/
theorem leftToRight_before {before tail : List Char} (hnone : NoneBeginsBefore before tail)
    (h : LeftToRight tail ps) : LeftToRight (before ++ tail) (before.map .kept ++ ps) := by
  induction before with
  | nil => exact h
  | cons c before ih =>
    obtain ⟨hfirst, hnone⟩ := noneBeginsBefore_cons.mp hnone
    exact .kept hfirst (ih hnone)

theorem Search.leftToRight (h : Search cs ps) : LeftToRight cs ps := by
  induction h with
  | @ended cs hnone =>
    have hbefore : NoneBeginsBefore cs [] := fun front back heq _ =>
      hnone back ⟨front, by rw [← heq, List.append_nil]⟩
    simpa using leftToRight_before hbefore .nil
  | found hnone hbegins _ ih => exact leftToRight_before hnone (.reference hbegins ih)

theorem LeftToRight.search (h : LeftToRight cs ps) : Search cs ps := by
  induction h with
  | nil =>
    refine .ended fun tail htail => ?_
    rw [List.suffix_nil.mp htail]
    exact Reference.noneBegins_nil
  | @kept c cs ps hnone _ ih =>
    cases ih with
    | ended hrest =>
      refine .ended fun tail htail => ?_
      rcases List.suffix_cons_iff.mp htail with rfl | htail
      · exact hnone
      · exact hrest tail htail
    | @found before tail rest r ps hbefore hbegins hps =>
      exact .found (noneBeginsBefore_cons.mpr ⟨hnone, hbefore⟩) hbegins hps
  | reference hbegins _ ih => exact .found (noneBeginsBefore_nil _) hbegins ih

/-- **The pieces of code are what a search finds.** -/
theorem search_iff : Search cs ps ↔ ps = Piece.scan cs :=
  ⟨fun h => h.leftToRight.eq_scan, fun h => h ▸ (leftToRight_scan cs).search⟩

theorem search_cons_of_none (h : Reference.NoneBegins (c :: cs)) :
    Search (c :: cs) ps ↔ ∃ qs, ps = .kept c :: qs ∧ Search cs qs := by
  simp only [search_iff, Piece.scan_of_none (Reference.read?_eq_none_iff.mpr h),
    exists_eq_right]

/-- **A search goes on as it would begin.** -/
theorem Search.resumed (h : Search cs (pre ++ qs)) : Search (qs.flatMap Piece.text) qs := by
  have hread := h.leftToRight
  clear h
  induction pre generalizing cs with
  | nil =>
    have hqs : qs = Piece.scan cs := hread.eq_scan
    have htexts := Piece.scan_texts cs
    rw [← hqs] at htexts
    exact htexts ▸ hread.search
  | cons p pre ih =>
    rw [List.cons_append] at hread
    generalize hrow : p :: (pre ++ qs) = row at hread
    cases hread with
    | nil => cases hrow
    | kept _ h => exact ih ((List.cons.inj hrow).2 ▸ h)
    | reference _ h => exact ih ((List.cons.inj hrow).2 ▸ h)

/-- Where a search keeps a character, no form begins. -/
theorem Search.noneBegins (h : Search cs (.kept c :: qs)) : Reference.NoneBegins cs := by
  have hread := h.leftToRight
  cases hread with
  | kept hnone _ => exact hnone

/-- Where a search takes a reference, that form begins, and goes as far as the reference does. -/
theorem Search.begins (h : Search cs (.reference r :: qs)) :
    Reference.Begins cs r (qs.flatMap Piece.text) := by
  have hread := h.leftToRight
  cases hread with
  | reference hbegins hqs =>
    rw [hqs.eq_scan, Piece.scan_texts]
    exact hbegins

/-! ## 2. Texts that only start like a form -/

/-- **A text that starts like a form and is none**, for what is missing in it. -/
inductive Reference.Malformed : List Char → Prop
  /-- A sign with neither a name nor a brace. -/
  | sign {rest : List Char} : EndsRun isWord rest → rest.head? ≠ some '\x7b' →
      Malformed ('$' :: rest)
  /-- A brace with no name. -/
  | noName {rest : List Char} : EndsRun isWord rest → Malformed ('$' :: '\x7b' :: rest)
  /-- A point with no field. -/
  | noField {name rest : List Char} : IsRun isWord name → EndsRun isFieldChar rest →
      Malformed ('$' :: '\x7b' :: (name ++ '.' :: rest))
  /-- A colon with no format. -/
  | noFormat {name field rest : List Char} : IsRun isWord name →
      IsMarkedRun '.' isFieldChar field → EndsRun isFormatChar rest →
      Malformed ('$' :: '\x7b' :: (name ++ (field ++ ':' :: rest)))
  /-- A brace that nothing closes. -/
  | unclosedBrace {rest : List Char} : '\x7d' ∉ rest → Malformed ('$' :: '\x7b' :: rest)
  /-- Brackets with no name. -/
  | noNameInBrackets {rest : List Char} : EndsRun isWord rest → Malformed ('[' :: '[' :: rest)
  /-- A colon in brackets with no format. -/
  | noFormatInBrackets {name rest : List Char} : IsRun isWord name → EndsRun isWord rest →
      Malformed ('[' :: '[' :: (name ++ ':' :: rest))
  /-- Brackets that nothing closes. -/
  | unclosedBrackets {rest : List Char} : ¬ [']', ']'] <:+: rest → Malformed ('[' :: '[' :: rest)

namespace Reference

/-- Behind the sign of a form stands a brace or a name. -/
theorem Begins.behind_sign (h : Begins ('$' :: cs) r rest) :
    cs.head? = some '\x7b' ∨ ¬ EndsRun isWord cs := by
  generalize htext : '$' :: cs = text at h
  cases h with
  | @plain name rest hname _ =>
    obtain ⟨c, name, rfl⟩ := List.exists_cons_of_ne_nil hname.1
    rw [(List.cons.inj htext).2]
    refine Or.inr fun hend => ?_
    exact absurd (hname.2 c List.mem_cons_self) (by simp [hend c rfl])
  | bracketed _ _ => exact absurd (List.cons.inj htext).1 (by decide)
  | braced _ _ _ =>
    rw [(List.cons.inj htext).2]
    exact Or.inl rfl

/-- A form that begins with a brace is closed by one. -/
theorem Begins.brace_mem (h : Begins ('$' :: '\x7b' :: cs) r rest) : '\x7d' ∈ cs := by
  generalize htext : '$' :: '\x7b' :: cs = text at h
  cases h with
  | @plain name rest hname _ =>
    -- the brace would be the first character of a name
    obtain ⟨c, name, rfl⟩ := List.exists_cons_of_ne_nil hname.1
    obtain ⟨rfl, -⟩ := List.cons.inj (List.cons.inj htext).2
    exact absurd (hname.2 '\x7b' List.mem_cons_self) (by decide)
  | bracketed _ _ => exact absurd (List.cons.inj htext).1 (by decide)
  | braced _ _ _ =>
    rw [(List.cons.inj (List.cons.inj htext).2).2]
    simp

/-- A form in brackets is closed by two of them. -/
theorem Begins.brackets_infix (h : Begins ('[' :: '[' :: cs) r rest) : [']', ']'] <:+: cs := by
  generalize htext : '[' :: '[' :: cs = text at h
  cases h with
  | plain _ _ => exact absurd (List.cons.inj htext).1 (by decide)
  | @bracketed name format rest _ _ =>
    exact ⟨name ++ format, rest, (List.cons.inj (List.cons.inj htext).2).2.symm⟩
  | braced _ _ _ => exact absurd (List.cons.inj htext).1 (by decide)

/-- **No form begins with such a text.** -/
theorem Malformed.noneBegins (h : Malformed cs) : NoneBegins cs := by
  refine read?_eq_none_iff.mp ?_
  cases h with
  | @sign rest hrest hbrace =>
    refine read?_eq_none_iff.mpr fun r rest' hbegins => ?_
    exact hbegins.behind_sign.elim hbrace fun h => h hrest
  | noName hrest => simp [read?, readBraced?, run?_eq_none hrest]
  | @noField name rest hname hrest =>
    have hrun : run? isWord (name ++ '.' :: rest) = some (name, '.' :: rest) :=
      run?_eq_some_iff.mpr ⟨hname, endsRun_cons rest (by decide), rfl⟩
    simp [read?, readBraced?, hrun, markedRun_of_endsRun hrest, markedRun_of_ne]
  | @noFormat name field rest hname hfield hrest =>
    have hend : EndsRun isFieldChar (':' :: rest) := endsRun_cons rest (by decide)
    have hrun : run? isWord (name ++ (field ++ ':' :: rest)) = some (name, field ++ ':' :: rest) :=
      run?_eq_some_iff.mpr
        ⟨hname, endsRun_markedRun hfield (by decide) (endsRun_cons rest (by decide)), rfl⟩
    simp [read?, readBraced?, hrun, markedRun_of hfield hend (by simp), markedRun_of_endsRun hrest]
  | @unclosedBrace rest hrest =>
    exact read?_eq_none_iff.mpr fun r rest' hbegins => hrest hbegins.brace_mem
  | noNameInBrackets hrest => simp [read?, readBracketed?, run?_eq_none hrest]
  | @noFormatInBrackets name rest hname hrest =>
    have hrun : run? isWord (name ++ ':' :: rest) = some (name, ':' :: rest) :=
      run?_eq_some_iff.mpr ⟨hname, endsRun_cons rest (by decide), rfl⟩
    simp [read?, readBracketed?, hrun, markedRun_of_endsRun hrest]
  | @unclosedBrackets rest hrest =>
    exact read?_eq_none_iff.mpr fun r rest' hbegins => hrest hbegins.brackets_infix

end Reference

/-- **A text that is none of the forms hides nothing.**  A search that has come to one keeps its first
character and goes on behind it. -/
theorem Search.over_malformed (h : Search cs (pre ++ qs))
    (hqs : Reference.Malformed (qs.flatMap Piece.text)) :
    ∃ c qs', qs = .kept c :: qs' ∧ Search (qs'.flatMap Piece.text) qs' := by
  have hsearch := h.resumed
  have hnone := hqs.noneBegins
  generalize htext : qs.flatMap Piece.text = text at hsearch hnone hqs
  cases text with
  | nil => cases hqs
  | cons c text =>
    obtain ⟨qs', rfl, hqs'⟩ := (search_cons_of_none hnone).mp hsearch
    have hresumed : Search (c :: text) ([.kept c] ++ qs') := hsearch
    exact ⟨c, qs', rfl, hresumed.resumed⟩

/-! ## 3. What an expansion replaces -/

/-- What is found in a segment: a literal is not searched. -/
inductive SearchSegment : Segment → List Piece → Prop
  | code {t : List Char} {ps : List Piece} : Search t ps → SearchSegment (.code t) ps
  | literal {t : List Char} : SearchSegment (.literal t) [.literal t]

theorem searchSegment_iff {s : Segment} : SearchSegment s ps ↔ ps = Piece.ofSegment s := by
  cases s with
  | code t =>
    constructor
    · rintro (h | _)
      exact search_iff.mp h
    · exact fun h => .code (search_iff.mpr h)
  | literal t =>
    constructor
    · rintro (_ | _)
      rfl
    · rintro rfl
      exact .literal

theorem searchSegments_iff {ss : List Segment} {groups : List (List Piece)} :
    List.Forall₂ SearchSegment ss groups ↔ groups = ss.map Piece.ofSegment := by
  induction ss generalizing groups with
  | nil => simp
  | cons s ss ih =>
    rw [List.forall₂_cons_left_iff]
    simp [searchSegment_iff, ih]

/-- **What an expansion replaces is what a search finds.**  There is one row of pieces that searches of
the code segments of a query give, and the expansion writes it piece by piece: it is the row of the
texts for them, characters and literals as they stand and each reference as what its name stands for at
its place.  A search that has come to some place goes on as it would begin there: no form
begins where it keeps a character, a form that begins is taken whole, and a text that only starts like
one hides nothing that begins inside it. -/
theorem expand_searches (query : List Char) :
    (∃ groups : List (List Piece),
      (∀ groups', List.Forall₂ SearchSegment (Segment.split query) groups' ↔ groups' = groups) ∧
      ∀ templates,
        expand templates query =
          (groups.flatten.foldlM (Progress.write templates) {}).map (fun p => p.before.reverse) ∧
        ∀ out, expand templates query = .ok out ↔
          ∃ record : List (Piece × List Char),
            record.map Prod.fst = groups.flatten ∧ out = record.flatMap Prod.snd ∧
              PlacedAll templates {} record) ∧
    ∀ cs pre qs, Search cs (pre ++ qs) →
      (∀ c qs', qs = .kept c :: qs' → Reference.NoneBegins (qs.flatMap Piece.text)) ∧
      (∀ r qs', qs = .reference r :: qs' →
        Reference.Begins (qs.flatMap Piece.text) r (qs'.flatMap Piece.text)) ∧
      (Reference.Malformed (qs.flatMap Piece.text) →
        ∃ c qs', qs = .kept c :: qs' ∧ Search (qs'.flatMap Piece.text) qs') := by
  refine ⟨⟨(Segment.split query).map Piece.ofSegment, fun groups' => searchSegments_iff,
    fun templates => ?_⟩, fun cs pre qs h => ⟨?_, ?_, h.over_malformed⟩⟩
  · rw [← List.flatMap_def]
    exact ⟨rfl, fun out => expand_eq_ok_iff⟩
  · rintro c qs' rfl
    exact h.resumed.noneBegins
  · rintro r qs' rfl
    exact h.resumed.begins

/-- Brackets in brackets, a sign behind a sign, a sign in braces, a brace in a format, and brackets
that open again before they are closed. -/
example : expand [{ name := "v" }, { name := "b" }]
    "[[[v]]] $$v $\x7b$v\x7d $\x7bv:$\x7bb\x7d\x7d [[v[[b]]".toList =
    .ok "[5m] $v $\x7bv\x7d v\x7d [[v5m".toList := by
  decide +kernel

end PanelLint.Query
