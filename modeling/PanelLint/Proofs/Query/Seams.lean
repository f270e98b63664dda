import PanelLint.Proofs.Query.Structure
/-!
# Seams in a query

Two texts put together are read piece by piece as they are read by themselves, if nothing runs over
the seam: no literal is open at the end of the first, the second does not go on with what a reference
there may have begun, and no brace of the first waits for the second to close it.

* `Reference.read?_append`, `scan_append`: code with more code behind it;
* `pieces_append`: a query that leaves no literal open, with more text behind it;
* `pieces_concat_of_open`: a query that leaves one open, with one more character in it.
-/

namespace PanelLint.Query

open PanelLint.Text

variable {a cs d more rest t w : List Char} {c : Char} {r : Reference}

/-! ## 1. References at a seam -/

/-- **A text that takes up nothing begun before it**, an open brace aside: it begins with no character
from the inside of a reference, and a bracket at its front opens no name. -/
structure Fresh (more : List Char) : Prop where
  head : ∀ c ∈ more.head?, isWord c = false ∧ c ∉ [':', ']', '\x7b']
  bracket : ∀ rest, more = '[' :: rest → EndsRun isWord rest

theorem Fresh.of_append (h : Fresh (more ++ rest)) : Fresh more := by
  cases more with
  | nil => exact ⟨fun _ hc => absurd hc (by simp), fun _ heq => absurd heq (by simp)⟩
  | cons c more =>
    refine ⟨h.head, fun inner hinner d hd => ?_⟩
    obtain ⟨rfl, rfl⟩ := List.cons.inj hinner
    refine h.bracket (more ++ rest) rfl d ?_
    rw [List.head?_append, hd]
    rfl

/-- Behind a reference only the end of a word matters. -/
theorem Reference.Begins.before (h : Begins cs r rest)
    (hmore : EndsRun isWord rest → EndsRun isWord more) : Begins (r.text ++ more) r more := by
  cases h with
  | plain hname he => exact .plain hname (hmore he)
  | bracketed hname hformat => exact .bracketed hname hformat
  | braced hname hfield hformat => exact .braced hname hfield hformat

/-- A reference that goes on behind a seam meets a character that belongs into it, unless a brace was
open before the seam, and is closed behind it. -/
theorem Reference.Begins.over_seam {front inner : List Char} (h : Begins cs r rest)
    (hfront : front ≠ []) (hinner : inner ≠ []) (htext : r.text = front ++ inner)
    (hfresh : Fresh (inner ++ w)) : (∃ tail, front = '$' :: '\x7b' :: tail) ∧ '\x7d' ∈ inner := by
  obtain ⟨d, inner, rfl⟩ := List.exists_cons_of_ne_nil hinner
  obtain ⟨hword, hmark⟩ := hfresh.head d rfl
  cases h with
  | @plain name _ hname _ =>
    replace htext : '$' :: name = front ++ d :: inner := htext
    obtain ⟨c, front, rfl⟩ := List.exists_cons_of_ne_nil hfront
    obtain ⟨-, rfl⟩ := List.cons.inj htext
    rw [hname.2 d (by simp)] at hword
    cases hword
  | @bracketed name format _ hname hformat =>
    replace htext : '[' :: '[' :: (name ++ format ++ [']', ']']) = front ++ d :: inner := htext
    match front, htext with
    | ['['], rfl =>
      -- the second bracket is the first character behind the seam
      obtain ⟨e, name, rfl⟩ := List.exists_cons_of_ne_nil hname.1
      have hend := hfresh.bracket _ rfl e rfl
      rw [hname.2 e List.mem_cons_self] at hend
      cases hend
    | _ :: _ :: front, htext =>
      simp only [List.cons_append, List.cons.injEq] at htext
      have hd : d ∈ name ++ format ++ [']', ']'] := by
        rw [htext.2.2]
        simp
      rcases List.mem_append.mp hd with hd | hd
      · rcases List.mem_append.mp hd with hd | hd
        · rw [hname.2 d hd] at hword
          cases hword
        · rcases hformat with rfl | ⟨run, hrun, rfl⟩
          · cases hd
          · rcases List.mem_cons.mp hd with rfl | hd
            · exact absurd (by decide) hmark
            · rw [hrun.2 d hd] at hword
              cases hword
      · obtain rfl : d = ']' := by simpa using hd
        exact absurd (by decide) hmark
  | @braced name field format _ hname hfield hformat =>
    replace htext : '$' :: '\x7b' :: (name ++ field ++ format ++ ['\x7d']) = front ++ d :: inner :=
      htext
    match front, htext with
    | ['$'], rfl => exact absurd (by decide) hmark
    | c :: e :: front, htext =>
      simp only [List.cons_append, List.cons.injEq] at htext
      obtain ⟨rfl, rfl, htext⟩ := htext
      have hlast : (front ++ d :: inner).getLast? = some '\x7d' := by
        rw [← htext]
        simp
      rw [List.getLast?_append_of_ne_nil _ (List.cons_ne_nil d inner)] at hlast
      exact ⟨⟨front, rfl⟩, List.mem_of_getLast? hlast⟩

/-- **Where no reference begins, none begins with more text behind.** -/
theorem Reference.read?_append_eq_none (h : read? (c :: cs) = none) (hfresh : Fresh more)
    (hbrace : (∀ tail, c :: cs ≠ '$' :: '\x7b' :: tail) ∨ '\x7d' ∉ more) :
    read? (c :: cs ++ more) = none := by
  refine read?_eq_none_iff.mpr fun r rest hbegins => ?_
  have hnone := read?_eq_none_iff.mp h
  rcases List.append_eq_append_iff.mp hbegins.text_append with ⟨inner, htext, hmore⟩ |
    ⟨behind, hfront, hrest⟩
  · by_cases hinner : inner = []
    · refine hnone r [] ?_
      have hcut : Begins (r.text ++ []) r [] := hbegins.before fun _ => endsRun_nil
      rwa [htext, hinner, List.append_nil, List.append_nil] at hcut
    · obtain ⟨⟨tail, htail⟩, hmem⟩ :=
        hbegins.over_seam (List.cons_ne_nil c cs) hinner htext (hmore ▸ hfresh)
      rcases hbrace with hbrace | hbrace
      · exact hbrace tail htail
      · exact hbrace (hmore ▸ List.mem_append_left rest hmem)
  · refine hnone r behind ?_
    rw [hfront]
    refine hbegins.before fun he e hmem => he e ?_
    rw [hrest, List.head?_append, hmem]
    rfl

/-- Where a reference begins, it is the same with more text behind. -/
theorem Reference.read?_append (h : read? cs = some (r, rest)) (hfresh : Fresh more) :
    read? (cs ++ more) = some (r, rest ++ more) := by
  have hbegins := read?_eq_some_iff.mp h
  have hends : EndsRun isWord rest → EndsRun isWord (rest ++ more) := by
    intro he e hmem
    cases rest with
    | nil => exact (hfresh.head e hmem).1
    | cons f rest => exact he e hmem
  rw [hbegins.text_append, List.append_assoc]
  exact read?_eq_some_iff.mpr (hbegins.before hends)

/-! ## 2. Code at a seam -/

/-- **No brace stands open**: every `${` lies in a reference, and none is kept as it is. -/
def NoLooseBrace (ps : List Piece) : Prop := ¬ [.kept '$', .kept '\x7b'] <:+: ps

theorem NoLooseBrace.of_infix {ps qs : List Piece} (h : NoLooseBrace qs) (hps : ps <:+: qs) :
    NoLooseBrace ps := fun hloose => h (hloose.trans hps)

/-- Code without references in it is kept character by character, whatever follows. -/
theorem scan_kept (hw : ∀ d ∈ w, d ≠ '$' ∧ d ≠ '[') (cs : List Char) :
    Piece.scan (w ++ cs) = w.map .kept ++ Piece.scan cs := by
  induction w with
  | nil => rfl
  | cons d w ih =>
    obtain ⟨⟨hsign, hbracket⟩, hw⟩ := List.forall_mem_cons.mp hw
    have hread : Reference.read? (d :: (w ++ cs)) = none := by
      unfold Reference.read?
      split
      · next heq => exact absurd (List.cons.inj heq).1 hsign
      · next heq => exact absurd (List.cons.inj heq).1 hsign
      · next heq => exact absurd (List.cons.inj heq).1 hbracket
      · rfl
    rw [List.cons_append, Piece.scan_of_none hread, ih hw]
    rfl

/-- **Code is scanned up to a seam as it is without what follows.** -/
theorem scan_append (hfresh : Fresh more)
    (hbrace : NoLooseBrace (Piece.scan t) ∨ '\x7d' ∉ more) :
    Piece.scan (t ++ more) = Piece.scan t ++ Piece.scan more := by
  fun_induction Piece.scan t with
  | case1 => rfl
  | case2 c cs r rest h _ ih =>
    rw [Piece.scan_of_some (Reference.read?_append h hfresh), List.cons_append,
      ih (hbrace.imp_left fun hloose => hloose.of_infix (List.suffix_cons _ _).isInfix)]
  | case3 c cs h ih =>
    have hopen : (∀ tail, c :: cs ≠ '$' :: '\x7b' :: tail) ∨ '\x7d' ∉ more := by
      refine hbrace.imp_left fun hloose tail heq => ?_
      obtain ⟨rfl, rfl⟩ := List.cons.inj heq
      refine hloose ⟨[], Piece.scan tail, ?_⟩
      rw [← List.singleton_append (l := tail), scan_kept (List.forall_mem_singleton.mpr (by decide))]
      rfl
    have hnone : Reference.read? (c :: (cs ++ more)) = none :=
      Reference.read?_append_eq_none h hfresh hopen
    rw [List.cons_append, Piece.scan_of_none hnone, List.cons_append,
      ih (hbrace.imp_left fun hloose => hloose.of_infix (List.suffix_cons _ _).isInfix)]

/-! ## 3. Segments one after another -/

/-- A query without quotes is one stretch of code. -/
theorem pieces_of_code {query : List Char} (h : ∀ d ∈ query, isQuote d = false) :
    pieces query = Piece.scan query := by
  simpa using pieces_code_append h (by simp) Segmented.nil

theorem pieces_nil : pieces [] = [] := by
  rw [pieces, Segment.split]
  rfl

/-- A literal is one piece, and the others are those of what is behind it. -/
theorem pieces_of_quote (h : isQuote c = true) (cs : List Char) :
    pieces (c :: cs) = .literal (c :: (closeLiteral c cs).1) :: pieces (closeLiteral c cs).2 := by
  rw [pieces, Segment.split, if_pos h]
  rfl

/-- The code up to a literal or to the end is scanned by itself. -/
theorem pieces_code_before (ht : ∀ c ∈ t, isQuote c = false) (hd : EndsRun (!isQuote ·) d) :
    pieces (t ++ d) = Piece.scan t ++ pieces d := by
  have hhead : ∀ c ∈ d.head?, isQuote c = true := fun c hc => by simpa using hd c hc
  have h := pieces_code_append ht (head_split_of_quote hhead) (segmented_split d)
  rwa [Segment.split_texts] at h

/-- **Induction on the segments of a text**, from the last one to the first. -/
theorem segments_induction {P : List Char → Prop} (nil : P [])
    (literal : ∀ c cs, isQuote c = true → P (closeLiteral c cs).2 → P (c :: cs))
    (code : ∀ t d, IsCode t → EndsRun (!isQuote ·) d → P d → P (t ++ d)) (a : List Char) : P a := by
  fun_induction Segment.split a with
  | case1 => exact nil
  | case2 c cs hc ih => exact literal c cs hc ih
  | case3 c cs hc ih =>
    have h := code _ _ (isCode_cons_takeWhile cs hc) (endsRun_dropWhile _ cs) ih
    rwa [List.cons_append, List.takeWhile_append_dropWhile] at h

/-- Every text is code up to the first quote in it. -/
theorem exists_code_before (query : List Char) :
    ∃ t d, query = t ++ d ∧ (∀ c ∈ t, isQuote c = false) ∧ EndsRun (!isQuote ·) d :=
  ⟨query.takeWhile (!isQuote ·), query.dropWhile (!isQuote ·),
    List.takeWhile_append_dropWhile.symm, fun c hc => by simpa using List.mem_takeWhile_imp hc,
    endsRun_dropWhile _ query⟩

/-- More code in front of a query is scanned together with the code that the query begins with. -/
theorem pieces_code_before_code (hw : ∀ c ∈ w, isQuote c = false) (ht : ∀ c ∈ t, isQuote c = false)
    (hd : EndsRun (!isQuote ·) d) : pieces (w ++ (t ++ d)) = Piece.scan (w ++ t) ++ pieces d := by
  rw [← List.append_assoc]
  exact pieces_code_before (fun c hc => (List.mem_append.mp hc).elim (hw c) (ht c)) hd

/-- A text that is shown to have no quotes character by character. -/
theorem not_isQuote_of_all (h : w.all (!isQuote ·) = true) : ∀ c ∈ w, isQuote c = false := by
  intro c hc
  simpa using List.all_eq_true.mp h c hc

/-- A character that begins neither a literal nor a reference. -/
def isPlain (c : Char) : Bool := !isQuote c && c != '$' && c != '['

/-- Code without references in it is kept in front of every query. -/
theorem pieces_kept (h : w.all isPlain = true) (query : List Char) :
    pieces (w ++ query) = w.map .kept ++ pieces query := by
  have hw : ∀ c ∈ w, isQuote c = false ∧ c ≠ '$' ∧ c ≠ '[' := fun c hc => by
    simpa [isPlain, and_assoc] using List.all_eq_true.mp h c hc
  obtain ⟨t, d, rfl, ht, hd⟩ := exists_code_before query
  rw [pieces_code_before_code (fun c hc => (hw c hc).1) ht hd,
    scan_kept (fun c hc => (hw c hc).2), pieces_code_before ht hd, List.append_assoc]

/-! ## 4. Queries at a seam -/

/-- A literal that is closed stays as it is with more text behind. -/
theorem closeLiteral_append_of_closes {quote : Char} (h : closes quote (closeLiteral quote cs).1 = true)
    (more : List Char) : closeLiteral quote (cs ++ more) =
      ((closeLiteral quote cs).1, (closeLiteral quote cs).2 ++ more) := by
  have happ := closeLiteral_of_closes ((closeLiteral quote cs).2 ++ more) h
  rwa [← List.append_assoc, closeLiteral_append] at happ

/-- Whether a segment is code, or a literal with its closing quote. -/
def Segment.isClosed : Segment → Bool
  | .literal (quote :: body) => closes quote body
  | _ => true

/-- **A text that leaves no literal open.** -/
def LeavesNoneOpen (a : List Char) : Prop := ∀ s ∈ Segment.split a, s.isClosed = true

instance (a : List Char) : Decidable (LeavesNoneOpen a) :=
  decidable_of_iff ((Segment.split a).all Segment.isClosed = true) List.all_eq_true

theorem leavesNoneOpen_nil : LeavesNoneOpen [] := by
  rw [LeavesNoneOpen, Segment.split]
  exact fun s hs => absurd hs (by simp)

theorem leavesNoneOpen_literal_iff (h : isQuote c = true) : LeavesNoneOpen (c :: cs) ↔
    closes c (closeLiteral c cs).1 = true ∧ LeavesNoneOpen (closeLiteral c cs).2 := by
  rw [LeavesNoneOpen, Segment.split, if_pos h, List.forall_mem_cons]
  rfl

theorem leavesNoneOpen_code_iff (ht : IsCode t) (hd : EndsRun (!isQuote ·) d) :
    LeavesNoneOpen (t ++ d) ↔ LeavesNoneOpen d := by
  have hhead : ∀ c ∈ d.head?, isQuote c = true := fun c hc => by simpa using hd c hc
  have hsplit := (Segmented.code ht (head_split_of_quote hhead) (segmented_split d)).split_eq
  rw [List.flatMap_cons, Segment.split_texts] at hsplit
  rw [LeavesNoneOpen, show t ++ d = Segment.text (.code t) ++ d from rfl, hsplit,
    List.forall_mem_cons]
  exact and_iff_right rfl

theorem endsRun_append_of_ne_nil {p : Char → Bool} (hd : EndsRun p d) (hne : d ≠ []) :
    EndsRun p (d ++ more) := by
  obtain ⟨e, d, rfl⟩ := List.exists_cons_of_ne_nil hne
  exact endsRun_cons _ (hd e rfl)

/-- **Up to a seam a query has the pieces that it has without what follows.** -/
theorem pieces_append (hclosed : LeavesNoneOpen a) (hfresh : Fresh more)
    (hbrace : NoLooseBrace (pieces a) ∨ '\x7d' ∉ more) :
    pieces (a ++ more) = pieces a ++ pieces more := by
  induction a using segments_induction with
  | nil => rw [pieces_nil, List.nil_append, List.nil_append]
  | literal c cs hc ih =>
    obtain ⟨hcloses, hrest⟩ := (leavesNoneOpen_literal_iff hc).mp hclosed
    rw [pieces_of_quote hc] at hbrace ⊢
    rw [List.cons_append, pieces_of_quote hc, closeLiteral_append_of_closes hcloses,
      List.cons_append,
      ih hrest (hbrace.imp_left fun hloose => hloose.of_infix (List.suffix_cons _ _).isInfix)]
  | code t d ht hd ih =>
    replace ih := ih ((leavesNoneOpen_code_iff ht hd).mp hclosed)
    rw [pieces_code_before ht.2 hd] at hbrace ⊢
    by_cases hne : d = []
    · -- the code goes on behind the seam, up to the next literal
      subst hne
      obtain ⟨u, e, rfl, hu, he⟩ := exists_code_before more
      rw [List.append_nil, pieces_code_before_code ht.2 hu he, pieces_code_before hu he, pieces_nil,
        List.append_nil, scan_append hfresh.of_append, List.append_assoc]
      exact hbrace.imp (fun hloose => hloose.of_infix (List.prefix_append _ _).isInfix)
        fun hmem h => hmem (List.mem_append_left _ h)
    · rw [List.append_assoc, pieces_code_before ht.2 (endsRun_append_of_ne_nil hd hne),
        ih (hbrace.imp_left fun hloose => hloose.of_infix (List.suffix_append _ _).isInfix),
        List.append_assoc]

/-! ## 5. Literals left open -/

/-- An open literal takes in every character that is not its quote. -/
theorem closeLiteral_concat_of_open {quote : Char} (hopen : closes quote cs = false)
    (hall : closeLiteral quote cs = (cs, [])) (hc : ¬ c = quote) :
    closeLiteral quote (cs ++ [c]) = (cs ++ [c], []) := by
  fun_induction closes quote cs with
  | case1 =>
    rw [List.nil_append, closeLiteral.eq_def]
    simp only [if_neg hc, closeLiteral, ite_self]
  | case2 d hd =>
    rw [List.singleton_append, closeLiteral_escape hd, closeLiteral]
  | case3 d hd e ds ih =>
    rw [closeLiteral_escape hd, Prod.mk.injEq, List.cons.injEq, List.cons.injEq] at hall
    rw [List.cons_append, List.cons_append, closeLiteral_escape hd,
      ih hopen (Prod.ext hall.1.2.2 hall.2)]
  | case4 ds hd =>
    rw [closeLiteral_quote hd, Prod.mk.injEq] at hall
    rw [hall.2] at hopen
    cases hopen
  | case5 d ds hd hq ih =>
    rw [closeLiteral_other hd hq, Prod.mk.injEq, List.cons.injEq] at hall
    rw [List.cons_append, closeLiteral_other hd hq, ih hopen (Prod.ext hall.1.2 hall.2)]

/-- **A literal left open takes in a character behind it.** -/
theorem pieces_concat_of_open (hopen : ¬ LeavesNoneOpen a) (hc : isQuote c = false) :
    ∃ ps l, pieces a = ps ++ [.literal l] ∧ pieces (a ++ [c]) = ps ++ [.literal (l ++ [c])] := by
  induction a using segments_induction with
  | nil => exact absurd leavesNoneOpen_nil hopen
  | literal q cs hq ih =>
    cases hcloses : closes q (closeLiteral q cs).1 with
    | true =>
      obtain ⟨ps, l, hps, hps'⟩ := ih fun hrest =>
        hopen ((leavesNoneOpen_literal_iff hq).mpr ⟨hcloses, hrest⟩)
      refine ⟨.literal (q :: (closeLiteral q cs).1) :: ps, l, ?_, ?_⟩
      · rw [pieces_of_quote hq, hps, List.cons_append]
      · rw [List.cons_append, pieces_of_quote hq, closeLiteral_append_of_closes hcloses, hps',
          List.cons_append]
    | false =>
      have hall : closeLiteral q cs = (cs, []) :=
        (closes_closeLiteral q cs).resolve_left (by simp [hcloses])
      have hne : ¬ c = q := by
        rintro rfl
        rw [hq] at hc
        cases hc
      rw [hall] at hcloses
      refine ⟨[], q :: cs, ?_, ?_⟩
      · rw [pieces_of_quote hq, hall, pieces_nil, List.nil_append]
      · rw [List.cons_append, pieces_of_quote hq, closeLiteral_concat_of_open hcloses hall hne,
          pieces_nil]
        rfl
  | code t d ht hd ih =>
    have hrest := fun h => hopen ((leavesNoneOpen_code_iff ht hd).mpr h)
    have hne : d ≠ [] := by
      rintro rfl
      exact hrest leavesNoneOpen_nil
    obtain ⟨ps, l, hps, hps'⟩ := ih hrest
    refine ⟨Piece.scan t ++ ps, l, ?_, ?_⟩
    · rw [pieces_code_before ht.2 hd, hps, List.append_assoc]
    · rw [List.append_assoc, pieces_code_before ht.2 (endsRun_append_of_ne_nil hd hne), hps',
        List.append_assoc]

end PanelLint.Query
