import Mathlib.Data.List.Forall2
import PanelLint.Proofs.Text.Run
import PanelLint.Query.Segment
/-!
# Segmentations of a query

`Segment.split` cuts a query by running over it once.  Here a list of segments is judged by itself,
with no text to run over: `Segmented` asks of code that it holds no quote and of a literal that it
ends with the quote that closes it, or else is the last segment.

* `segmented_split`: every text is cut into such a list;
* `Segmented.split_eq`: no other such list has the same text.

So to know the segments of a text it is enough to show a segmented list with that text.  This is how
the segments of an expansion are found without following the splitter a second time.
-/

namespace PanelLint.Query

open PanelLint.Text

/-! ## 1. The end of a literal -/

/-- Whether a text that stands behind the opening quote of a literal ends just where the literal
does. -/
def closes (quote : Char) : List Char → Bool
  | [] => false
  | c :: cs =>
    if c = '\\' ∧ quote ≠ backtick then
      match cs with
      | [] => false
      | _ :: ds => closes quote ds
    else if c = quote then cs.isEmpty
    else closes quote cs

theorem closeLiteral_escape {quote c d : Char} {cs : List Char} (h : c = '\\' ∧ quote ≠ backtick) :
    closeLiteral quote (c :: d :: cs) =
      (c :: d :: (closeLiteral quote cs).1, (closeLiteral quote cs).2) := by
  rw [closeLiteral.eq_def]
  simp only [if_pos h]

theorem closeLiteral_quote {quote : Char} {cs : List Char} (h : ¬ (quote = '\\' ∧ quote ≠ backtick)) :
    closeLiteral quote (quote :: cs) = ([quote], cs) := by
  rw [closeLiteral.eq_def]
  simp only [if_neg h, if_true]

theorem closeLiteral_other {quote c : Char} {cs : List Char} (h : ¬ (c = '\\' ∧ quote ≠ backtick))
    (hq : ¬ c = quote) :
    closeLiteral quote (c :: cs) = (c :: (closeLiteral quote cs).1, (closeLiteral quote cs).2) := by
  rw [closeLiteral.eq_def]
  simp only [if_neg h, if_neg hq]

theorem closes_escape {quote c d : Char} {cs : List Char} (h : c = '\\' ∧ quote ≠ backtick) :
    closes quote (c :: d :: cs) = closes quote cs := by
  rw [closes.eq_def]
  simp only [if_pos h]

theorem closes_quote {quote : Char} {cs : List Char} (h : ¬ (quote = '\\' ∧ quote ≠ backtick)) :
    closes quote (quote :: cs) = cs.isEmpty := by
  rw [closes.eq_def]
  simp only [if_neg h, if_true]

theorem closes_other {quote c : Char} {cs : List Char} (h : ¬ (c = '\\' ∧ quote ≠ backtick))
    (hq : ¬ c = quote) : closes quote (c :: cs) = closes quote cs := by
  rw [closes.eq_def]
  simp only [if_neg h, if_neg hq]

/-- A literal that is closed ends there, whatever follows. -/
theorem closeLiteral_of_closes {quote : Char} {body : List Char} (rest : List Char)
    (h : closes quote body = true) : closeLiteral quote (body ++ rest) = (body, rest) := by
  fun_induction closes quote body with
  | case1 => exact absurd h (by simp)
  | case2 c hc => exact absurd h (by simp)
  | case3 c hc d ds ih =>
    rw [List.cons_append, List.cons_append, closeLiteral_escape hc, ih h]
  | case4 cs hc =>
    rw [List.isEmpty_iff.mp h, List.cons_append, closeLiteral_quote hc, List.nil_append]
  | case5 c cs hc hq ih =>
    rw [List.cons_append, closeLiteral_other hc hq, ih h]

/-- What `closeLiteral` takes is closed, unless it takes everything. -/
theorem closes_closeLiteral (quote : Char) (cs : List Char) :
    closes quote (closeLiteral quote cs).1 = true ∨ closeLiteral quote cs = (cs, []) := by
  fun_induction closeLiteral quote cs with
  | case1 => exact Or.inr rfl
  | case2 c hc => exact Or.inr rfl
  | case3 c hc d ds ih =>
    rcases ih with ih | ih
    · exact Or.inl ((closes_escape hc).trans ih)
    · right
      rw [ih]
  | case4 cs hc =>
    exact Or.inl (closes_quote hc)
  | case5 c cs hc hq ih =>
    rcases ih with ih | ih
    · exact Or.inl ((closes_other hc hq).trans ih)
    · right
      rw [ih]

/-! ## 2. Segmented lists -/

/-- Whether a segment is a string literal. -/
def Segment.isLiteral : Segment → Bool
  | .code _ => false
  | .literal _ => true

/-- A text that can be a code segment. -/
def IsCode (t : List Char) : Prop := t ≠ [] ∧ ∀ c ∈ t, isQuote c = false

/-- **The segments of some text.**  Code holds no quote and never meets other code; a literal is
closed where it ends, and only the last one may be left open. -/
inductive Segmented : List Segment → Prop
  | nil : Segmented []
  | code {t : List Char} {ss : List Segment} : IsCode t → (∀ s ∈ ss.head?, s.isLiteral = true) →
      Segmented ss → Segmented (.code t :: ss)
  | literal {quote : Char} {body : List Char} {ss : List Segment} : isQuote quote = true →
      closes quote body = true → Segmented ss → Segmented (.literal (quote :: body) :: ss)
  | openLiteral {quote : Char} {body : List Char} : isQuote quote = true →
      closeLiteral quote body = (body, []) → Segmented [.literal (quote :: body)]

/-- The first segment of a text that begins with a quote is a literal. -/
theorem head_split_of_quote {cs : List Char} (h : ∀ c ∈ cs.head?, isQuote c = true) :
    ∀ s ∈ (Segment.split cs).head?, s.isLiteral = true := by
  intro s hs
  cases cs with
  | nil => rw [Segment.split] at hs; exact absurd hs (by simp)
  | cons c cs =>
    rw [Segment.split, if_pos (h c (by simp))] at hs
    simp only [List.head?_cons, Option.mem_some_iff] at hs
    rw [← hs]
    rfl

theorem isCode_cons_takeWhile {c : Char} (cs : List Char) (h : ¬ isQuote c = true) :
    IsCode (c :: cs.takeWhile (!isQuote ·)) := by
  refine ⟨by simp, fun d hd => ?_⟩
  rcases List.mem_cons.mp hd with rfl | hd
  · simpa using h
  · simpa using List.mem_takeWhile_imp hd

/-- Every text is cut into a segmented list. -/
theorem segmented_split (cs : List Char) : Segmented (Segment.split cs) := by
  fun_induction Segment.split cs with
  | case1 => exact Segmented.nil
  | case2 c cs hc ih =>
    rcases closes_closeLiteral c cs with h | h
    · exact Segmented.literal hc h ih
    · rw [h, Segment.split]
      exact Segmented.openLiteral hc h
  | case3 c cs hc ih =>
    refine Segmented.code (isCode_cons_takeWhile cs hc) (head_split_of_quote ?_) ih
    intro d hd
    simpa using endsRun_dropWhile (!isQuote ·) cs d hd

/-- The text after a code segment begins with a quote, if there is any. -/
theorem head_texts_of_literal {ss : List Segment} (h : Segmented ss)
    (hl : ∀ s ∈ ss.head?, s.isLiteral = true) :
    ∀ c ∈ (ss.flatMap Segment.text).head?, isQuote c = true := by
  intro c hc
  cases h with
  | nil => exact absurd hc (by simp)
  | code _ _ _ => exact absurd (hl _ rfl) (by simp [Segment.isLiteral])
  | literal hq _ _ =>
    simp only [List.flatMap_cons, Segment.text, List.cons_append, List.head?_cons,
      Option.mem_some_iff] at hc
    exact hc ▸ hq
  | openLiteral hq _ =>
    simp only [List.flatMap_cons, Segment.text, List.cons_append, List.head?_cons,
      Option.mem_some_iff] at hc
    exact hc ▸ hq

/-- **A segmented list is the only one with its text.** -/
theorem Segmented.split_eq {ss : List Segment} (h : Segmented ss) :
    Segment.split (ss.flatMap Segment.text) = ss := by
  induction h with
  | nil => rw [List.flatMap_nil, Segment.split]
  | @code t ss ht hl hs ih =>
    obtain ⟨hne, hq⟩ := ht
    obtain ⟨c, t, rfl⟩ := List.exists_cons_of_ne_nil hne
    have htail : ∀ d ∈ t, (!isQuote d) = true := fun d hd => by
      simp [hq d (List.mem_cons_of_mem c hd)]
    have hhead : EndsRun (!isQuote ·) (ss.flatMap Segment.text) := fun d hd => by
      simp [head_texts_of_literal hs hl d hd]
    rw [List.flatMap_cons, Segment.text, List.cons_append, Segment.split,
      if_neg (by simp [hq c (by simp)]), takeWhile_run htail hhead,
      dropWhile_run htail hhead, ih]
  | @literal quote body ss hq hc hs ih =>
    rw [List.flatMap_cons, Segment.text, List.cons_append, Segment.split, if_pos hq,
      closeLiteral_of_closes _ hc, ih]
  | @openLiteral quote body hq hc =>
    simp only [List.flatMap_cons, List.flatMap_nil, List.append_nil, Segment.text]
    rw [Segment.split, if_pos hq, hc, Segment.split]

/-! ## 3. Parts of segmented lists -/

theorem Segmented.isCode_of_mem {ss : List Segment} (h : Segmented ss) {t : List Char}
    (ht : .code t ∈ ss) : IsCode t := by
  induction h with
  | nil => exact absurd ht (by simp)
  | code hcode _ _ ih =>
    rcases List.mem_cons.mp ht with heq | ht
    · injection heq with heq
      exact heq ▸ hcode
    · exact ih ht
  | literal _ _ _ ih =>
    rcases List.mem_cons.mp ht with heq | ht
    · exact absurd heq (by simp)
    · exact ih ht
  | openLiteral _ _ => exact absurd ht (by simp)

theorem Segmented.of_append {ss ss' : List Segment} (h : Segmented (ss ++ ss')) :
    Segmented ss ∧ Segmented ss' := by
  induction ss with
  | nil => exact ⟨Segmented.nil, h⟩
  | cons s ss ih =>
    rw [List.cons_append] at h
    generalize hl : ss ++ ss' = l at h
    cases h with
    | code ht hh hs =>
      obtain ⟨h1, h2⟩ := ih (hl ▸ hs)
      refine ⟨Segmented.code ht ?_ h1, h2⟩
      cases ss with
      | nil => simp
      | cons s ss => exact fun x hx => hh x (by rw [← hl]; exact hx)
    | literal hq hc hs =>
      obtain ⟨h1, h2⟩ := ih (hl ▸ hs)
      exact ⟨Segmented.literal hq hc h1, h2⟩
    | openLiteral hq hc =>
      obtain ⟨rfl, rfl⟩ := List.append_eq_nil_iff.mp hl
      exact ⟨Segmented.openLiteral hq hc, Segmented.nil⟩

theorem Segmented.tail {s : Segment} {ss : List Segment} (h : Segmented (s :: ss)) : Segmented ss :=
  have happ : Segmented ([s] ++ ss) := h
  happ.of_append.2

/-- **A segment after its code has been rewritten.**  Code becomes other code, a literal stays. -/
inductive Segment.Recoded : Segment → Segment → Prop
  | code {t t' : List Char} : IsCode t' → Recoded (.code t) (.code t')
  | literal {t : List Char} : Recoded (.literal t) (.literal t)

theorem Segment.Recoded.isLiteral_eq {s s' : Segment} (h : s.Recoded s') :
    s'.isLiteral = s.isLiteral := by
  cases h <;> rfl

theorem forall₂_recoded_self {ss : List Segment} (h : ∀ t, .code t ∈ ss → IsCode t) :
    List.Forall₂ Segment.Recoded ss ss := by
  refine List.forall₂_same.mpr fun s hs => ?_
  cases s with
  | literal t => exact .literal
  | code t => exact .code (h t hs)

/-- Rewriting the code of a segmented list leaves it segmented. -/
theorem Segmented.recoded {ss ss' : List Segment} (h : Segmented ss)
    (hx : List.Forall₂ Segment.Recoded ss ss') : Segmented ss' := by
  induction h generalizing ss' with
  | nil => cases hx; exact Segmented.nil
  | @code t ss ht hl hs ih =>
    cases hx with
    | cons hhead htail =>
      cases hhead with
      | code ht' =>
        refine Segmented.code ht' ?_ (ih htail)
        cases htail with
        | nil => simp
        | cons hab _ => simpa [hab.isLiteral_eq] using hl
  | @literal quote body ss hq hc hs ih =>
    cases hx with
    | cons hhead htail =>
      cases hhead
      exact Segmented.literal hq hc (ih htail)
  | @openLiteral quote body hq hc =>
    cases hx with
    | cons hhead htail =>
      cases hhead
      cases htail
      exact Segmented.openLiteral hq hc

/-- The first segments of a segmented list end well with any code in place of the next one. -/
theorem Segmented.append_code {ss ss' : List Segment} {t t' : List Char}
    (h : Segmented (ss ++ .code t :: ss')) (ht : IsCode t') : Segmented (ss ++ [.code t']) := by
  have hfront : Segmented (ss ++ [.code t]) := by
    rw [List.append_cons] at h
    exact h.of_append.1
  exact hfront.recoded (List.rel_append
    (forall₂_recoded_self fun u hu => h.isCode_of_mem (List.mem_append_left _ hu))
    (List.Forall₂.cons (.code ht) .nil))

end PanelLint.Query
