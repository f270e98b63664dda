import PanelLint.Proofs.Promql.Expressions
import PanelLint.Proofs.Promql.Grafts
import PanelLint.Proofs.Query.Lexemes
/-!
# Twins of a text

A twin of a text has other texts in the place of some parts of it and is the same text elsewhere.  In a
comment a part may be anything.  Elsewhere it begins and ends where tokens do, and what stands in the
twin is read as a single token, which the grammar lets come for those of the part.

Here the lexer is followed through both at once.  Where the next token stands in both, it takes that
from both, since what comes behind a token begins alike (`Twin.kept_token`, `Border.alike`).  A comment is
passed over in both (`Twin.dropComment`).  Where a part gives way, the lexer takes what has come for it
(`exists_counterpart_behind`).

So a text with tokens has twins with tokens, and these come from its own in two moves: single tokens for
runs of tokens, and then an exchange of single tokens (`Twin.counterpart`).
-/

namespace PanelLint.Query

open PanelLint.Text PanelLint.Promql PanelLint.Promql.Lexer

/-! ## 1. What may come for what -/

/-- **A comment reaches to a place** of a text, or over it; `x` is the text from there on. -/
def InComment (whole x : List Char) : Prop :=
  ∃ ts s front, Run {} whole ts s ('#' :: (front ++ x)) ∧ ∀ c ∈ front, isBreak c = false

/-- **A part of a text, and one token in its place.**  The lexer comes to the part `u` in the state `s`
behind the tokens `prev`, takes the tokens `run` and leaves `back` in the state `s'` before the tokens
`next`; `v` is read as `t` there, and leaves the same state.

No comment reaches to the beginning of `u`, and no number stands right before it, as in no query that is
accepted.  What is written before `v` and behind it does not go on into it. -/
structure Lexed (whole before u v back : List Char) (prev run next : List Token) (t : Token)
    (s s' : State) : Prop where
  reached : Run {} whole prev s (u ++ back)
  run : Run s (u ++ back) run s' back
  after : tokensFrom s' back = .ok next
  free : ∀ t ∈ prev.getLast?, t.isQuantity = false
  begins : ¬ InComment whole (u ++ back)
  left : Parted s before
  right : Parted s back
  reads : Reads s v t s'

/-- **A part `u` of a text that may give way to `v`**: one token to another one that it may be
exchanged for, or, outside braces and brackets, a run of tokens to a token that may stand for it. -/
inductive GivesWay (renamed : Prop) (whole before u v back : List Char) : Prop
  | token {prev next : List Token} {t t' : Token} {s s' : State} :
      Lexed whole before u v back prev [t] next t' s s' → Swap renamed prev.reverse t t' next →
      GivesWay renamed whole before u v back
  | run {prev run next : List Token} {t t' : Token} {s : State} :
      Lexed whole before u v back prev run next t' s s → s.mode = .plain →
      StandsFor (prev ++ run ++ next) run next t → Swap renamed prev.reverse t t' next →
      GivesWay renamed whole before u v back

/-- **A text and its twin**, from a place on in `whole` and behind what has been written of the twin.  If a
comment reaches to the end of a part that gives way, both go on with the same line break, or end. -/
inductive Twin (renamed : Prop) (whole : List Char) : List Char → List Char → List Char → Prop
  | nil {before : List Char} : Twin renamed whole before [] []
  | kept {c : Char} {before cs cs' : List Char} : Twin renamed whole (c :: before) cs cs' →
      Twin renamed whole before (c :: cs) (c :: cs')
  | comment {u v before cs cs' : List Char} : InComment whole (u ++ cs) →
      (∀ c ∈ u, isBreak c = false) → v ≠ [] → (∀ c ∈ v, isBreak c = false) →
      Twin renamed whole (v.reverse ++ before) cs cs' →
      Twin renamed whole before (u ++ cs) (v ++ cs')
  | swap {u v before cs cs' : List Char} : GivesWay renamed whole before u v cs →
      (InComment whole cs → cs.head? = cs'.head?) → Twin renamed whole (v.reverse ++ before) cs cs' →
      Twin renamed whole before (u ++ cs) (v ++ cs')

variable {renamed : Prop} {whole before cs cs' : List Char} {prev next run ts us : List Token}
  {s s₁ s' : State} {t u : Token} {o : Option Token} {c : Char} {v w x rest : List Char}

theorem Lexed.tokensFrom_eq (h : Lexed whole before w v cs prev run next u s s') :
    tokensFrom s (w ++ cs) = .ok (run ++ next) := by
  rw [h.run.tokensFrom_eq, h.after]
  rfl

/-- Tokens are taken from some text. -/
theorem Lexed.length_lt (h : Lexed whole before w v cs prev run next u s s') (hne : run ≠ []) :
    cs.length < (w ++ cs).length := by
  rw [List.length_append]
  by_contra hle
  exact hne (Run.done.unique h.run (by rw [List.length_append]; omega)).1

theorem GivesWay.exists_lexed (h : GivesWay renamed whole before w v cs) :
    ∃ prev run next t s s', Lexed whole before w v cs prev run next t s s' := by
  cases h with
  | token hlexed _ => exact ⟨_, _, _, _, _, _, hlexed⟩
  | run hlexed _ _ _ => exact ⟨_, _, _, _, _, _, hlexed⟩

/-! ## 2. Places in comments -/

theorem InComment.tail (h : InComment whole (v ++ x)) (hv : ∀ c ∈ v, isBreak c = false) :
    InComment whole x := by
  obtain ⟨ts, s, front, hrun, hfront⟩ := h
  refine ⟨ts, s, front ++ v, by rwa [List.append_assoc], fun c hc => ?_⟩
  rcases List.mem_append.mp hc with hc | hc
  · exact hfront c hc
  · exact hv c hc

theorem inComment_of_run (h : Run {} whole ts s ('#' :: x)) : InComment whole x :=
  ⟨ts, s, [], h, by simp⟩

/-- At the beginning of a text there is no comment. -/
theorem not_inComment_start (whole : List Char) : ¬ InComment whole whole := by
  rintro ⟨ts, s, front, hrun, -⟩
  have hle := hrun.length_le
  rw [List.length_cons, List.length_append] at hle
  omega

/-- From a place in a comment, the lexer goes on behind the comment. -/
theorem length_le_dropComment {front : List Char} (hrun : Run s ('#' :: (front ++ x)) ts s' rest)
    (hfront : ∀ c ∈ front, isBreak c = false) (hle : rest.length ≤ x.length) :
    rest.length ≤ (dropComment x).length := by
  cases hrun with
  | done =>
    rw [List.length_cons, List.length_append] at hle
    omega
  | step hstep hrun =>
    obtain ⟨-, -, rfl, -⟩ := comment_of_step hstep
    rw [← dropComment_append hfront]
    exact hrun.length_le

/-- Where the lexer stands, a comment that reaches there is over. -/
theorem dropComment_eq_of_inComment (hrun : Run {} whole ts s x) (h : InComment whole x) :
    dropComment x = x := by
  obtain ⟨ts', s', front, hcomment, hfront⟩ := h
  obtain ⟨_, hrest, -⟩ := hcomment.split hrun (by rw [List.length_cons, List.length_append]; omega)
  have hsuffix : dropComment x <:+ x := List.dropWhile_suffix _
  exact hsuffix.eq_of_length_le (length_le_dropComment hrest hfront (Nat.le_refl _))

/-- **Comments do not reach into tokens**, nor to their ends. -/
theorem not_inComment_of_step (hrun : Run {} whole ts s (c :: cs))
    (hstep : step s c cs = .ok (o, s', rest)) (hc : c ≠ '#') (hle : rest.length ≤ x.length)
    (hlt : x.length ≤ cs.length) : ¬ InComment whole x := by
  rintro ⟨ts', s₁, front, hcomment, hfront⟩
  rcases Nat.le_total (c :: cs).length ('#' :: (front ++ x)).length with hfirst | hfirst
  · obtain ⟨_, hrest, -⟩ := hcomment.split hrun hfirst
    cases hrest with
    | done => exact hc rfl
    | step hstep' hrest =>
      obtain ⟨-, -, rfl, -⟩ := comment_of_step hstep'
      have hlength := hrest.length_le
      have hdrop := dropComment_length x
      rw [dropComment_append hfront, List.length_cons] at hlength
      omega
  · obtain ⟨_, hrest, -⟩ := hrun.split hcomment hfirst
    have hlength : ('#' :: (front ++ x)).length ≤ rest.length := by
      cases hrest with
      | done => exact absurd rfl hc
      | step hstep' hrest =>
        rw [hstep] at hstep'
        cases hstep'
        exact hrest.length_le
    rw [List.length_cons, List.length_append] at hlength
    omega

/-- The lexer does not stand within a token. -/
theorem not_run_of_step (hrun : Run {} whole ts s (c :: cs))
    (hstep : step s c cs = .ok (o, s', rest)) (hlt : rest.length < x.length)
    (hle : x.length ≤ cs.length) : ¬ Run {} whole prev s₁ x := by
  intro hx
  obtain ⟨_, hsplit, -⟩ := hrun.split hx (Nat.le_succ_of_le hle)
  exact absurd (hsplit.length_le_of_step hstep hle) (Nat.not_le_of_lt hlt)

/-- What a run leaves is an end of the text. -/
theorem suffix_of_run (h : Run s cs ts s' rest) : rest <:+ cs := by
  induction h with
  | done => exact List.suffix_refl _
  | step hstep _ ih =>
    obtain ⟨w, rfl, -⟩ := took_of_step hstep
    exact ih.trans ((List.suffix_append w _).trans (List.suffix_cons _ _))

/-- Without a hash before it no comment reaches to a place. -/
theorem not_inComment_of_not_mem {front : List Char} (h : '#' ∉ front) :
    ¬ InComment (front ++ x) x := by
  rintro ⟨ts, s, mid, hrun, -⟩
  obtain ⟨a, ha⟩ := suffix_of_run hrun
  have hsplit : a ++ '#' :: mid ++ x = front ++ x := by rw [← ha, List.append_assoc, List.cons_append]
  rw [← List.append_cancel_right hsplit] at h
  exact h (by simp)

/-- A part of a text without comments before it, computed. -/
theorem lexed_of_steps (front : List Char) (n m : Nat) {back : List Char}
    (hwhole : whole = front ++ (w ++ back))
    (hbefore : steps n {} whole = some (prev, s, w ++ back))
    (hrun : steps m s (w ++ back) = some (run, s', back)) (hafter : tokensFrom s' back = .ok next)
    (hfree : (prev.getLast?.all fun t => !t.isQuantity) = true)
    (hcomments : front.all (· != '#') = true)
    (hleft : (before.take 1).all (fun c => !glues c && c != ':') = true)
    (hright : (back.take 1).all (fun c => !glues c && c != ':') = true) (hreads : Reads s v u s') :
    Lexed whole before w v back prev run next u s s' where
  reached := run_of_steps hbefore
  run := run_of_steps hrun
  after := hafter
  free := by
    intro t ht
    rw [ht] at hfree
    simpa using hfree
  begins := by
    rw [hwhole]
    exact not_inComment_of_not_mem fun hmem =>
      absurd (List.all_eq_true.mp hcomments '#' hmem) (by decide)
  left := parted_of_all hleft
  right := parted_of_all hright
  reads := hreads

/-! ## 3. Texts that begin alike -/

theorem head?_append_of_ne_nil {rest : List Char} (hv : v ≠ []) : (v ++ rest).head? = v.head? := by
  obtain ⟨c, v, rfl⟩ := List.exists_cons_of_ne_nil hv
  rfl

/-- **Twins begin with the same character**, or the one as words and numbers do, behind what does not go
on with them. -/
theorem Twin.head (h : Twin renamed whole before cs cs') (hrun : Run {} whole ts s cs)
    (hcomment : ¬ InComment whole cs) : cs.head? = cs'.head? ∨
      (Parted s before ∧ (∀ t ∈ ts.getLast?, t.isQuantity = false) ∧
        ∃ c ∈ cs'.head?, glues c = true ∨ c = ':') := by
  cases h with
  | nil => exact Or.inl rfl
  | kept _ => exact Or.inl rfl
  | comment hin _ _ _ _ => exact absurd hin hcomment
  | swap hgives _ _ =>
    obtain ⟨_, _, _, _, _, _, hlexed⟩ := hgives.exists_lexed
    obtain ⟨rfl, rfl, -⟩ := hrun.unique hlexed.reached rfl
    obtain ⟨c, w, rfl, hc⟩ := hlexed.reads.exists_cons
    exact Or.inr ⟨hlexed.left, hlexed.free, c, rfl, hc⟩

/-- **A token in a twin.**  Parts give way between tokens only, so all of it stands there. -/
theorem Twin.kept_token (hrun : Run {} whole ts s (c :: cs))
    (hstep : step s c cs = .ok (o, s', rest)) (hc : c ≠ '#')
    (h : Twin renamed whole before x cs') (hx : x = w ++ rest) (hle : x.length ≤ cs.length) :
    ∃ rest', cs' = w ++ rest' ∧ Twin renamed whole (w.reverse ++ before) rest rest' := by
  have hwithin : ∀ {e : Char} {w' u cs₁ : List Char}, u ++ cs₁ = e :: w' ++ rest →
      (u ++ cs₁).length ≤ cs.length →
      ¬ InComment whole (u ++ cs₁) ∧ ∀ prev s₁, ¬ Run {} whole prev s₁ (u ++ cs₁) := by
    intro e w' u cs₁ heq hle
    have hlt : rest.length < (u ++ cs₁).length := by
      rw [heq, List.length_append, List.length_cons]
      omega
    exact ⟨not_inComment_of_step hrun hstep hc (Nat.le_of_lt hlt) hle,
      fun _ _ => not_run_of_step hrun hstep hlt hle⟩
  induction h generalizing w with
  | @nil before =>
    obtain ⟨rfl, rfl⟩ := List.append_eq_nil_iff.mp hx.symm
    exact ⟨[], rfl, Twin.nil⟩
  | @kept d before x cs' htail ih =>
    cases w with
    | nil =>
      obtain rfl : d :: x = rest := hx
      exact ⟨d :: cs', rfl, Twin.kept htail⟩
    | cons e w =>
      obtain ⟨rfl, rfl⟩ := List.cons.inj hx
      obtain ⟨rest', rfl, hrest⟩ := ih rfl (Nat.le_of_succ_le hle)
      exact ⟨rest', rfl, by simpa using hrest⟩
  | @comment u v before x cs' hcomment hu hne hv htail ih =>
    cases w with
    | nil =>
      obtain rfl : u ++ x = rest := hx
      exact ⟨_, rfl, Twin.comment hcomment hu hne hv htail⟩
    | cons e w => exact absurd hcomment (hwithin hx hle).1
  | @swap u v before x cs' hgives hends htail ih =>
    cases w with
    | nil =>
      obtain rfl : u ++ x = rest := hx
      exact ⟨_, rfl, Twin.swap hgives hends htail⟩
    | cons e w =>
      obtain ⟨prev, _, _, _, s₁, _, hlexed⟩ := hgives.exists_lexed
      exact absurd hlexed.reached ((hwithin hx hle).2 prev s₁)

/-- **A comment is passed over in twins**, and behind it they go on with the same line break, or end. -/
theorem Twin.dropComment (h : Twin renamed whole before cs cs') (hcomment : InComment whole cs) :
    (Lexer.dropComment cs).head? = (Lexer.dropComment cs').head? ∧
      ∃ before', Twin renamed whole before' (Lexer.dropComment cs) (Lexer.dropComment cs') := by
  induction h with
  | nil => exact ⟨rfl, [], Twin.nil⟩
  | @kept c before cs cs' htail ih =>
    rw [dropComment_eq, dropComment_eq]
    cases hc : isBreak c with
    | true => simpa [List.dropWhile_cons, hc] using ⟨before, Twin.kept htail⟩
    | false =>
      have hdrop := ih (hcomment.tail (v := [c]) (by simpa using hc))
      rw [dropComment_eq, dropComment_eq] at hdrop
      simpa [List.dropWhile_cons, hc] using hdrop
  | comment _ hu _ hv _ ih =>
    rw [dropComment_append hu, dropComment_append hv]
    exact ih (hcomment.tail hu)
  | swap hgives _ _ _ =>
    obtain ⟨_, _, _, _, _, _, hlexed⟩ := hgives.exists_lexed
    exact absurd hcomment hlexed.begins

/-! ## 4. The tokens of twins -/

/-- **A border of tokens in a text and its twin**: the lexer stands in both in the same state, behind the
tokens `ts` of the text and before its tokens `us`. -/
structure Border (renamed : Prop) (whole : List Char) (ts : List Token) (s : State)
    (before cs cs' : List Char) (us : List Token) : Prop where
  run : Run {} whole ts s cs
  comment : InComment whole cs → cs.head? = cs'.head?
  twin : Twin renamed whole before cs cs'
  tokens : tokensFrom s cs = .ok us
  accepted : Accepted (ts ++ us)
  labels : renamed → ∀ us', tokensFrom s cs' = .ok us' → LabelsApart us'

/-- **The tokens of a twin** behind a border: those of the text with names in the place of operands,
and then with tokens exchanged. -/
def Counterpart (renamed : Prop) (ts : List Token) (s : State) (cs' : List Char) (us : List Token) :
    Prop :=
  ∃ mid us', tokensFrom s cs' = .ok us' ∧ Grafted (ts ++ us) us mid ∧
    Exchange renamed ts.reverse mid us'

/-- What is to be shown of a text: behind every border the twin has tokens like those of the text. -/
def Follows (renamed : Prop) (whole cs : List Char) : Prop :=
  ∀ {ts us : List Token} {s : State} {before cs' : List Char},
    Border renamed whole ts s before cs cs' us → Counterpart renamed ts s cs' us

/-- A token that a twin has, with what it has of the tokens behind. -/
theorem counterpart_cons {prev' mid us' : List Token} {u v : Token}
    (htokens : tokensFrom s cs' = .ok (v :: us'))
    (hlabels : renamed → ∀ us', tokensFrom s cs' = .ok us' → LabelsApart us')
    (hgrafted : Grafted (ts ++ us) us (u :: mid)) (hswap : Swap renamed ts.reverse u v mid)
    (hpassed : Advance ts.reverse u mid prev') (htail : Exchange renamed prev' mid us') :
    Counterpart renamed ts s cs' us :=
  ⟨u :: mid, v :: us', htokens, hgrafted, Exchange.cons hswap hpassed
    (fun hrenamed => hlabels hrenamed _ htokens us' (List.suffix_cons v us')) htail⟩

/-- **A step that both texts begin with** gives both the same token. -/
theorem Border.kept {before' rest' : List Char}
    (hb : Border renamed whole ts s before (c :: cs) (c :: cs') us)
    (ih : ∀ cs₁ : List Char, cs₁.length ≤ cs.length → Follows renamed whole cs₁)
    (hstep : step s c cs = .ok (o, s', rest)) (hstep' : step s c cs' = .ok (o, s', rest'))
    (htwin : Twin renamed whole before' rest rest')
    (hcomment : InComment whole rest → rest.head? = rest'.head?) :
    Counterpart renamed ts s (c :: cs') us := by
  obtain ⟨_, _, _, us₁, hstep₁, hus₁, rfl⟩ := exists_step_of_tokensFrom hb.tokens
  rw [hstep] at hstep₁
  cases hstep₁
  obtain ⟨mid, us', hus', hgrafted, hex⟩ := ih rest (step_length hstep)
    { run := hb.run.snoc hstep
      comment := hcomment
      twin := htwin
      tokens := hus₁
      accepted := by
        rw [List.append_assoc]
        exact hb.accepted
      labels := fun hrenamed us' hus' => by
        refine (hb.labels hrenamed (o.toList ++ us') ?_).of_append
        rw [tokensFrom_step hstep', hus']
        rfl }
  have htokens' : tokensFrom s (c :: cs') = .ok (o.toList ++ us') := by
    rw [tokensFrom_step hstep', hus']
    rfl
  rw [List.append_assoc] at hgrafted
  cases o with
  | none => exact ⟨mid, us', htokens', hgrafted, by simpa using hex⟩
  | some t =>
    rw [Option.toList_some, List.reverse_append] at hex
    exact counterpart_cons htokens' hb.labels (.kept t hgrafted) (Swap.same t mid) Advance.token hex

/-- A comment stands in both texts. -/
theorem follows_comment (ih : ∀ cs₁ : List Char, cs₁.length ≤ cs.length → Follows renamed whole cs₁)
    (hb : Border renamed whole ts s before ('#' :: cs) ('#' :: cs') us)
    (h : Twin renamed whole ('#' :: before) cs cs') : Counterpart renamed ts s ('#' :: cs') us := by
  obtain ⟨o, s', rest, us₁, hstep, -, -⟩ := exists_step_of_tokensFrom hb.tokens
  obtain ⟨rfl, rfl, rfl, hstep'⟩ := comment_of_step hstep
  obtain ⟨hhead, before', htwin⟩ := h.dropComment (inComment_of_run hb.run)
  exact hb.kept ih hstep (hstep' cs') htwin fun _ => hhead

/-- What comes behind a token that stands in both texts begins alike. -/
theorem Border.alike {rest' : List Char} (hb : Border renamed whole ts s before (c :: (w ++ rest)) cs' us)
    (hstep : step s c (w ++ rest) = .ok (o, s', rest)) (hc : c ≠ '#')
    (h : Twin renamed whole ((c :: w).reverse ++ before) rest rest') :
    Alike s'.mode o (c :: w) rest rest' := by
  have hcomment : ¬ InComment whole rest :=
    not_inComment_of_step hb.run hstep hc (Nat.le_refl _) (step_length hstep)
  rcases h.head (hb.run.snoc hstep) hcomment with heq | ⟨hparted, hfree, hrest'⟩
  · exact Or.inl heq
  · obtain ⟨d, hd⟩ : ∃ d, (c :: w).getLast? = some d := ⟨_, List.getLast?_eq_some_getLast (by simp)⟩
    have hhead : d ∈ ((c :: w).reverse ++ before).head? := by
      rw [List.head?_append, List.head?_reverse, hd]
      rfl
    refine Or.inr ⟨⟨d, hd, hparted d hhead⟩, Or.inr fun t ht => hfree t ?_, hrest'⟩
    cases ht
    simp

/-- A token that stands in both texts. -/
theorem follows_kept (ih : ∀ cs₁ : List Char, cs₁.length ≤ cs.length → Follows renamed whole cs₁)
    (hb : Border renamed whole ts s before (c :: cs) (c :: cs') us) (hc : c ≠ '#')
    (h : Twin renamed whole (c :: before) cs cs') : Counterpart renamed ts s (c :: cs') us := by
  obtain ⟨o, s', rest, us₁, hstep, -, -⟩ := exists_step_of_tokensFrom hb.tokens
  obtain ⟨w, rfl, htook⟩ := took_of_step hstep
  obtain ⟨rest', rfl, htwin⟩ := h.kept_token hb.run hstep hc rfl (Nat.le_refl _)
  have htwin' : Twin renamed whole ((c :: w).reverse ++ before) rest rest' := by simpa using htwin
  have htook' := htook.frame (hb.alike hstep hc htwin')
  refine hb.kept ih hstep (htook'.step_eq hc) htwin' fun hcomment => ?_
  exact absurd hcomment (not_inComment_of_step hb.run hstep hc (Nat.le_refl _) (step_length hstep))

/-- Tokens in the place of runs begin no arguments and no grouping. -/
theorem opensBody_of_grafted {all mid : List Token} (h : Grafted all ts mid)
    (hbody : opensBody ts = false) : opensBody mid = false := by
  cases h with
  | nil => exact hbody
  | kept _ _ => exact hbody
  | graft hstands _ => exact opensBody_of_isFixed hstands.isFixed

theorem swap_of_grafted {all mid : List Token} (h : Swap renamed prev t u ts)
    (hgrafted : Grafted all ts mid) : Swap renamed prev t u mid := by
  cases h with
  | same => exact Swap.same t mid
  | span hq hdomain hsound => exact Swap.span hq hdomain hsound
  | scalar hq hdomain hspan => exact Swap.scalar hq hdomain hspan
  | label hb hne hbody => exact Swap.label hb hne (opensBody_of_grafted hgrafted hbody)
  | metric hcolon => exact Swap.metric hcolon
  | renamed hr ht hu hb hbody => exact Swap.renamed hr ht hu hb (opensBody_of_grafted hgrafted hbody)

section Swap

variable (hb : Border renamed whole ts s before (w ++ cs) (v ++ cs') us)
  (h : Twin renamed whole (v.reverse ++ before) cs cs')
  (ih : ∀ cs₁ : List Char, cs₁.length < (w ++ cs).length → Follows renamed whole cs₁)
  (hends : InComment whole cs → cs.head? = cs'.head?)
  (hlexed : Lexed whole before w v cs ts run next u s s')

include hb h hends hlexed

/-- Behind a part that has given way both texts go on with the same character. -/
theorem head_eq_of_lexed : cs.head? = cs'.head? := by
  by_cases hcomment : InComment whole cs
  · exact hends hcomment
  · rcases h.head (hb.run.trans hlexed.run) hcomment with heq | ⟨hparted, -, -⟩
    · exact heq
    · exact absurd hparted hlexed.reads.not_parted

/-- So the token is taken that has come for it. -/
theorem tokensFrom_lexed : tokensFrom s (v ++ cs') = (tokensFrom s' cs').map (u :: ·) := by
  have hright : Parted s cs' := by
    have := hlexed.right
    unfold Parted at this ⊢
    rwa [← head_eq_of_lexed hb h hends hlexed]
  have htook := hlexed.reads.took hright
  obtain ⟨c, w, rfl, hc⟩ := hlexed.reads.exists_cons
  have hhash : c ≠ '#' := by
    rintro rfl
    exact absurd hc (by decide)
  exact tokensFrom_step (htook.step_eq hhash)

include ih

/-- **The counterpart behind a part that has given way.** -/
theorem exists_counterpart_behind (hne : run ≠ []) :
    ∃ mid us', tokensFrom s (v ++ cs') = .ok (u :: us') ∧
      Grafted (ts ++ us) next mid ∧ Exchange renamed (ts ++ run).reverse mid us' := by
  have htokens := tokensFrom_lexed hb h hends hlexed
  have hus : us = run ++ next := Except.ok.inj (hb.tokens.symm.trans hlexed.tokensFrom_eq)
  obtain ⟨mid, us', hus', hgrafted, hex⟩ := ih cs (hlexed.length_lt hne)
    { run := hb.run.trans hlexed.run
      comment := hends
      twin := h
      tokens := hlexed.after
      accepted := by
        rw [List.append_assoc, ← hus]
        exact hb.accepted
      labels := fun hrenamed us' hus' => by
        refine (hb.labels hrenamed (u :: us') ?_).tail
        rw [htokens, hus']
        rfl }
  refine ⟨mid, us', by rw [htokens, hus']; rfl, ?_, hex⟩
  rwa [hus, ← List.append_assoc]

omit hlexed

/-- A token has given way. -/
theorem follows_token (hlexed : Lexed whole before w v cs ts [t] next u s s')
    (hswap : Swap renamed ts.reverse t u next) : Counterpart renamed ts s (v ++ cs') us := by
  obtain ⟨mid, us', htokens, hgrafted, htail⟩ := exists_counterpart_behind hb h ih hends hlexed (by simp)
  obtain rfl : us = t :: next := Except.ok.inj (hb.tokens.symm.trans hlexed.tokensFrom_eq)
  rw [List.reverse_append] at htail
  exact counterpart_cons htokens hb.labels (.kept t hgrafted) (swap_of_grafted hswap hgrafted)
    Advance.token htail

/-- A run of tokens has given way. -/
theorem follows_run (hlexed : Lexed whole before w v cs ts run next u s s) (hm : s.mode = .plain)
    (hstands : StandsFor (ts ++ run ++ next) run next t)
    (hswap : Swap renamed ts.reverse t u next) : Counterpart renamed ts s (v ++ cs') us := by
  obtain ⟨mid, us', htokens, hgrafted, htail⟩ :=
    exists_counterpart_behind hb h ih hends hlexed hstands.ne_nil
  obtain rfl : us = run ++ next := Except.ok.inj (hb.tokens.symm.trans hlexed.tokensFrom_eq)
  have hinside : ∀ {ts rest}, Run {} whole ts s rest → inBraces ts.reverse = false := fun hrun => by
    rw [← Bool.not_eq_true, hrun.inBraces_iff, hm]
    simp
  rw [List.append_assoc] at hstands
  obtain ⟨E, R, haccept⟩ := accepted_iff.mp hb.accepted
  have hbody : opensBody next = false := hstands.opensBody_eq haccept
  exact counterpart_cons htokens hb.labels (.graft hstands hgrafted) (swap_of_grafted hswap hgrafted)
    (Advance.run hstands.isFixed (opensBody_of_grafted hgrafted hbody) (hinside hb.run)
      (hinside (hb.run.trans hlexed.run))) htail

end Swap

/-- A comment with another text in it has been passed over before. -/
theorem not_border_of_comment (hcomment : InComment whole cs) (hne : v ≠ [])
    (hv : ∀ c ∈ v, isBreak c = false) : ¬ Border renamed whole ts s before cs (v ++ cs') us := by
  intro hb
  obtain ⟨c, hc⟩ := Option.isSome_iff_exists.mp (List.isSome_head?.mpr hne)
  have hbreak := head_of_dropComment_eq (dropComment_eq_of_inComment hb.run hcomment) c (by
    rw [hb.comment hcomment, head?_append_of_ne_nil hne, hc]
    rfl)
  rw [hv c (List.mem_of_head? hc)] at hbreak
  cases hbreak

/-- **Behind every border a twin has tokens like those of the text.** -/
theorem follows (cs : List Char) : Follows renamed whole cs := by
  induction hn : cs.length using Nat.strong_induction_on generalizing cs with
  | _ n ih =>
    subst hn
    intro ts us s before cs' hb
    have htwin := hb.twin
    cases htwin with
    | nil => exact ⟨us, us, hb.tokens, grafted_self _ us, exchange_self fun hr => hb.labels hr us hb.tokens⟩
    | @kept c _ cs cs' htail =>
      have ih' : ∀ cs₁ : List Char, cs₁.length ≤ cs.length → Follows renamed whole cs₁ :=
        fun cs₁ hle => ih _ (Nat.lt_succ_of_le hle) cs₁ rfl
      by_cases hc : c = '#'
      · subst hc
        exact follows_comment ih' hb htail
      · exact follows_kept ih' hb hc htail
    | comment hcomment _ hne hv _ => exact absurd hb (not_border_of_comment hcomment hne hv)
    | @swap u v _ cs cs' hgives hends htail =>
      have ih' : ∀ cs₁ : List Char, cs₁.length < (u ++ cs).length → Follows renamed whole cs₁ :=
        fun cs₁ hlt => ih _ hlt cs₁ rfl
      cases hgives with
      | token hlexed hswap =>
        obtain ⟨rfl, rfl, -⟩ := hb.run.unique hlexed.reached rfl
        exact follows_token hb htail ih' hends hlexed hswap
      | run hlexed hm hstands hswap =>
        obtain ⟨rfl, rfl, -⟩ := hb.run.unique hlexed.reached rfl
        exact follows_run hb htail ih' hends hlexed hm hstands hswap

/-- **A twin of a text that is accepted has tokens**, and these are counterparts of its own. -/
theorem Twin.counterpart (h : Twin renamed whole [] whole cs') (hts : tokens whole = .ok ts)
    (haccept : Accepted ts)
    (hlabels : renamed → ∀ ts', tokens cs' = .ok ts' → LabelsApart ts') :
    ∃ mid ts', tokens cs' = .ok ts' ∧ Grafted ts ts mid ∧ Exchange renamed [] mid ts' :=
  follows whole
    { run := Run.done
      comment := fun hcomment => absurd hcomment (not_inComment_start whole)
      twin := h
      tokens := hts
      accepted := haccept
      labels := hlabels }

end PanelLint.Query
