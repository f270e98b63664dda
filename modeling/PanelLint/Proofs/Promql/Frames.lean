import Mathlib.Logic.Relation
import PanelLint.Proofs.Promql.Fronts
/-!
# The grammar step by step

The readers of expressions call each other, and what they have begun is kept in their calls.  Here
the same grammar is a machine: what is begun is a stack of frames, the innermost one first, and a
step reads an operand, a modifier or an operator, or closes a frame.

* `Reading.next` is a step, `Reaches` any number of them;
* `Follows`: where a reader reads something, the machine comes to it (`follows`);
* `Ends.reads`: where the machine comes to an end, the readers come to it too, with fuel for the
  number of tokens;
* `ofTokens_eq_ok_iff`: so both accept the same queries, and make the same phrases of them.
-/

namespace PanelLint.Promql

open Phrase

/-! ## 1. Frames and steps -/

/-- What is called with arguments in parentheses. -/
inductive Callee
  | call (name : String)
  | aggregate (op : Aggregation) (grouping : Option GroupingPhrase)

/-- The call with its arguments, and whether there is a comma with no argument after it. -/
def Callee.apply : Callee → List Phrase → Bool → Phrase
  | .call name, args, extra => .call name args extra
  | .aggregate op grouping, args, extra => .aggregate op grouping args extra

/-- **What is begun** when an operand comes. -/
inductive Frame
  | sign (negative : Bool)
  | operator (op : Operator) (modifier : ModifierPhrase) (left : Phrase)
  | paren
  /-- A call with the arguments before the operand. -/
  | argument (callee : Callee) (before : List Phrase) (extra : Bool)

/-- How tightly operators have to bind that belong to the operand in a frame. -/
def Frame.level : Frame → Nat
  | .sign _ => Operator.pow.precedence
  | .operator op _ _ => op.rightPrecedence
  | .paren => 0
  | .argument .. => 0

/-- The same of a stack of frames. -/
def pendingLevel : List Frame → Nat
  | [] => 0
  | frame :: _ => frame.level

/-- What comes next. -/
inductive Mode
  /-- An operand. -/
  | operand
  /-- A modifier after a part of the query, or what follows the operand that it is. -/
  | primary (e : Phrase)
  /-- What follows an operand with its modifiers. -/
  | after (e : Phrase)

/-- The frames, what comes next, and the tokens left. -/
structure Reading where
  frames : List Frame
  mode : Mode
  rest : List Token

/-- The operator in front of some tokens that belongs to the operand before it, as it binds tightly
enough. -/
def shift? (level : Nat) (ts : List Token) : Option Operator :=
  (ts.head?.bind operator?).filter fun op => level ≤ op.precedence

namespace Reading

/-- Behind the arguments of a call: a grouping may come after those of an aggregation. -/
def leave (K : List Frame) (callee : Callee) (args : List Phrase) (extra : Bool)
    (ts : List Token) : Option Reading :=
  match callee, ts with
  | .aggregate op none, .keyword (.grouping keeps) _ :: ts =>
    (readLabels ts).toOption.map fun (labels, ts) =>
      ⟨K, .primary (.aggregate op (some ⟨keeps, labels⟩) args extra), ts⟩
  | callee, ts => some ⟨K, .primary (callee.apply args extra), ts⟩

/-- Behind the opening parenthesis of a call. -/
def enter (K : List Frame) (callee : Callee) : List Token → Option Reading
  | .rightParen :: ts => leave K callee [] false ts
  | ts => some ⟨.argument callee [] false :: K, .operand, ts⟩

/-- A step where an operand is due. -/
def nextOperand (K : List Frame) : List Token → Option Reading
  | .operator .add :: ts => some ⟨.sign false :: K, .operand, ts⟩
  | .operator .sub :: ts => some ⟨.sign true :: K, .operand, ts⟩
  | .leftParen :: ts => some ⟨.paren :: K, .operand, ts⟩
  | .identifier name :: .leftParen :: ts => enter K (.call name) ts
  | .keyword (.aggregation op) _ :: .keyword (.grouping keeps) _ :: ts =>
    match readLabels ts with
    | .ok (labels, .leftParen :: ts) => enter K (.aggregate op (some ⟨keeps, labels⟩)) ts
    | _ => none
  | .keyword (.aggregation op) _ :: .leftParen :: ts => enter K (.aggregate op none) ts
  | ts => (readPrimary 1 ts).toOption.map fun (e, ts) => ⟨K, .primary e, ts⟩

/-- A step behind a part of the query that modifiers may follow. -/
def nextPrimary (K : List Frame) (e : Phrase) : List Token → Option Reading
  | .leftBracket :: ts =>
    (readBrackets e ts).toOption.map fun (e, ts) => ⟨K, .primary e, ts⟩
  | .keyword .offset _ :: ts =>
    (readOffset e ts).toOption.map fun (e, ts) => ⟨K, .primary e, ts⟩
  | .atSign :: ts => (readTime e ts).toOption.map fun (e, ts) => ⟨K, .primary e, ts⟩
  | ts => some ⟨K, .after e, ts⟩

/-- The innermost frame is closed, or the next argument begins. -/
def close : List Frame → Phrase → List Token → Option Reading
  | .sign false :: K, e, ts => some ⟨K, .after (.plus e), ts⟩
  | .sign true :: K, e, ts => some ⟨K, .after (.minus e), ts⟩
  | .operator op m l :: K, e, ts => some ⟨K, .after (.binary op m l e), ts⟩
  | .paren :: K, e, .rightParen :: ts => some ⟨K, .primary (.paren e), ts⟩
  | .argument c before extra :: K, e, .rightParen :: ts => leave K c (before ++ [e]) extra ts
  | .argument c before _ :: K, e, .comma :: .comma :: ts =>
    some ⟨.argument c before true :: K, .after e, .comma :: ts⟩
  | .argument c before _ :: K, e, .comma :: .rightParen :: ts => leave K c (before ++ [e]) true ts
  | .argument c before extra :: K, e, .comma :: ts =>
    some ⟨.argument c (before ++ [e]) extra :: K, .operand, ts⟩
  | _, _, _ => none

/-- A step behind an operand. -/
def nextAfter (K : List Frame) (e : Phrase) (ts : List Token) : Option Reading :=
  match shift? (pendingLevel K) ts with
  | some op =>
    (readModifier ts.tail).toOption.map fun (m, ts) => ⟨.operator op m e :: K, .operand, ts⟩
  | none => close K e ts

/-- **A step of the machine.** -/
def next (s : Reading) : Option Reading :=
  match s.mode with
  | .operand => nextOperand s.frames s.rest
  | .primary e => nextPrimary s.frames e s.rest
  | .after e => nextAfter s.frames e s.rest

end Reading

/-- **The machine comes from one state to another** in any number of steps. -/
abbrev Reaches : Reading → Reading → Prop := Relation.ReflTransGen fun s t => s.next = some t

variable {K : List Frame} {ts r : List Token} {e : Phrase} {s t : Reading} {fuel level : Nat}

/-- What a step takes from a reader, it takes from what the reader read. -/
theorem toOption_map_eq_some_iff {ε α β : Type} {x : Except ε α} {f : α → β} {b : β} :
    x.toOption.map f = some b ↔ ∃ a, x = .ok a ∧ f a = b := by
  cases x with
  | error e => simp [Except.toOption]
  | ok a => simp [Except.toOption]

@[simp] theorem next_operand : Reading.next ⟨K, .operand, ts⟩ = Reading.nextOperand K ts := rfl

@[simp] theorem next_primary : Reading.next ⟨K, .primary e, ts⟩ = Reading.nextPrimary K e ts := rfl

@[simp] theorem next_after : Reading.next ⟨K, .after e, ts⟩ = Reading.nextAfter K e ts := rfl

theorem Reaches.step (h : s.next = some t) : Reaches s t := Relation.ReflTransGen.single h

/-- An operator is taken if it stands first and binds tightly enough. -/
theorem shift?_eq_some_iff {op : Operator} : shift? level ts = some op ↔
    (∃ t us, ts = t :: us ∧ operator? t = some op) ∧ level ≤ op.precedence := by
  unfold shift?
  rw [Option.filter_eq_some_iff, decide_eq_true_eq]
  refine and_congr_left fun _ => ?_
  cases ts with
  | nil => simp
  | cons t us => simp

/-- Whether the operator that stands first is taken is a question of its precedence. -/
theorem shift?_of_operator {t : Token} {op : Operator} (h : operator? t = some op) :
    shift? level (t :: ts) = if level ≤ op.precedence then some op else none := by
  simp [shift?, h, Option.filter]

/-- No other token is taken. -/
theorem shift?_of_operator_none {t : Token} (h : operator? t = none) :
    shift? level (t :: ts) = none := by
  simp [shift?, h]

/-- Only the first token tells. -/
theorem shift?_congr (h : SameHead ts r) : shift? level r = shift? level ts := by
  have hhead : r.head? = ts.head? := h
  rw [shift?, shift?, hhead]

/-- Where operators of a low level are not taken, none of a higher level are. -/
theorem shift?_mono {level' : Nat} (hle : level ≤ level') (h : shift? level ts = none) :
    shift? level' ts = none := by
  cases hs : shift? level' ts with
  | none => rfl
  | some op =>
    obtain ⟨hop, hlevel⟩ := shift?_eq_some_iff.mp hs
    exact absurd (shift?_eq_some_iff.mpr ⟨hop, Nat.le_trans hle hlevel⟩) (by simp [h])

/-! ## 2. The machine follows the readers -/

/-- The operators after an operand, told by whether one is taken. -/
theorem readOperators_eq : readOperators (fuel + 1) level e ts =
    match shift? level ts with
    | none => .ok (e, ts)
    | some op => readModifier ts.tail >>= fun (modifier, ts) =>
      readExpr fuel op.rightPrecedence ts >>= fun (right, ts) =>
        readOperators fuel level (.binary op modifier e right) ts := by
  cases ts with
  | nil => rfl
  | cons t ts =>
    rw [readOperators]
    cases hop : operator? t with
    | none => rw [shift?_of_operator_none hop]
    | some op =>
      dsimp only
      split
      · next hlt => rw [shift?_of_operator hop, if_neg (Nat.not_le_of_lt hlt)]
      · next hle =>
        rw [shift?_of_operator hop, if_pos (Nat.le_of_not_lt hle)]
        rfl

/-- The modifiers after a part of the query are steps. -/
theorem reaches_postfixed {e' : Phrase} (h : readPostfix fuel e ts = .ok (e', r)) :
    Reaches ⟨K, .primary e, ts⟩ ⟨K, .after e', r⟩ := by
  induction fuel generalizing e ts with
  | zero => cases h
  | succ fuel ih =>
    rw [readPostfix.eq_def] at h
    have hmodifier : ∀ {x : Except Stop (Phrase × List Token)},
        (x >>= fun (e, ts) => readPostfix fuel e ts) = .ok (e', r) →
        Reading.next ⟨K, .primary e, ts⟩ =
          x.toOption.map (fun (e, ts) => ⟨K, .primary e, ts⟩) →
        Reaches ⟨K, .primary e, ts⟩ ⟨K, .after e', r⟩ := by
      intro x hx hnext
      obtain ⟨⟨e₁, r₁⟩, rfl, hrest⟩ := exists_of_bind_eq_ok hx
      exact (Reaches.step hnext).trans (ih hrest)
    split at h
    · next heq => cases heq
    · next heq => cases heq; exact hmodifier h rfl
    · next heq => cases heq; exact hmodifier h rfl
    · next heq => cases heq; exact hmodifier h rfl
    · next heq hbracket hoffset hat =>
      cases heq
      cases h
      refine Reaches.step ?_
      rw [next_primary, Reading.nextPrimary]
      · exact hbracket
      · exact hoffset
      · exact hat

/-- **The machine follows all readers of expressions at once**, with some fuel. -/
structure Follows (fuel : Nat) : Prop where
  expr : ∀ {K ts e r}, readExpr fuel (pendingLevel K) ts = .ok (e, r) →
    Reaches ⟨K, .operand, ts⟩ ⟨K, .after e, r⟩ ∧ shift? (pendingLevel K) r = none
  operators : ∀ {K ts e e' r}, readOperators fuel (pendingLevel K) e ts = .ok (e', r) →
    Reaches ⟨K, .after e, ts⟩ ⟨K, .after e', r⟩ ∧ shift? (pendingLevel K) r = none
  operand : ∀ {K ts e r}, readOperand fuel ts = .ok (e, r) →
    Reaches ⟨K, .operand, ts⟩ ⟨K, .after e, r⟩
  primary : ∀ {K ts e r}, readPrimary fuel ts = .ok (e, r) →
    Reaches ⟨K, .operand, ts⟩ ⟨K, .primary e, r⟩
  body : ∀ {K c ts args extra r s}, readBody fuel ts = .ok ((args, extra), r) →
    Reading.leave K c args extra r = some s →
    ∃ us s₀, ts = .leftParen :: us ∧ Reading.enter K c us = some s₀ ∧ Reaches s₀ s
  args : ∀ {K c before extra e ts es x r s}, readArgs fuel ts = .ok ((es, x), r) →
    shift? 0 ts = none → Reading.leave K c (before ++ e :: es) (extra || x) r = some s →
    Reaches ⟨.argument c before extra :: K, .after e, ts⟩ s

theorem follows_zero : Follows 0 where
  expr h := by cases h
  operators h := by cases h
  operand h := by cases h
  primary h := by cases h
  body h := by cases h
  args h := by cases h

/-- An expression: its operand, and then its operators. -/
theorem follows_expr (ih : Follows fuel)
    (h : readExpr (fuel + 1) (pendingLevel K) ts = .ok (e, r)) :
    Reaches ⟨K, .operand, ts⟩ ⟨K, .after e, r⟩ ∧ shift? (pendingLevel K) r = none := by
  rw [readExpr] at h
  obtain ⟨⟨e₁, r₁⟩, hoperand, hrest⟩ := exists_of_bind_eq_ok h
  obtain ⟨hreaches, hstops⟩ := ih.operators hrest
  exact ⟨(ih.operand hoperand).trans hreaches, hstops⟩

/-- Behind an operand, an operator that is taken opens a frame. -/
theorem next_after_of_shift {op : Operator} (h : shift? (pendingLevel K) ts = some op) :
    Reading.next ⟨K, .after e, ts⟩ = (readModifier ts.tail).toOption.map
      fun (m, ts) => ⟨.operator op m e :: K, .operand, ts⟩ := by
  rw [next_after, Reading.nextAfter, h]

/-- If none is taken, the innermost frame is closed. -/
theorem next_after_of_stop (h : shift? (pendingLevel K) ts = none) :
    Reading.next ⟨K, .after e, ts⟩ = Reading.close K e ts := by
  rw [next_after, Reading.nextAfter, h]

/-- **The operators after an operand.** The frame of each has its level, so the machine stops where the
reader of its right operand does. -/
theorem follows_operators (ih : Follows fuel) {e' : Phrase}
    (h : readOperators (fuel + 1) (pendingLevel K) e ts = .ok (e', r)) :
    Reaches ⟨K, .after e, ts⟩ ⟨K, .after e', r⟩ ∧ shift? (pendingLevel K) r = none := by
  rw [readOperators_eq] at h
  cases hs : shift? (pendingLevel K) ts with
  | none =>
    rw [hs] at h
    cases h
    exact ⟨Relation.ReflTransGen.refl, hs⟩
  | some op =>
    rw [hs] at h
    obtain ⟨⟨m, r₁⟩, hm, h⟩ := exists_of_bind_eq_ok h
    obtain ⟨⟨right, r₂⟩, hright, hrest⟩ := exists_of_bind_eq_ok h
    obtain ⟨hreaches, hstops⟩ := ih.expr (K := .operator op m e :: K) hright
    have hshift : Reading.next ⟨K, .after e, ts⟩ = some ⟨.operator op m e :: K, .operand, r₁⟩ := by
      rw [next_after_of_shift hs, hm]
      rfl
    obtain ⟨hoperators, hend⟩ := ih.operators hrest
    refine ⟨?_, hend⟩
    exact ((Reaches.step hshift).trans hreaches).trans
      ((Reaches.step (next_after_of_stop hstops)).trans hoperators)

/-- Whatever is read without fuel for other expressions is one step. -/
theorem nextOperand_atom (h : readPrimary 1 ts = .ok (e, r)) :
    Reading.nextOperand K ts = some ⟨K, .primary e, r⟩ := by
  rw [Reading.nextOperand.eq_def]
  split
  · cases h
  · cases h
  · cases h
  · cases h
  · next ts =>
    rw [readPrimary] at h
    obtain ⟨_, -, h⟩ := exists_of_bind_eq_ok h
    cases h
  · cases h
  · rw [h]
    rfl

/-- An operand: a sign opens a frame, which is closed behind the operand with its modifiers. -/
theorem follows_operand (ih : Follows fuel) (h : readOperand (fuel + 1) ts = .ok (e, r)) :
    Reaches ⟨K, .operand, ts⟩ ⟨K, .after e, r⟩ := by
  rw [readOperand.eq_def] at h
  split at h
  · next heq => cases heq
  · next heq =>
    cases heq
    obtain ⟨⟨e₁, r₁⟩, hexpr, heq⟩ := exists_of_bind_eq_ok h
    cases heq
    obtain ⟨hreaches, hstops⟩ := ih.expr (K := .sign false :: K) hexpr
    exact ((Reaches.step rfl).trans hreaches).trans (Reaches.step (next_after_of_stop hstops))
  · next heq =>
    cases heq
    obtain ⟨⟨e₁, r₁⟩, hexpr, heq⟩ := exists_of_bind_eq_ok h
    cases heq
    obtain ⟨hreaches, hstops⟩ := ih.expr (K := .sign true :: K) hexpr
    exact ((Reaches.step rfl).trans hreaches).trans (Reaches.step (next_after_of_stop hstops))
  · next heq _ _ =>
    cases heq
    obtain ⟨⟨e₁, r₁⟩, hprimary, hpostfix⟩ := exists_of_bind_eq_ok h
    exact (ih.primary hprimary).trans (reaches_postfixed hpostfix)

/-- Parentheses open a frame and close it. -/
theorem follows_parens (ih : Follows fuel) (h : readPrimary (fuel + 1) (.leftParen :: ts) = .ok (e, r)) :
    Reaches ⟨K, .operand, .leftParen :: ts⟩ ⟨K, .primary e, r⟩ := by
  rw [readPrimary] at h
  obtain ⟨⟨e₁, r₁⟩, hexpr, h⟩ := exists_of_bind_eq_ok h
  obtain ⟨hreaches, hstops⟩ := ih.expr (K := .paren :: K) hexpr
  dsimp only at h
  split at h
  · cases h
    exact ((Reaches.step rfl).trans hreaches).trans (Reaches.step (next_after_of_stop hstops))
  · cases h

/-- Arguments are read between `enter` and `leave`. -/
theorem follows_callee (ih : Follows fuel) {c : Callee} {args : List Phrase} {extra : Bool}
    {us : List Token} (hbody : readBody fuel (.leftParen :: us) = .ok ((args, extra), r))
    (hleave : Reading.leave K c args extra r = some t)
    (henter : Reading.next s = Reading.enter K c us) : Reaches s t := by
  obtain ⟨vs, s₀, heq, hs₀, hreaches⟩ := ih.body hbody hleave
  cases heq
  exact (Reaches.step (henter.trans hs₀)).trans hreaches

/-- **A primary expression**: an atom, or one of the forms above. -/
theorem follows_primary (ih : Follows fuel) (h : readPrimary (fuel + 1) ts = .ok (e, r)) :
    Reaches ⟨K, .operand, ts⟩ ⟨K, .primary e, r⟩ := by
  have hatom : readPrimary 1 ts = .ok (e, r) → Reaches ⟨K, .operand, ts⟩ ⟨K, .primary e, r⟩ :=
    fun h => Reaches.step (nextOperand_atom h)
  rw [readPrimary.eq_def] at h
  split at h
  · next heq => cases heq
  · exact hatom h
  · exact hatom h
  · exact hatom h
  · next heq =>
    cases heq
    exact follows_parens ih (by rw [readPrimary]; exact h)
  · next heq =>
    cases heq
    obtain ⟨⟨⟨args, extra⟩, r₁⟩, hbody, heq⟩ := exists_of_bind_eq_ok h
    cases heq
    exact follows_callee ih (c := .call _) hbody rfl rfl
  · next hparen heq =>
    refine hatom ?_
    rw [readPrimary]
    · exact h
    · exact hparen
  · exact hatom h
  · exact hatom h
  · next heq =>
    cases heq
    obtain ⟨⟨labels, r₁⟩, hlabels, h⟩ := exists_of_bind_eq_ok h
    obtain ⟨⟨⟨args, extra⟩, r₂⟩, hbody, heq⟩ := exists_of_bind_eq_ok h
    cases heq
    obtain ⟨us, s₀, rfl, hs₀, hreaches⟩ :=
      ih.body (K := K) (c := .aggregate _ (some ⟨_, labels⟩)) hbody rfl
    refine (Reaches.step ?_).trans hreaches
    rw [next_operand, Reading.nextOperand, hlabels]
    exact hs₀
  · next heq =>
    cases heq
    obtain ⟨⟨⟨args, extra⟩, r₁⟩, hbody, h⟩ := exists_of_bind_eq_ok h
    dsimp only at h
    split at h
    · obtain ⟨⟨labels, r₂⟩, hlabels, heq⟩ := exists_of_bind_eq_ok h
      cases heq
      refine follows_callee ih (c := .aggregate _ none) hbody ?_ rfl
      rw [Reading.leave, hlabels]
      rfl
    · next hnone =>
      cases h
      refine follows_callee ih (c := .aggregate _ none) hbody ?_ rfl
      rw [Reading.leave]
      · rfl
      · rintro op keeps text us - rfl
        exact hnone keeps text us rfl
  · next hgrouping hparen heq =>
    refine hatom ?_
    rw [readPrimary]
    · exact h
    · exact hgrouping
    · exact hparen
  · exact hatom h
  · exact hatom h
  · exact hatom h
  · exact hatom h
  · cases h

theorem follows_body (ih : Follows fuel) {c : Callee} {args : List Phrase} {extra : Bool}
    (h : readBody (fuel + 1) ts = .ok ((args, extra), r))
    (hleave : Reading.leave K c args extra r = some s) :
    ∃ us s₀, ts = .leftParen :: us ∧ Reading.enter K c us = some s₀ ∧ Reaches s₀ s := by
  rw [readBody.eq_def] at h
  split at h
  · next heq => cases heq
  · cases h
    exact ⟨_, s, rfl, hleave, Relation.ReflTransGen.refl⟩
  · next ts hnone heq =>
    cases heq
    obtain ⟨⟨e₁, r₁⟩, hexpr, h⟩ := exists_of_bind_eq_ok h
    obtain ⟨⟨⟨es, x⟩, r₂⟩, hargs, heq⟩ := exists_of_bind_eq_ok h
    cases heq
    obtain ⟨hreaches, hstops⟩ := ih.expr (K := .argument c [] false :: K) hexpr
    refine ⟨ts, _, rfl, ?_, hreaches.trans (ih.args hargs hstops ?_)⟩
    · rw [Reading.enter]
      exact hnone
    · simpa using hleave
  · cases h

/-- The arguments behind one: each opens the frame of the call again, with one more before it. -/
theorem follows_args (ih : Follows fuel) {c : Callee} {before es : List Phrase} {extra x : Bool}
    (h : readArgs (fuel + 1) ts = .ok ((es, x), r)) (hstops : shift? 0 ts = none)
    (hleave : Reading.leave K c (before ++ e :: es) (extra || x) r = some s) :
    Reaches ⟨.argument c before extra :: K, .after e, ts⟩ s := by
  have hclose : Reading.next ⟨.argument c before extra :: K, .after e, ts⟩ =
      Reading.close (.argument c before extra :: K) e ts := next_after_of_stop hstops
  rw [readArgs.eq_def] at h
  split at h
  · next heq => cases heq
  · cases h
    exact Reaches.step (hclose.trans (by simpa [Reading.close] using hleave))
  · next heq =>
    cases heq
    obtain ⟨⟨⟨es', x'⟩, r₁⟩, hargs, heq⟩ := exists_of_bind_eq_ok h
    cases heq
    refine (Reaches.step hclose).trans (ih.args hargs rfl ?_)
    simpa using hleave
  · cases h
    exact Reaches.step (hclose.trans (by simpa [Reading.close] using hleave))
  · next hcomma hparen heq =>
    cases heq
    obtain ⟨⟨e₁, r₁⟩, hexpr, h⟩ := exists_of_bind_eq_ok h
    obtain ⟨⟨⟨es', x'⟩, r₂⟩, hargs, heq⟩ := exists_of_bind_eq_ok h
    cases heq
    obtain ⟨hreaches, hend⟩ := ih.expr (K := .argument c (before ++ [e]) extra :: K) hexpr
    rw [Reading.close] at hclose
    · refine ((Reaches.step hclose).trans hreaches).trans (ih.args hargs hend ?_)
      simpa using hleave
    · exact hcomma
    · exact hparen
  · cases h

/-- **The machine follows the readers**, by induction on the fuel. -/
theorem follows (fuel : Nat) : Follows fuel := by
  induction fuel with
  | zero => exact follows_zero
  | succ fuel ih =>
    exact ⟨follows_expr ih, follows_operators ih, follows_operand ih, follows_primary ih,
      follows_body ih, follows_args ih⟩

/-! ## 3. Frames that are closed -/

/-- Behind the arguments of an aggregation without a grouping there is one now, or none at all. -/
theorem leave_aggregate {op : Aggregation} {args : List Phrase} {extra : Bool}
    (h : Reading.leave K (.aggregate op none) args extra ts = some t) :
    (∃ keeps text us labels r, ts = .keyword (.grouping keeps) text :: us ∧
      readLabels us = .ok (labels, r) ∧
      t = ⟨K, .primary (.aggregate op (some ⟨keeps, labels⟩) args extra), r⟩) ∨
    (∀ keeps text us, ts ≠ .keyword (.grouping keeps) text :: us) ∧
      t = ⟨K, .primary (.aggregate op none args extra), ts⟩ := by
  rw [Reading.leave.eq_def] at h
  split at h
  · next heq =>
    cases heq
    obtain ⟨⟨labels, r⟩, hlabels, rfl⟩ := toOption_map_eq_some_iff.mp h
    exact Or.inl ⟨_, _, _, labels, r, rfl, hlabels, rfl⟩
  · next hgrouping =>
    cases h
    exact Or.inr ⟨fun keeps text us heq => hgrouping _ keeps text us rfl heq, rfl⟩

/-- The frame of a parenthesis is closed by one. -/
theorem close_paren (h : Reading.close (.paren :: K) e ts = some t) :
    ∃ us, ts = .rightParen :: us ∧ t = ⟨K, .primary (.paren e), us⟩ := by
  rw [Reading.close.eq_def] at h
  split at h
  case h_4 heq =>
    cases heq
    exact ⟨_, rfl, (Option.some.inj h).symm⟩
  case h_9 => cases h
  all_goals next heq => cases heq

/-- Behind an argument its call ends, or there is a comma too many, or another argument. -/
theorem close_argument {c : Callee} {before : List Phrase} {extra : Bool}
    (h : Reading.close (.argument c before extra :: K) e ts = some t) :
    (∃ us, ts = .rightParen :: us ∧ Reading.leave K c (before ++ [e]) extra us = some t) ∨
    (∃ us, ts = .comma :: .comma :: us ∧
      t = ⟨.argument c before true :: K, .after e, .comma :: us⟩) ∨
    (∃ us, ts = .comma :: .rightParen :: us ∧
      Reading.leave K c (before ++ [e]) true us = some t) ∨
    ∃ us, ts = .comma :: us ∧ (∀ vs, us ≠ .comma :: vs) ∧ (∀ vs, us ≠ .rightParen :: vs) ∧
      t = ⟨.argument c (before ++ [e]) extra :: K, .operand, us⟩ := by
  rw [Reading.close.eq_def] at h
  split at h
  case h_5 heq =>
    cases heq
    exact Or.inl ⟨_, rfl, h⟩
  case h_6 heq =>
    cases heq
    exact Or.inr (Or.inl ⟨_, rfl, (Option.some.inj h).symm⟩)
  case h_7 heq =>
    cases heq
    exact Or.inr (Or.inr (Or.inl ⟨_, rfl, h⟩))
  case h_8 hcomma hparen heq =>
    cases heq
    exact Or.inr (Or.inr (Or.inr ⟨_, rfl, fun _ h => hcomma _ h, fun _ h => hparen _ h,
      (Option.some.inj h).symm⟩))
  case h_9 => cases h
  all_goals next heq => cases heq

/-! ## 4. Steps take a front of the tokens -/

/-- **Tokens that a state may go on with** in place of its own: they begin with the same one, or with a
name or a quantity where an operand is due. -/
def Reading.GoesOn (s : Reading) (r : List Token) : Prop :=
  SameHead s.rest r ∨ s.mode = .operand ∧ ∃ u us, r = u :: us ∧ u.isFixed = false

/-- The same, as rows of tokens only. -/
theorem Reading.GoesOn.sameHeadOrFree (h : s.GoesOn r) : SameHeadOrFree s.rest r :=
  h.imp_right fun ⟨_, hfree⟩ => hfree

/-- Where no operand is due, the heads are the same. -/
theorem Reading.GoesOn.sameHead (h : s.GoesOn r) (hm : s.mode ≠ .operand) : SameHead s.rest r :=
  h.resolve_right fun ⟨hmode, _⟩ => hm hmode

/-- An atom takes a front that is not empty, and needs no fuel for the parts of other phrases. -/
theorem front_of_atom (h : readPrimary 1 ts = .ok (e, r)) : ∃ t w, ts = t :: w ++ r ∧
    ∀ fuel r', SameHead r r' → readPrimary (fuel + 1) (t :: w ++ r') = .ok (e, r') := by
  -- a name is an atom where the reader sees no more than what follows it
  have hselector : ∀ {t name us}, readSelector name us = .ok (e, r) →
      (∀ fuel vs, SameHead us vs → readPrimary (fuel + 1) (t :: vs) = readSelector name vs) →
      ∃ u w, t :: us = u :: w ++ r ∧
        ∀ fuel r', SameHead r r' → readPrimary (fuel + 1) (u :: w ++ r') = .ok (e, r') := by
    intro t name us hread hname
    obtain ⟨w, rfl, hw⟩ := takesFront_selector name _ _ _ hread
    refine ⟨t, w, rfl, fun fuel r' hr' => ?_⟩
    rw [List.cons_append, hname _ _ (hr'.append w), hw r' hr']
  rw [readPrimary.eq_def] at h
  split at h
  · cases h
  · cases h
    exact ⟨_, [], rfl, fun _ _ _ => rfl⟩
  · cases h
    exact ⟨_, [], rfl, fun _ _ _ => rfl⟩
  · cases h
    exact ⟨_, [], rfl, fun _ _ _ => rfl⟩
  · next heq => cases heq; cases h
  · next heq => cases heq; cases h
  · next hparen _ =>
    refine hselector h fun fuel vs hvs => ?_
    rw [readPrimary]
    exact fun us => ne_cons_of_sameHead hvs hparen us
  · exact hselector h fun fuel vs _ => by rw [readPrimary]
  · obtain ⟨⟨ms, r⟩, hms, heq⟩ := exists_of_map_eq_ok h
    cases heq
    obtain ⟨w, rfl, hw⟩ := takesFront_matchers _ _ _ hms
    refine ⟨.leftBrace, w, rfl, fun fuel r' _ => ?_⟩
    rw [List.cons_append, readPrimary, readSelector, hw r' trivial]
    rfl
  · next heq =>
    cases heq
    obtain ⟨_, -, h⟩ := exists_of_bind_eq_ok h
    cases h
  · next heq => cases heq; cases h
  · next hgrouping hparen _ =>
    refine hselector h fun fuel vs hvs => ?_
    rw [readPrimary]
    · exact fun _ _ us => ne_cons_of_sameHead hvs (hgrouping _ _) us
    · exact fun us => ne_cons_of_sameHead hvs hparen us
  · exact hselector h fun fuel vs _ => by rw [readPrimary]
  · split at h
    · next hset => exact hselector h fun fuel vs _ => by rw [readPrimary, if_pos hset]
    · cases h
  · exact hselector h fun fuel vs _ => by rw [readPrimary]
  · exact hselector h fun fuel vs _ => by rw [readPrimary]
  · cases h

/-- A state with other tokens left. -/
abbrev Reading.withRest (s : Reading) (r : List Token) : Reading := { s with rest := r }

/-- Behind the arguments of a call the step takes its grouping, or nothing. -/
theorem leave_front {c : Callee} {args : List Phrase} {extra : Bool}
    (h : Reading.leave K c args extra ts = some t) :
    t.frames = K ∧ (∃ e, t.mode = .primary e) ∧ ∃ w, ts = w ++ t.rest ∧
      ∀ r, SameHead t.rest r → Reading.leave K c args extra (w ++ r) = some (t.withRest r) := by
  rw [Reading.leave.eq_def] at h
  split at h
  · obtain ⟨⟨labels, r⟩, hlabels, rfl⟩ := toOption_map_eq_some_iff.mp h
    obtain ⟨w, rfl, hw⟩ := takesFront_labels _ _ _ hlabels
    refine ⟨rfl, ⟨_, rfl⟩, _ :: w, rfl, fun r' _ => ?_⟩
    rw [List.cons_append, Reading.leave, hw r' trivial]
    rfl
  · next hnone =>
    cases h
    refine ⟨rfl, ⟨_, rfl⟩, [], rfl, fun r' hr' => ?_⟩
    rw [List.nil_append, Reading.leave]
    rintro op keeps text us rfl heq
    exact ne_cons_of_sameHead hr' (fun vs hvs => hnone op keeps text vs rfl hvs) us heq

/-- What begins the arguments of a call ends there or goes on with an operand. -/
theorem enter_front {c : Callee} (h : Reading.enter K c ts = some t) :
    (∀ e, t.mode ≠ .after e) ∧ ∃ w, ts = w ++ t.rest ∧
      ∀ r, t.GoesOn r → Reading.enter K c (w ++ r) = some (t.withRest r) := by
  rw [Reading.enter.eq_def] at h
  split at h
  · obtain ⟨-, ⟨e, he⟩, w, rfl, hw⟩ := leave_front h
    refine ⟨by simp [he], .rightParen :: w, rfl, fun r hr => ?_⟩
    exact hw r (hr.sameHead (by simp [he]))
  · next hnone =>
    cases h
    refine ⟨by simp, [], rfl, fun r hr => ?_⟩
    rw [List.nil_append, Reading.enter]
    exact fun us => ne_cons_of_sameHeadOrFree hr.sameHeadOrFree rfl hnone us

/-- **Where an operand is due**: a sign, an opening parenthesis, the front of a call, or an atom. -/
theorem nextOperand_front (h : Reading.nextOperand K ts = some t) :
    (∀ e, t.mode ≠ .after e) ∧ ∃ w, ts = w ++ t.rest ∧ w ≠ [] ∧
      ∀ r, t.GoesOn r → Reading.nextOperand K (w ++ r) = some (t.withRest r) := by
  rw [Reading.nextOperand.eq_def] at h
  split at h
  · cases h
    exact ⟨by simp, [_], rfl, by simp, fun _ _ => rfl⟩
  · cases h
    exact ⟨by simp, [_], rfl, by simp, fun _ _ => rfl⟩
  · cases h
    exact ⟨by simp, [_], rfl, by simp, fun _ _ => rfl⟩
  · obtain ⟨hmode, w, rfl, hw⟩ := enter_front h
    exact ⟨hmode, _ :: _ :: w, rfl, by simp, fun r hr => hw r hr⟩
  · next op text keeps text' ts =>
    split at h
    · next labels us hlabels =>
      obtain ⟨hmode, w, rfl, hw⟩ := enter_front h
      obtain ⟨w', rfl, hw'⟩ := takesFront_labels _ _ _ hlabels
      refine ⟨hmode, .keyword (.aggregation op) text :: .keyword (.grouping keeps) text' ::
        (w' ++ .leftParen :: w), by simp, by simp, fun r hr => ?_⟩
      have hread : readLabels (w' ++ .leftParen :: w ++ r) = .ok (labels, .leftParen :: (w ++ r)) := by
        rw [List.append_assoc]
        exact hw' _ trivial
      rw [List.cons_append, List.cons_append, Reading.nextOperand, hread]
      exact hw r hr
    · cases h
  · obtain ⟨hmode, w, rfl, hw⟩ := enter_front h
    exact ⟨hmode, _ :: _ :: w, rfl, by simp, fun r hr => hw r hr⟩
  · obtain ⟨⟨e, r⟩, hatom, rfl⟩ := toOption_map_eq_some_iff.mp h
    obtain ⟨u, w, rfl, hw⟩ := front_of_atom hatom
    exact ⟨by simp, u :: w, rfl, by simp, fun r' hr' =>
      nextOperand_atom (hw 0 r' (hr'.sameHead (by simp)))⟩

/-- **Behind a part of the query**: a modifier, or nothing. -/
theorem nextPrimary_front (h : Reading.nextPrimary K e ts = some t) :
    ∃ w, ts = w ++ t.rest ∧ ((∀ e, t.mode ≠ .after e) → w ≠ []) ∧
      ∀ r, t.GoesOn r → Reading.nextPrimary K e (w ++ r) = some (t.withRest r) := by
  rw [Reading.nextPrimary.eq_def] at h
  split at h
  · obtain ⟨⟨e', r⟩, hread, rfl⟩ := toOption_map_eq_some_iff.mp h
    obtain ⟨w, rfl, hw⟩ := takesFront_brackets e _ _ _ hread
    refine ⟨.leftBracket :: w, rfl, by simp, fun r' _ => ?_⟩
    rw [List.cons_append, Reading.nextPrimary, hw r' trivial]
    rfl
  · next text ts =>
    obtain ⟨⟨e', r⟩, hread, rfl⟩ := toOption_map_eq_some_iff.mp h
    obtain ⟨w, rfl, hw⟩ := takesFront_offset e _ _ _ hread
    refine ⟨.keyword .offset text :: w, rfl, by simp, fun r' hr' => ?_⟩
    rw [List.cons_append, Reading.nextPrimary, hw r' (hr'.sameHead (by simp))]
    rfl
  · obtain ⟨⟨e', r⟩, hread, rfl⟩ := toOption_map_eq_some_iff.mp h
    obtain ⟨w, rfl, hw⟩ := takesFront_time e _ _ _ hread
    refine ⟨.atSign :: w, rfl, by simp, fun r' _ => ?_⟩
    rw [List.cons_append, Reading.nextPrimary, hw r' trivial]
    rfl
  · next hbracket hoffset hat =>
    cases h
    refine ⟨[], rfl, by simp, fun r' hr' => ?_⟩
    have hhead := hr'.sameHead (by simp)
    rw [List.nil_append, Reading.nextPrimary]
    · exact fun us => ne_cons_of_sameHead hhead hbracket us
    · exact fun _ us => ne_cons_of_sameHead hhead (hoffset _) us
    · exact fun us => ne_cons_of_sameHead hhead hat us

/-- **A frame that is closed**: its parenthesis, a comma, or nothing for those of signs and operators. -/
theorem close_front (h : Reading.close K e ts = some t) :
    ∃ w, ts = w ++ t.rest ∧ ((∀ e, t.mode ≠ .after e) → w ≠ []) ∧
      ∀ r, t.GoesOn r → Reading.close K e (w ++ r) = some (t.withRest r) := by
  rw [Reading.close.eq_def] at h
  split at h
  · cases h
    exact ⟨[], rfl, by simp, fun _ _ => rfl⟩
  · cases h
    exact ⟨[], rfl, by simp, fun _ _ => rfl⟩
  · cases h
    exact ⟨[], rfl, by simp, fun _ _ => rfl⟩
  · cases h
    exact ⟨[.rightParen], rfl, by simp, fun _ _ => rfl⟩
  · obtain ⟨-, ⟨e', he'⟩, w, rfl, hw⟩ := leave_front h
    refine ⟨.rightParen :: w, rfl, by simp, fun r hr => ?_⟩
    exact hw r (hr.sameHead (by simp [he']))
  · cases h
    refine ⟨[.comma], rfl, by simp, fun r hr => ?_⟩
    obtain ⟨us, rfl⟩ : ∃ us, r = .comma :: us := by
      have hhead : r.head? = some .comma := hr.sameHead (by simp)
      exact List.head?_eq_some_iff.mp hhead
    rfl
  · obtain ⟨-, ⟨e', he'⟩, w, rfl, hw⟩ := leave_front h
    refine ⟨.comma :: .rightParen :: w, rfl, by simp, fun r hr => ?_⟩
    exact hw r (hr.sameHead (by simp [he']))
  · next hcomma hparen =>
    cases h
    refine ⟨[.comma], rfl, by simp, fun r hr => ?_⟩
    rw [List.singleton_append, Reading.close]
    · exact fun us => ne_cons_of_sameHeadOrFree hr.sameHeadOrFree rfl hcomma us
    · exact fun us => ne_cons_of_sameHeadOrFree hr.sameHeadOrFree rfl hparen us
  · cases h

/-- **Behind an operand**: an operator with its modifier, or what closes the frame. -/
theorem nextAfter_front (h : Reading.nextAfter K e ts = some t) :
    ∃ w, ts = w ++ t.rest ∧ ((∀ e, t.mode ≠ .after e) → w ≠ []) ∧
      ∀ r, t.GoesOn r → Reading.nextAfter K e (w ++ r) = some (t.withRest r) := by
  unfold Reading.nextAfter at h
  split at h
  · next op hop =>
    obtain ⟨⟨m, r⟩, hm, rfl⟩ := toOption_map_eq_some_iff.mp h
    obtain ⟨⟨u, us, rfl, -⟩, -⟩ := shift?_eq_some_iff.mp hop
    obtain ⟨w, hus, hw⟩ := takesFront_modifier _ _ _ hm
    obtain rfl : us = w ++ r := hus
    refine ⟨u :: w, rfl, by simp, fun r' hr' => ?_⟩
    have hop' : shift? (pendingLevel K) (u :: w ++ r') = some op := hop
    unfold Reading.nextAfter
    rw [hop']
    exact toOption_map_eq_some_iff.mpr ⟨_, hw r' hr'.sameHeadOrFree, rfl⟩
  · next hop =>
    obtain ⟨w, rfl, hne, hw⟩ := close_front h
    refine ⟨w, rfl, hne, fun r' hr' => ?_⟩
    have hop' : shift? (pendingLevel K) (w ++ r') = none := by
      rw [← hop]
      cases w with
      | cons u w => rfl
      | nil =>
        refine shift?_congr (hr'.sameHead fun hm => ?_)
        exact hne (by simp [hm]) rfl
    unfold Reading.nextAfter
    rw [hop']
    exact hw r' hr'

/-- **A step takes a front.**  It takes the same one from any tokens that go on alike; and only before
what follows an operand it may take nothing. -/
theorem next_front (h : s.next = some t) :
    ∃ w, s.rest = w ++ t.rest ∧ ((∀ e, t.mode ≠ .after e) → w ≠ []) ∧
      ∀ r, t.GoesOn r → (s.withRest (w ++ r)).next = some (t.withRest r) := by
  obtain ⟨K, mode, ts⟩ := s
  cases mode with
  | operand =>
    obtain ⟨hmode, w, hts, hne, hw⟩ := nextOperand_front h
    exact ⟨w, hts, fun _ => hne, hw⟩
  | primary e => exact nextPrimary_front h
  | after e => exact nextAfter_front h

/-! ## 5. The readers follow the machine -/

section Ends

variable {E : Phrase} {R : List Token}

/-- **The machine comes to an end** with a phrase, and with tokens that it does not go on with. -/
structure Ends (E : Phrase) (R : List Token) (s : Reading) : Prop where
  reaches : Reaches s ⟨[], .after E, R⟩
  stops : shift? 0 R = none

/-- A state ends where the next one does. -/
theorem Ends.head (h : s.next = some t) (ht : Ends E R t) : Ends E R s :=
  ⟨Relation.ReflTransGen.head h ht.reaches, ht.stops⟩

/-- A state is the end, or makes a step. -/
theorem Ends.cases (h : Ends E R s) :
    s = ⟨[], .after E, R⟩ ∨ ∃ t, s.next = some t ∧ Ends E R t :=
  (Relation.ReflTransGen.cases_head h.reaches).imp_right fun ⟨t, hst, ht⟩ => ⟨t, hst, ht, h.stops⟩

/-- Before its end the machine makes a step. -/
theorem Ends.step (h : Ends E R s) (hs : s.frames ≠ [] ∨ ∀ e, s.mode ≠ .after e) :
    ∃ t, s.next = some t ∧ Ends E R t := by
  refine h.cases.resolve_left ?_
  rintro rfl
  rcases hs with hs | hs
  · exact hs rfl
  · exact hs E rfl

/-- A step leaves no more tokens than there were, and fewer before an operand or a modifier. -/
theorem length_next (h : s.next = some t) : t.rest.length ≤ s.rest.length ∧
    ((∀ e, t.mode ≠ .after e) → t.rest.length < s.rest.length) := by
  obtain ⟨w, hw, hne, -⟩ := next_front h
  rw [hw, List.length_append]
  refine ⟨by omega, fun hmode => ?_⟩
  have := List.length_pos_of_ne_nil (hne hmode)
  omega

/-- The modifiers after a part of the query, by induction on the number of tokens. -/
theorem reads_postfixed (h : Ends E R ⟨K, .primary e, ts⟩) :
    ∃ e' r, (∀ fuel, ts.length < fuel → readPostfix fuel e ts = .ok (e', r)) ∧
      r.length ≤ ts.length ∧ Ends E R ⟨K, .after e', r⟩ := by
  induction hn : ts.length using Nat.strongRecOn generalizing e ts with
  | _ n ih =>
    subst hn
    obtain ⟨t, hnext, ht⟩ := h.step (Or.inr (by simp))
    have hlength := length_next hnext
    -- a modifier is read by one of three readers, and the next ones are read behind it
    have hmodifier : ∀ {x : Except Stop (Phrase × List Token)},
        (∀ fuel, readPostfix (fuel + 1) e ts = x >>= fun (e, ts) => readPostfix fuel e ts) →
        x.toOption.map (fun (e, ts) => (⟨K, .primary e, ts⟩ : Reading)) = some t →
        ∃ e' r, (∀ fuel, ts.length < fuel → readPostfix fuel e ts = .ok (e', r)) ∧
          r.length ≤ ts.length ∧ Ends E R ⟨K, .after e', r⟩ := by
      intro x hread hx
      obtain ⟨⟨e₁, r₁⟩, rfl, rfl⟩ := toOption_map_eq_some_iff.mp hx
      have hlt : r₁.length < ts.length := hlength.2 (by simp)
      obtain ⟨e', r, hrest, hle, hends⟩ := ih _ hlt ht rfl
      refine ⟨e', r, fun fuel hfuel => ?_, by omega, hends⟩
      obtain ⟨fuel, rfl⟩ := Nat.exists_eq_succ_of_ne_zero (n := fuel) (by omega)
      rw [Nat.succ_eq_add_one, hread]
      exact hrest fuel (by omega)
    rw [next_primary, Reading.nextPrimary.eq_def] at hnext
    split at hnext
    · exact hmodifier (fun _ => rfl) hnext
    · exact hmodifier (fun _ => rfl) hnext
    · exact hmodifier (fun _ => rfl) hnext
    · next hbracket hoffset hat =>
      cases hnext
      refine ⟨e, ts, fun fuel hfuel => ?_, Nat.le_refl _, ht⟩
      obtain ⟨fuel, rfl⟩ := Nat.exists_eq_succ_of_ne_zero (n := fuel) (by omega)
      rw [Nat.succ_eq_add_one, readPostfix]
      · exact hbracket
      · exact hoffset
      · exact hat

/-- What the reader of expressions reads from some tokens, and that the machine ends from there. -/
structure ExprRead (E : Phrase) (R : List Token) (K : List Frame) (ts : List Token) (e : Phrase)
    (r : List Token) : Prop where
  read : ∀ fuel, 8 * ts.length + 3 ≤ fuel → readExpr fuel (pendingLevel K) ts = .ok (e, r)
  shorter : r.length < ts.length
  stops : shift? (pendingLevel K) r = none
  ends : Ends E R ⟨K, .after e, r⟩

/-- Where the machine ends from an operand, the reader of expressions reads on. -/
def ReadsExpr (E : Phrase) (R : List Token) (n : Nat) : Prop :=
  ∀ {K ts}, ts.length < n → Ends E R ⟨K, .operand, ts⟩ → ∃ e r, ExprRead E R K ts e r

/-- **The operators after an operand**, by induction on the number of tokens: the right operand of each
is read by the assumption, and the rest is shorter. -/
theorem reads_operators (ih : ReadsExpr E R ts.length) (h : Ends E R ⟨K, .after e, ts⟩) :
    ∃ e' r, (∀ fuel, 8 * ts.length + 2 ≤ fuel →
        readOperators fuel (pendingLevel K) e ts = .ok (e', r)) ∧
      r.length ≤ ts.length ∧ shift? (pendingLevel K) r = none ∧ Ends E R ⟨K, .after e', r⟩ := by
  induction hn : ts.length using Nat.strongRecOn generalizing e ts with
  | _ n ihn =>
    subst hn
    cases hs : shift? (pendingLevel K) ts with
    | none =>
      refine ⟨e, ts, fun fuel hfuel => ?_, Nat.le_refl _, hs, h⟩
      obtain ⟨fuel, rfl⟩ := Nat.exists_eq_succ_of_ne_zero (n := fuel) (by omega)
      rw [Nat.succ_eq_add_one, readOperators_eq, hs]
    | some op =>
      obtain ⟨t, hnext, ht⟩ : ∃ t, Reading.next ⟨K, .after e, ts⟩ = some t ∧ Ends E R t := by
        refine h.cases.resolve_left fun heq => ?_
        cases heq
        exact absurd (hs.symm.trans h.stops) (by simp)
      have hlength := length_next hnext
      rw [next_after_of_shift hs] at hnext
      obtain ⟨⟨m, r₁⟩, hm, rfl⟩ := toOption_map_eq_some_iff.mp hnext
      have hlt : r₁.length < ts.length := hlength.2 (by simp)
      obtain ⟨right, r₂, hright⟩ := ih hlt ht
      have hclose := next_after_of_stop (e := right) hright.stops
      obtain ⟨s, hs', hends⟩ := hright.ends.step (Or.inl (by simp))
      rw [hclose] at hs'
      cases hs'
      have hlt' := hright.shorter
      obtain ⟨e', r, hread, hle, hstops, hends'⟩ :=
        ihn _ (by omega) (fun hlt'' => ih (by omega)) hends rfl
      refine ⟨e', r, fun fuel hfuel => ?_, by omega, hstops, hends'⟩
      obtain ⟨fuel, rfl⟩ := Nat.exists_eq_succ_of_ne_zero (n := fuel) (by omega)
      rw [Nat.succ_eq_add_one, readOperators_eq, hs]
      refine (bind_of_eq_ok hm).trans ((bind_of_eq_ok (hright.read fuel (by omega))).trans ?_)
      exact hread fuel (by omega)

/-- The arguments behind one, likewise. -/
theorem reads_args (ih : ReadsExpr E R ts.length) {c : Callee} {before : List Phrase}
    {extra : Bool} (h : Ends E R ⟨.argument c before extra :: K, .after e, ts⟩)
    (hstops : shift? 0 ts = none) :
    ∃ es x r s, (∀ fuel, 8 * ts.length + 1 ≤ fuel → readArgs fuel ts = .ok ((es, x), r)) ∧
      r.length < ts.length ∧ Reading.leave K c (before ++ e :: es) (extra || x) r = some s ∧
      Ends E R s := by
  induction hn : ts.length using Nat.strongRecOn generalizing e ts before extra with
  | _ n ihn =>
    subst hn
    obtain ⟨s, hs, hends⟩ := h.step (Or.inl (by simp))
    have hclose : Reading.next ⟨.argument c before extra :: K, .after e, ts⟩ =
        Reading.close (.argument c before extra :: K) e ts := next_after_of_stop hstops
    rw [hclose] at hs
    obtain ⟨us, rfl, hleave⟩ | ⟨us, rfl, rfl⟩ | ⟨us, rfl, hleave⟩ | ⟨us, rfl, hcomma, hparen, rfl⟩ :=
      close_argument hs
    · refine ⟨[], false, us, s, fun fuel hfuel => ?_, by simp, by simpa using hleave, hends⟩
      obtain ⟨fuel, rfl⟩ := Nat.exists_eq_succ_of_ne_zero (n := fuel) (by omega)
      rfl
    · obtain ⟨es, x, r, s, hread, hlt, hleave, hends'⟩ :=
        ihn _ (by simp) (fun hlt => ih (by simp at hlt ⊢; omega)) hends rfl rfl
      simp only [List.length_cons] at hlt hread ⊢
      refine ⟨es, true, r, s, fun fuel hfuel => ?_, by omega, by simpa using hleave, hends'⟩
      obtain ⟨fuel, rfl⟩ := Nat.exists_eq_succ_of_ne_zero (n := fuel) (by omega)
      rw [Nat.succ_eq_add_one, readArgs, hread fuel (by omega)]
      rfl
    · refine ⟨[], true, us, s, fun fuel hfuel => ?_, Nat.lt_succ_of_lt (Nat.lt_succ_self _),
        by simpa using hleave, hends⟩
      obtain ⟨fuel, rfl⟩ := Nat.exists_eq_succ_of_ne_zero (n := fuel) (by omega)
      rfl
    · obtain ⟨e₁, r₁, hexpr⟩ := ih (by simp) hends
      have hshorter := hexpr.shorter
      obtain ⟨es, x, r, s, hread, hlt, hleave, hends'⟩ :=
        ihn _ (by simp; omega) (fun hlt => ih (by simp; omega)) hexpr.ends hexpr.stops rfl
      simp only [List.length_cons]
      refine ⟨e₁ :: es, x, r, s, fun fuel hfuel => ?_, by omega, by simpa using hleave, hends'⟩
      obtain ⟨fuel, rfl⟩ := Nat.exists_eq_succ_of_ne_zero (n := fuel) (by omega)
      rw [Nat.succ_eq_add_one, readArgs]
      · exact (bind_of_eq_ok (hexpr.read fuel (by omega))).trans (bind_of_eq_ok (hread fuel (by omega)))
      · exact hcomma
      · exact hparen

theorem reads_body {c : Callee} {us : List Token} (ih : ReadsExpr E R (us.length + 1))
    (henter : Reading.enter K c us = some s) (h : Ends E R s) :
    ∃ args extra r t, (∀ fuel, 8 * us.length + 9 ≤ fuel →
        readBody fuel (.leftParen :: us) = .ok ((args, extra), r)) ∧
      r.length ≤ us.length ∧ Reading.leave K c args extra r = some t ∧ Ends E R t := by
  rw [Reading.enter.eq_def] at henter
  split at henter
  · next vs =>
    refine ⟨[], false, vs, s, fun fuel hfuel => ?_, by simp, henter, h⟩
    obtain ⟨fuel, rfl⟩ := Nat.exists_eq_succ_of_ne_zero (n := fuel) (by omega)
    rfl
  · next hnone =>
    cases henter
    obtain ⟨e, r₁, hexpr⟩ := ih (by simp) h
    have hshorter := hexpr.shorter
    obtain ⟨es, x, r, t, hread, hlt, hleave, hends⟩ :=
      reads_args (fun hlt => ih (by omega)) hexpr.ends hexpr.stops
    refine ⟨e :: es, x, r, t, fun fuel hfuel => ?_, by omega, by simpa using hleave, hends⟩
    obtain ⟨fuel, rfl⟩ := Nat.exists_eq_succ_of_ne_zero (n := fuel) (by omega)
    rw [Nat.succ_eq_add_one, readBody]
    · exact (bind_of_eq_ok (hexpr.read fuel (by omega))).trans (bind_of_eq_ok (hread fuel (by omega)))
    · exact hnone

/-- Where an operand does not begin with a sign, a part of the query is read that modifiers may
follow. -/
theorem reads_primary (ih : ReadsExpr E R ts.length) (h : Ends E R ⟨K, .operand, ts⟩)
    (hadd : ∀ us, ts ≠ .operator .add :: us) (hsub : ∀ us, ts ≠ .operator .sub :: us) :
    ∃ e r, (∀ fuel, 8 * ts.length + 1 ≤ fuel → readPrimary fuel ts = .ok (e, r)) ∧
      r.length < ts.length ∧ Ends E R ⟨K, .primary e, r⟩ := by
  obtain ⟨t, hnext, hends⟩ := h.step (Or.inr (by simp))
  have hlength := length_next hnext
  rw [next_operand, Reading.nextOperand.eq_def] at hnext
  split at hnext
  · exact absurd rfl (hadd _)
  · exact absurd rfl (hsub _)
  · next us =>
    cases hnext
    obtain ⟨e, r, hexpr⟩ := ih (by simp) hends
    have hshorter := hexpr.shorter
    obtain ⟨s, hs, hends'⟩ := hexpr.ends.step (Or.inl (by simp))
    rw [next_after_of_stop hexpr.stops] at hs
    obtain ⟨r, rfl, rfl⟩ := close_paren hs
    simp only [List.length_cons] at hshorter ⊢
    refine ⟨.paren e, r, fun fuel hfuel => ?_, by omega, hends'⟩
    obtain ⟨fuel, rfl⟩ := Nat.exists_eq_succ_of_ne_zero (n := fuel) (by omega)
    rw [Nat.succ_eq_add_one, readPrimary]
    exact bind_of_eq_ok (hexpr.read fuel (by omega))
  · next name us =>
    obtain ⟨args, extra, r, t', hbody, hle, hleave, hends'⟩ :=
      reads_body (fun hlt => ih (by simp; omega)) hnext hends
    cases hleave
    simp only [List.length_cons]
    refine ⟨.call name args extra, r, fun fuel hfuel => ?_, by omega, hends'⟩
    obtain ⟨fuel, rfl⟩ := Nat.exists_eq_succ_of_ne_zero (n := fuel) (by omega)
    rw [Nat.succ_eq_add_one, readPrimary, hbody fuel (by omega)]
    rfl
  · next op text keeps text' us =>
    split at hnext
    · next labels vs hlabels =>
      obtain ⟨w, rfl, -⟩ := takesFront_labels _ _ _ hlabels
      have hlt : vs.length < (w ++ .leftParen :: vs).length := by simp; omega
      obtain ⟨args, extra, r, t', hbody, hle, hleave, hends'⟩ :=
        reads_body (fun hlt' => ih (by simp; omega)) hnext hends
      cases hleave
      simp only [List.length_cons]
      refine ⟨.aggregate op (some ⟨keeps, labels⟩) args extra, r, fun fuel hfuel => ?_, by omega,
        hends'⟩
      obtain ⟨fuel, rfl⟩ := Nat.exists_eq_succ_of_ne_zero (n := fuel) (by omega)
      rw [Nat.succ_eq_add_one, readPrimary, hlabels]
      exact bind_of_eq_ok (hbody fuel (by omega))
    · cases hnext
  · next op text us _ =>
    obtain ⟨args, extra, r, t', hbody, hle, hleave, hends'⟩ :=
      reads_body (fun hlt => ih (by simp; omega)) hnext hends
    simp only [List.length_cons]
    obtain ⟨keeps, text', us', labels, r', rfl, hlabels, rfl⟩ | ⟨hgrouping, rfl⟩ :=
      leave_aggregate hleave
    · obtain ⟨w, rfl, -⟩ := takesFront_labels _ _ _ hlabels
      simp only [List.length_cons, List.length_append] at hle
      refine ⟨_, r', fun fuel hfuel => ?_, by omega, hends'⟩
      obtain ⟨fuel, rfl⟩ := Nat.exists_eq_succ_of_ne_zero (n := fuel) (by omega)
      rw [Nat.succ_eq_add_one, readPrimary, hbody fuel (by omega)]
      exact bind_of_eq_ok hlabels
    · refine ⟨_, r, fun fuel hfuel => ?_, by omega, hends'⟩
      obtain ⟨fuel, rfl⟩ := Nat.exists_eq_succ_of_ne_zero (n := fuel) (by omega)
      rw [Nat.succ_eq_add_one, readPrimary, hbody fuel (by omega)]
      dsimp only [Bind.bind, Except.bind]
      split
      · exact absurd rfl (hgrouping _ _ _)
      · rfl
  · next hparen hcall hgrouped haggregate =>
    obtain ⟨⟨e, r⟩, hatom, rfl⟩ := toOption_map_eq_some_iff.mp hnext
    refine ⟨e, r, fun fuel hfuel => ?_, hlength.2 (by simp), hends⟩
    obtain ⟨fuel, rfl⟩ := Nat.exists_eq_succ_of_ne_zero (n := fuel) (by omega)
    obtain ⟨u, w, rfl, hw⟩ := front_of_atom hatom
    exact hw fuel r rfl

theorem reads_operand (ih : ReadsExpr E R ts.length) (h : Ends E R ⟨K, .operand, ts⟩) :
    ∃ e r, (∀ fuel, 8 * ts.length + 2 ≤ fuel → readOperand fuel ts = .ok (e, r)) ∧
      r.length < ts.length ∧ Ends E R ⟨K, .after e, r⟩ := by
  -- what comes behind a sign is read first, and the sign is closed at its end
  have hsign : ∀ {us} (negative : Bool), ts.length = us.length + 1 →
      Ends E R ⟨.sign negative :: K, .operand, us⟩ →
      ∃ e r s, (∀ fuel, 8 * us.length + 3 ≤ fuel →
          readExpr fuel Operator.pow.precedence us = .ok (e, r)) ∧ r.length < ts.length ∧
        Reading.close (.sign negative :: K) e r = some s ∧ Ends E R s := by
    intro us negative hlength hends
    obtain ⟨e, r, hexpr⟩ := ih (by omega) hends
    obtain ⟨s, hs, hends'⟩ := hexpr.ends.step (Or.inl (by simp))
    rw [next_after_of_stop hexpr.stops] at hs
    have hshorter := hexpr.shorter
    exact ⟨e, r, s, hexpr.read, by omega, hs, hends'⟩
  by_cases hadd : ∃ us, ts = .operator .add :: us
  · obtain ⟨us, rfl⟩ := hadd
    obtain ⟨t, hnext, hends⟩ := h.step (Or.inr (by simp))
    cases hnext
    obtain ⟨e, r, s, hread, hlt, hclose, hends'⟩ := hsign false rfl hends
    cases hclose
    refine ⟨.plus e, r, fun fuel hfuel => ?_, hlt, hends'⟩
    obtain ⟨fuel, rfl⟩ := Nat.exists_eq_succ_of_ne_zero (n := fuel) (by omega)
    rw [Nat.succ_eq_add_one, readOperand, hread fuel (by simp at hfuel; omega)]
    rfl
  by_cases hsub : ∃ us, ts = .operator .sub :: us
  · obtain ⟨us, rfl⟩ := hsub
    obtain ⟨t, hnext, hends⟩ := h.step (Or.inr (by simp))
    cases hnext
    obtain ⟨e, r, s, hread, hlt, hclose, hends'⟩ := hsign true rfl hends
    cases hclose
    refine ⟨.minus e, r, fun fuel hfuel => ?_, hlt, hends'⟩
    obtain ⟨fuel, rfl⟩ := Nat.exists_eq_succ_of_ne_zero (n := fuel) (by omega)
    rw [Nat.succ_eq_add_one, readOperand, hread fuel (by simp at hfuel; omega)]
    rfl
  obtain ⟨e, r, hread, hlt, hends⟩ := reads_primary ih h (fun us heq => hadd ⟨us, heq⟩)
    fun us heq => hsub ⟨us, heq⟩
  obtain ⟨e', r', hpostfix, hle, hends'⟩ := reads_postfixed hends
  refine ⟨e', r', fun fuel hfuel => ?_, by omega, hends'⟩
  obtain ⟨fuel, rfl⟩ := Nat.exists_eq_succ_of_ne_zero (n := fuel) (by omega)
  rw [Nat.succ_eq_add_one, readOperand, hread fuel (by omega)]
  · exact hpostfix _ (by omega)
  · exact fun us heq => hadd ⟨us, heq⟩
  · exact fun us heq => hsub ⟨us, heq⟩

/-- **The readers read what the machine ends with**, by induction on a bound of the number of tokens. -/
theorem reads_expr (n : Nat) : ReadsExpr E R n := by
  induction n with
  | zero => exact fun hlt => absurd hlt (Nat.not_lt_zero _)
  | succ n ih =>
    intro K ts hlt h
    have ih' : ReadsExpr E R ts.length := fun hlt' => ih (by omega)
    obtain ⟨e, r, hoperand, hlt', hends⟩ := reads_operand ih' h
    obtain ⟨e', r', hoperators, hle, hstops, hends'⟩ :=
      reads_operators (fun hlt'' => ih (by omega)) hends
    refine ⟨e', r', fun fuel hfuel => ?_, by omega, hstops, hends'⟩
    obtain ⟨fuel, rfl⟩ := Nat.exists_eq_succ_of_ne_zero (n := fuel) (by omega)
    rw [Nat.succ_eq_add_one, readExpr, hoperand fuel (by omega)]
    exact hoperators fuel (by omega)

end Ends

/-! ## 6. Queries -/

/-- The state before a query. -/
abbrev Reading.start (ts : List Token) : Reading := ⟨[], .operand, ts⟩

/-- **The machine accepts what the grammar accepts**, and makes the same phrase of it. -/
theorem ofTokens_eq_ok_iff {E : Phrase} : ofTokens ts = .ok (some E) ↔
    ∃ R, (R = [] ∨ R = [.finish]) ∧ Reaches (Reading.start ts) ⟨[], .after E, R⟩ := by
  constructor
  · intro h
    rw [ofTokens.eq_def] at h
    split at h
    · cases h
    · obtain ⟨⟨e, r⟩, hread, h⟩ := exists_of_bind_eq_ok h
      have hreaches := ((follows _).expr (K := []) hread).1
      dsimp only at h
      split at h
      · cases h
        exact ⟨[], Or.inl rfl, hreaches⟩
      · cases h
        exact ⟨[.finish], Or.inr rfl, hreaches⟩
      · cases h
  · rintro ⟨R, hR, hreaches⟩
    have hstops : shift? 0 R = none := by
      rcases hR with rfl | rfl <;> rfl
    obtain ⟨e, r, hexpr⟩ := reads_expr _ (Nat.lt_succ_self ts.length) ⟨hreaches, hstops⟩
    obtain ⟨rfl, rfl⟩ : e = E ∧ r = R := by
      rcases hexpr.ends.cases with heq | ⟨t, hnext, -⟩
      · cases heq
        exact ⟨rfl, rfl⟩
      · rw [next_after_of_stop hexpr.stops] at hnext
        cases hnext
    have hne : ts ≠ [.finish] := by
      rintro rfl
      have hread := hexpr.read _ (Nat.le_refl _)
      cases hread
    have hread := hexpr.read (8 * ts.length + 8) (by omega)
    rw [ofTokens.eq_def]
    split
    · exact absurd rfl hne
    · refine (bind_of_eq_ok hread).trans ?_
      rcases hR with rfl | rfl <;> rfl

end PanelLint.Promql
