import PanelLint.Proofs.Promql.Frames
/-!
# What is begun, along a run

A step of the machine sees the innermost frame at most, so a run that closes none of the frames that
are there at its start goes the same way above others.  What the frames say about the phrases to come:

* `next_above`, `Reaches.lift`: steps and runs above a part of the stack;
* `Rising`: operators bind the tighter the further in they are begun;
* `scalarDue`: whether the value that a stack waits for has to be a scalar;
* `passes_of_reaches`: along the run over a query that passes the checks, all that has been read so
  far passes them.
-/

namespace PanelLint.Promql

open Phrase

variable {K P : List Frame} {ts r : List Token} {e : Phrase} {s t : Reading} {mode : Mode}

/-! ## 1. Steps above a part of the stack -/

/-- **A step that leaves the frames below alone**: it puts the same ones on top of any others. -/
def Uniform (step : List Frame → Option Reading) : Prop :=
  ∀ K t, step K = some t → ∃ G mode r, t = ⟨G ++ K, mode, r⟩ ∧
    ∀ K', step K' = some ⟨G ++ K', mode, r⟩

/-- Behind the arguments of a call only its own frame is gone. -/
theorem uniform_leave (c : Callee) (args : List Phrase) (extra : Bool) (ts : List Token) :
    Uniform fun K => Reading.leave K c args extra ts := by
  intro K t h
  dsimp only at h ⊢
  rw [Reading.leave.eq_def] at h
  split at h
  · obtain ⟨⟨labels, r⟩, hlabels, rfl⟩ := toOption_map_eq_some_iff.mp h
    refine ⟨[], _, r, rfl, fun K' => ?_⟩
    rw [Reading.leave, hlabels]
    rfl
  · next hgrouping =>
    cases h
    refine ⟨[], _, _, rfl, fun K' => ?_⟩
    rw [Reading.leave]
    · rfl
    · exact hgrouping

/-- A call puts its frame on top. -/
theorem uniform_enter (c : Callee) (ts : List Token) : Uniform fun K => Reading.enter K c ts := by
  intro K t h
  dsimp only at h ⊢
  rw [Reading.enter.eq_def] at h
  split at h
  · exact uniform_leave _ _ _ _ K t h
  · next hparen =>
    cases h
    refine ⟨[_], _, _, rfl, fun K' => ?_⟩
    rw [Reading.enter]
    · rfl
    · exact hparen

/-- So do signs, parentheses and calls where an operand is due. -/
theorem uniform_operand (ts : List Token) : Uniform fun K => Reading.nextOperand K ts := by
  intro K t h
  dsimp only at h ⊢
  rw [Reading.nextOperand.eq_def] at h
  split at h
  · cases h
    exact ⟨[_], _, _, rfl, fun _ => rfl⟩
  · cases h
    exact ⟨[_], _, _, rfl, fun _ => rfl⟩
  · cases h
    exact ⟨[_], _, _, rfl, fun _ => rfl⟩
  · exact uniform_enter _ _ K t h
  · split at h
    · next labels us hlabels =>
      obtain ⟨G, mode, r, rfl, hG⟩ := uniform_enter _ _ K t h
      refine ⟨G, mode, r, rfl, fun K' => ?_⟩
      rw [Reading.nextOperand, hlabels]
      exact hG K'
    · cases h
  · exact uniform_enter _ _ K t h
  · obtain ⟨⟨e, r⟩, hatom, rfl⟩ := toOption_map_eq_some_iff.mp h
    exact ⟨[], _, r, rfl, fun K' => nextOperand_atom hatom⟩

/-- A modifier touches no frame. -/
theorem uniform_primary (e : Phrase) (ts : List Token) :
    Uniform fun K => Reading.nextPrimary K e ts := by
  intro K t h
  dsimp only at h ⊢
  rw [Reading.nextPrimary.eq_def] at h
  split at h
  · obtain ⟨⟨e', r⟩, hread, rfl⟩ := toOption_map_eq_some_iff.mp h
    refine ⟨[], _, r, rfl, fun K' => ?_⟩
    rw [Reading.nextPrimary, hread]
    rfl
  · obtain ⟨⟨e', r⟩, hread, rfl⟩ := toOption_map_eq_some_iff.mp h
    refine ⟨[], _, r, rfl, fun K' => ?_⟩
    rw [Reading.nextPrimary, hread]
    rfl
  · obtain ⟨⟨e', r⟩, hread, rfl⟩ := toOption_map_eq_some_iff.mp h
    refine ⟨[], _, r, rfl, fun K' => ?_⟩
    rw [Reading.nextPrimary, hread]
    rfl
  · next hbracket hoffset hat =>
    cases h
    refine ⟨[], _, _, rfl, fun K' => ?_⟩
    rw [Reading.nextPrimary]
    · rfl
    · exact hbracket
    · exact hoffset
    · exact hat

/-- To close a frame is to leave those below it, once that frame is known. -/
theorem uniform_close (f : Frame) (e : Phrase) (ts : List Token) :
    Uniform fun K => Reading.close (f :: K) e ts := by
  intro K t h
  dsimp only at h ⊢
  cases f with
  | sign negative =>
    cases negative <;> (cases h; exact ⟨[], _, _, rfl, fun _ => rfl⟩)
  | operator op m l =>
    cases h
    exact ⟨[], _, _, rfl, fun _ => rfl⟩
  | paren =>
    obtain ⟨us, rfl, rfl⟩ := close_paren h
    exact ⟨[], _, _, rfl, fun _ => rfl⟩
  | argument c before extra =>
    obtain ⟨us, rfl, hleave⟩ | ⟨us, rfl, rfl⟩ | ⟨us, rfl, hleave⟩ | ⟨us, rfl, hcomma, hparen, rfl⟩ :=
      close_argument h
    · exact uniform_leave _ _ _ _ K t hleave
    · exact ⟨[_], _, _, rfl, fun _ => rfl⟩
    · exact uniform_leave _ _ _ _ K t hleave
    · refine ⟨[_], _, _, rfl, fun K' => ?_⟩
      rw [Reading.close]
      · rfl
      · exact hcomma
      · exact hparen

/-- **A step above a part of the stack** is the same above any other part with the same level, unless it
closes the innermost frame of that part. -/
theorem next_above {G : List Frame} (h : Reading.next ⟨G ++ P, mode, ts⟩ = some t) :
    (∃ G' mode' r, t = ⟨G' ++ P, mode', r⟩ ∧ ∀ P', pendingLevel P' = pendingLevel P →
      Reading.next ⟨G ++ P', mode, ts⟩ = some ⟨G' ++ P', mode', r⟩) ∨
    G = [] ∧ ∃ e, mode = .after e ∧ shift? (pendingLevel P) ts = none ∧
      Reading.close P e ts = some t := by
  -- what is uniform in the whole stack is uniform in the part
  have huniform : ∀ {step : List Frame → Option Reading} {H : List Frame}, Uniform step →
      step (H ++ P) = some t → ∃ G' mode' r, t = ⟨G' ++ P, mode', r⟩ ∧
        ∀ P', step (H ++ P') = some ⟨G' ++ P', mode', r⟩ := by
    intro step H hstep ht
    obtain ⟨G', mode', r, rfl, hG'⟩ := hstep _ _ ht
    exact ⟨G' ++ H, mode', r, by rw [List.append_assoc], fun P' => by rw [hG', List.append_assoc]⟩
  cases mode with
  | operand =>
    obtain ⟨G', mode', r, ht, hG'⟩ := huniform (uniform_operand ts) h
    exact Or.inl ⟨G', mode', r, ht, fun P' _ => hG' P'⟩
  | primary e =>
    obtain ⟨G', mode', r, ht, hG'⟩ := huniform (uniform_primary e ts) h
    exact Or.inl ⟨G', mode', r, ht, fun P' _ => hG' P'⟩
  | after e =>
    cases hs : shift? (pendingLevel (G ++ P)) ts with
    | some op =>
      rw [next_after_of_shift hs] at h
      obtain ⟨⟨m, r⟩, hm, rfl⟩ := toOption_map_eq_some_iff.mp h
      refine Or.inl ⟨.operator op m e :: G, .operand, r, rfl, fun P' hP' => ?_⟩
      have hs' : shift? (pendingLevel (G ++ P')) ts = some op := by
        cases G with
        | nil => exact hP' ▸ hs
        | cons f G => exact hs
      rw [next_after_of_shift hs', hm]
      rfl
    | none =>
      cases G with
      | nil =>
        rw [next_after_of_stop hs] at h
        exact Or.inr ⟨rfl, e, rfl, hs, h⟩
      | cons f G =>
        rw [next_after_of_stop hs] at h
        obtain ⟨G', mode', r, ht, hG'⟩ := huniform (uniform_close f e ts) h
        refine Or.inl ⟨G', mode', r, ht, fun P' _ => ?_⟩
        have hs' : shift? (pendingLevel (f :: G ++ P')) ts = none := hs
        exact (next_after_of_stop hs').trans (hG' P')

/-- A run above nothing is one above any stack that waits for no operator. -/
theorem Reaches.lift (h : Reaches s t) (hP : pendingLevel P = 0) :
    Reaches ⟨s.frames ++ P, s.mode, s.rest⟩ ⟨t.frames ++ P, t.mode, t.rest⟩ := by
  induction h using Relation.ReflTransGen.head_induction_on with
  | refl => exact Relation.ReflTransGen.refl
  | @head s s₁ hstep _ ih =>
    obtain ⟨G, mode, ts⟩ := s
    obtain ⟨G', mode', r, rfl, hG'⟩ | ⟨-, e, -, -, hclose⟩ :=
      next_above (P := []) (by rwa [List.append_nil])
    · rw [List.append_nil] at ih
      exact (Reaches.step (hG' P hP)).trans ih
    · cases hclose

/-! ## 2. Operators and signs -/

/-- Whether a frame is closed without a token: it is an operator or a sign. -/
def Frame.isChain : Frame → Bool
  | .sign _ => true
  | .operator .. => true
  | _ => false

/-- What an operator or a sign makes of its operand. -/
def Frame.fill : Frame → Phrase → Phrase
  | .sign false, e => .plus e
  | .sign true, e => .minus e
  | .operator op m l, e => .binary op m l e
  | _, e => e

/-- A frame that needs no token is closed with what it makes of its operand. -/
theorem close_chain {f : Frame} (hf : f.isChain = true) :
    Reading.close (f :: K) e ts = some ⟨K, .after (f.fill e), ts⟩ := by
  cases f with
  | sign negative => cases negative <;> rfl
  | operator op m l => rfl
  | _ => cases hf

/-- **Operators bind the tighter the further in they are begun**: no operator or sign is looser than
what it stands in. -/
def Rising : List Frame → Prop
  | [] => True
  | f :: K => (f.isChain = true → pendingLevel K ≤ f.level) ∧ Rising K

/-- No operator asks for more to its right than the precedence of `^`. -/
theorem rightPrecedence_le_pow (op : Operator) : op.rightPrecedence ≤ Operator.pow.precedence := by
  cases op <;> decide

theorem level_le_pow (f : Frame) : f.level ≤ Operator.pow.precedence := by
  cases f with
  | operator op m l => exact rightPrecedence_le_pow op
  | sign _ => exact Nat.le_refl _
  | _ => exact Nat.zero_le _

theorem pendingLevel_le_pow (K : List Frame) : pendingLevel K ≤ Operator.pow.precedence := by
  cases K with
  | nil => exact Nat.zero_le _
  | cons f K => exact level_le_pow f

/-- An operator asks to its right for what binds at least as tightly. -/
theorem precedence_le_rightPrecedence (op : Operator) : op.precedence ≤ op.rightPrecedence := by
  cases op <;> decide

/-- Behind a parenthesis the order begins anew. -/
theorem rising_enter {c : Callee} (hK : Rising K) (h : Reading.enter K c ts = some t) :
    Rising t.frames := by
  rw [Reading.enter.eq_def] at h
  split at h
  · obtain ⟨rfl, -⟩ := leave_front h
    exact hK
  · cases h
    exact ⟨by simp [Frame.isChain], hK⟩

/-- **Each step keeps the order**: an operator is taken only where it binds tightly enough for the frame
it stands in. -/
theorem rising_next (hs : Rising s.frames) (h : s.next = some t) : Rising t.frames := by
  obtain ⟨K, mode, ts⟩ := s
  cases mode with
  | operand =>
    rw [next_operand, Reading.nextOperand.eq_def] at h
    split at h
    · cases h
      exact ⟨fun _ => pendingLevel_le_pow K, hs⟩
    · cases h
      exact ⟨fun _ => pendingLevel_le_pow K, hs⟩
    · cases h
      exact ⟨by simp [Frame.isChain], hs⟩
    · exact rising_enter hs h
    · split at h
      · exact rising_enter hs h
      · cases h
    · exact rising_enter hs h
    · obtain ⟨_, -, rfl⟩ := toOption_map_eq_some_iff.mp h
      exact hs
  | primary e =>
    rw [next_primary, Reading.nextPrimary.eq_def] at h
    split at h
    · obtain ⟨_, -, rfl⟩ := toOption_map_eq_some_iff.mp h
      exact hs
    · obtain ⟨_, -, rfl⟩ := toOption_map_eq_some_iff.mp h
      exact hs
    · obtain ⟨_, -, rfl⟩ := toOption_map_eq_some_iff.mp h
      exact hs
    · cases h
      exact hs
  | after e =>
    cases hshift : shift? (pendingLevel K) ts with
    | some op =>
      rw [next_after_of_shift hshift] at h
      obtain ⟨_, -, rfl⟩ := toOption_map_eq_some_iff.mp h
      have hle := (shift?_eq_some_iff.mp hshift).2
      exact ⟨fun _ => Nat.le_trans hle (precedence_le_rightPrecedence op), hs⟩
    | none =>
      rw [next_after_of_stop hshift] at h
      cases K with
      | nil => cases h
      | cons f K =>
        obtain ⟨hf, hK⟩ := hs
        cases f with
        | sign negative =>
          rw [close_chain rfl] at h
          cases h
          exact hK
        | operator op m l =>
          rw [close_chain rfl] at h
          cases h
          exact hK
        | paren =>
          obtain ⟨us, -, rfl⟩ := close_paren h
          exact hK
        | argument c before extra =>
          obtain ⟨us, -, hleave⟩ | ⟨us, -, rfl⟩ | ⟨us, -, hleave⟩ | ⟨us, -, -, -, rfl⟩ :=
            close_argument h
          · obtain ⟨rfl, -⟩ := leave_front hleave
            exact hK
          · exact ⟨by simp [Frame.isChain], hK⟩
          · obtain ⟨rfl, -⟩ := leave_front hleave
            exact hK
          · exact ⟨by simp [Frame.isChain], hK⟩

/-- So does a run. -/
theorem rising_of_reaches (h : Reaches s t) (hs : Rising s.frames) : Rising t.frames := by
  induction h with
  | refl => exact hs
  | tail _ hstep ih => exact rising_next ih hstep

/-- Operators and signs above a stack are no looser than it. -/
theorem Rising.level_le {G : List Frame} (h : Rising (G ++ K))
    (hG : ∀ f ∈ G, f.isChain = true) : ∀ f ∈ G, pendingLevel K ≤ f.level := by
  induction G with
  | nil => simp
  | cons g G ih =>
    obtain ⟨hg, htail⟩ := h
    have hrest := ih htail fun f hf => hG f (List.mem_cons_of_mem g hf)
    intro f hf
    rcases List.mem_cons.mp hf with rfl | hf
    · have hle := hg (hG f List.mem_cons_self)
      cases G with
      | nil => exact hle
      | cons g' G => exact Nat.le_trans (hrest g' List.mem_cons_self) hle
    · exact hrest f hf

/-! ## 3. Where a scalar is due -/

/-- Whether an argument at an index has to be a scalar. -/
def Callee.scalarDue : Callee → Nat → Bool
  | .call name => Promql.scalarDue name
  | .aggregate op _ => op.scalarDue

/-- Whether a number out of the domain of a function is accepted as its first argument. -/
def Callee.hasDomain : Callee → Bool
  | .call name => domainFunctions.contains name
  | .aggregate .. => false

/-- **Whether a stack waits for a scalar**: what comes goes through operators, signs and parentheses to
an argument that has to be one. -/
def scalarPending : List Frame → Bool
  | [] => false
  | .sign _ :: K => scalarPending K
  | .operator .. :: K => scalarPending K
  | .paren :: K => scalarPending K
  | .argument c before _ :: _ => c.scalarDue before.length

/-- Operators and signs pass on what is due to their operands. -/
theorem scalarPending_append {G : List Frame} (hG : ∀ f ∈ G, f.isChain = true) :
    scalarPending (G ++ K) = scalarPending K := by
  induction G with
  | nil => rfl
  | cons f G ih =>
    have htail := ih fun g hg => hG g (List.mem_cons_of_mem f hg)
    have hf := hG f List.mem_cons_self
    cases f with
    | sign _ => exact htail
    | operator _ _ _ => exact htail
    | _ => cases hf

/-! ## 4. Checks along a run

The checks go through a phrase from its parts up, and stop at the first part that fails.  So along a run
they are seen from its end: what is made of a part passes only if the part does.
-/

/-- A phrase that passes the checks. -/
def Phrase.Passes (e : Phrase) : Prop := ∃ a, e.check = .ok a

/-- A phrase that passes the checks and can be an operand. -/
def Phrase.PassesAsOperand (e : Phrase) : Prop := ∃ a, e.check = .ok a ∧ a.type.isOperand = true

/-- What is read in a frame passes the checks. -/
def Frame.Passes : Frame → Prop
  | .operator _ _ l => l.PassesAsOperand
  | .argument _ before _ => ∀ p ∈ before, p.Passes
  | _ => True

/-- **What is read so far passes the checks.** -/
structure Reading.Passes (s : Reading) : Prop where
  frames : ∀ f ∈ s.frames, f.Passes
  primary : ∀ e, s.mode = .primary e → e.Passes
  after : ∀ e, s.mode = .after e → e.Passes

theorem Phrase.PassesAsOperand.passes (h : e.PassesAsOperand) : e.Passes :=
  h.imp fun _ ha => ha.1

/-- What is behind a plus sign passes if the whole does. -/
theorem passes_of_plus (h : (Phrase.plus e).Passes) : e.Passes := by
  obtain ⟨a, ha⟩ := h
  rw [Phrase.check] at ha
  exact ⟨a, ha⟩

/-- Behind a minus sign it is an operand as well. -/
theorem passes_of_minus (h : (Phrase.minus e).Passes) : e.PassesAsOperand := by
  obtain ⟨a, ha⟩ := h
  rw [Phrase.check] at ha
  obtain ⟨b, hb, hminus⟩ := exists_of_bind_eq_ok ha
  exact ⟨b, hb, (checkMinus_eq_ok hminus).2.1⟩

theorem refuseIf_eq_ok {c : Bool} {err : CheckError} {u : Unit} (h : refuseIf c err = .ok u) :
    c = false := by
  cases c with
  | false => rfl
  | true => cases h

/-- The operands of a binary operator that passes its check are operands. -/
theorem isOperand_of_checkBinary {op : Operator} {m : Modifier} {l r a : Expr}
    (h : checkBinary op m l r = .ok a) : l.type.isOperand = true ∧ r.type.isOperand = true := by
  unfold checkBinary at h
  obtain ⟨_, -, h⟩ := exists_of_bind_eq_ok h
  obtain ⟨_, -, h⟩ := exists_of_bind_eq_ok h
  split at h
  · cases h
  · obtain ⟨_, -, h⟩ := exists_of_bind_eq_ok h
    obtain ⟨_, -, h⟩ := exists_of_bind_eq_ok h
    obtain ⟨_, hrefuse, -⟩ := exists_of_bind_eq_ok h
    simpa using refuseIf_eq_ok hrefuse

/-- **Both operands of an operator pass**, and are operands. -/
theorem passes_of_binary {op : Operator} {m : ModifierPhrase} {l r : Phrase}
    (h : (Phrase.binary op m l r).Passes) :
    l.PassesAsOperand ∧ r.PassesAsOperand := by
  obtain ⟨a, ha⟩ := h
  rw [Phrase.check] at ha
  obtain ⟨b, hb, ha⟩ := exists_of_bind_eq_ok ha
  obtain ⟨n, -, ha⟩ := exists_of_bind_eq_ok ha
  obtain ⟨c, hc, ha⟩ := exists_of_bind_eq_ok ha
  obtain ⟨hl, hr⟩ := isOperand_of_checkBinary ha
  exact ⟨⟨b, hb, hl⟩, c, hc, hr⟩

/-- The same for the frames of signs and operators. -/
theorem passes_of_fill {f : Frame} (hf : f.isChain = true) (h : (f.fill e).Passes) :
    e.Passes ∧ f.Passes := by
  cases f with
  | sign negative =>
    cases negative with
    | false => exact ⟨passes_of_plus h, trivial⟩
    | true => exact ⟨(passes_of_minus h).passes, trivial⟩
  | operator op m l => exact ⟨(passes_of_binary h).2.passes, (passes_of_binary h).1⟩
  | _ => cases hf

/-- Of several phrases that pass together each one does. -/
theorem passes_of_checkAll {es : List Phrase} {as : List Expr} (h : Phrase.checkAll es = .ok as) :
    ∀ p ∈ es, p.Passes := by
  induction es generalizing as with
  | nil => simp
  | cons e es ih =>
    rw [Phrase.checkAll] at h
    obtain ⟨a, ha, h⟩ := exists_of_bind_eq_ok h
    obtain ⟨as', has, -⟩ := exists_of_bind_eq_ok h
    intro p hp
    rcases List.mem_cons.mp hp with rfl | hp
    · exact ⟨a, ha⟩
    · exact ih has p hp

/-- The arguments of a call that passes its checks pass theirs. -/
theorem passes_of_apply {c : Callee} {args : List Phrase} {extra : Bool}
    (h : (c.apply args extra).Passes) : ∀ p ∈ args, p.Passes := by
  obtain ⟨a, ha⟩ := h
  cases c with
  | call name =>
    rw [Callee.apply, Phrase.check] at ha
    split at ha
    · cases ha
    · obtain ⟨_, -, ha⟩ := exists_of_bind_eq_ok ha
      obtain ⟨as, has, -⟩ := exists_of_bind_eq_ok ha
      exact passes_of_checkAll has
  | aggregate op grouping =>
    rw [Callee.apply, Phrase.check] at ha
    obtain ⟨_, -, ha⟩ := exists_of_bind_eq_ok ha
    obtain ⟨_, -, ha⟩ := exists_of_bind_eq_ok ha
    obtain ⟨as, has, -⟩ := exists_of_bind_eq_ok ha
    exact passes_of_checkAll has

/-- Behind its arguments a call is applied to them, now perhaps with a grouping. -/
theorem exists_leave {c : Callee} {args : List Phrase} {extra : Bool}
    (h : Reading.leave K c args extra ts = some t) :
    ∃ (c' : Callee) (r : List Token), c'.scalarDue = c.scalarDue ∧
      t = ⟨K, .primary (c'.apply args extra), r⟩ ∧
      ∀ K' args', Reading.leave K' c args' extra ts = some ⟨K', .primary (c'.apply args' extra), r⟩ := by
  cases c with
  | call name =>
    cases h
    exact ⟨.call name, ts, rfl, rfl, fun _ _ => rfl⟩
  | aggregate op grouping =>
    cases grouping with
    | some g =>
      cases h
      exact ⟨.aggregate op (some g), ts, rfl, rfl, fun _ _ => rfl⟩
    | none =>
      obtain ⟨keeps, text, us, labels, r, rfl, hlabels, rfl⟩ | ⟨hgrouping, rfl⟩ := leave_aggregate h
      · refine ⟨.aggregate op (some ⟨keeps, labels⟩), r, rfl, rfl, fun K' args' => ?_⟩
        rw [Reading.leave, hlabels]
        rfl
      · refine ⟨.aggregate op none, ts, rfl, rfl, fun K' args' => ?_⟩
        rw [Reading.leave]
        exact fun _ keeps text us _ heq => hgrouping keeps text us heq

/-- The arguments read so far pass where the call passes that is made of them. -/
theorem passes_of_leave {c : Callee} {args : List Phrase} {extra : Bool}
    (h : Reading.leave K c args extra ts = some t) (ht : t.Passes) :
    (∀ f ∈ K, f.Passes) ∧ ∀ p ∈ args, p.Passes := by
  obtain ⟨c', r, -, rfl, -⟩ := exists_leave h
  exact ⟨ht.frames, passes_of_apply (ht.primary _ rfl)⟩

/-- **What a modifier makes** of the part of the query that it stands behind. -/
inductive IsModifier : (Phrase → Phrase) → Prop
  | range (span : Span) : IsModifier (.range · span)
  | noRange : IsModifier .noRange
  | subquery (span : Span) (step : Option Span) : IsModifier (.subquery · span step)
  | offset (negative : Bool) (span : Span) : IsModifier (.offset · negative span)
  | noOffset : IsModifier .noOffset
  | atTime (time : TimePhrase) : IsModifier (.atTime · time)
  | noTime : IsModifier .noTime

/-- A reader of modifiers reads the same one behind any part of a query. -/
def ReadsModifier (x : Phrase → List Token → Except Stop (Phrase × List Token)) : Prop :=
  ∀ e ts e' r, x e ts = .ok (e', r) →
    ∃ f, IsModifier f ∧ e' = f e ∧ ∀ d, x d ts = .ok (f d, r)

theorem readsModifier_afterSpan (span : Span) :
    ReadsModifier fun e ts => readAfterSpan e span ts := by
  intro e ts e' r h
  dsimp only at h ⊢
  rw [readAfterSpan.eq_def] at h
  split at h
  · cases h
    exact ⟨_, .range span, rfl, fun _ => rfl⟩
  · cases h
    exact ⟨_, .subquery span none, rfl, fun _ => rfl⟩
  · next hnone =>
    obtain ⟨⟨step, r₁⟩, hstep, hlast⟩ := exists_of_bind_eq_ok h
    dsimp only at hlast
    split at hlast
    · cases hlast
      refine ⟨_, .subquery span (some step), rfl, fun d => ?_⟩
      rw [readAfterSpan]
      · rw [hstep]
        rfl
      · exact hnone
    · cases hlast
  · cases h

/-- **Brackets**, with one length of time or two. -/
theorem readsModifier_brackets : ReadsModifier readBrackets := by
  intro e ts e' r h
  by_cases hend : ∃ us, ts = .rightBracket :: us
  · obtain ⟨us, rfl⟩ := hend
    cases h
    exact ⟨_, .noRange, rfl, fun _ => rfl⟩
  have hspan := fun d => readBrackets_span (e := d) fun us hus => hend ⟨us, hus⟩
  rw [hspan] at h
  obtain ⟨⟨span, r₁⟩, hs, hrest⟩ := exists_of_bind_eq_ok h
  obtain ⟨f, hf, rfl, hread⟩ := readsModifier_afterSpan span _ _ _ _ hrest
  refine ⟨f, hf, rfl, fun d => ?_⟩
  rw [hspan, hs]
  exact hread d

theorem readsModifier_offset : ReadsModifier readOffset := by
  intro e ts e' r h
  rw [readOffset.eq_def] at h
  split at h
  · cases h
    exact ⟨_, .noOffset, rfl, fun _ => rfl⟩
  · obtain ⟨⟨span, r⟩, hs, heq⟩ := exists_of_map_eq_ok h
    cases heq
    refine ⟨_, .offset false span, rfl, fun d => ?_⟩
    rw [readOffset, hs]
    rfl
  · obtain ⟨⟨span, r⟩, hs, heq⟩ := exists_of_map_eq_ok h
    cases heq
    refine ⟨_, .offset true span, rfl, fun d => ?_⟩
    rw [readOffset, hs]
    rfl
  · next hfinish hadd hsub =>
    obtain ⟨⟨span, r⟩, hs, heq⟩ := exists_of_map_eq_ok h
    cases heq
    refine ⟨_, .offset false span, rfl, fun d => ?_⟩
    rw [readOffset, hs]
    · rfl
    · exact hfinish
    · exact hadd
    · exact hsub

theorem readsModifier_time : ReadsModifier readTime := by
  intro e ts e' r h
  rw [readTime.eq_def] at h
  split at h
  · cases h
    exact ⟨_, .noTime, rfl, fun _ => rfl⟩
  · obtain ⟨⟨time, r⟩, ht, heq⟩ := exists_of_map_eq_ok h
    cases heq
    refine ⟨_, .atTime time, rfl, fun d => ?_⟩
    rw [readTime, ht]
    rfl
  · obtain ⟨⟨time, r⟩, ht, heq⟩ := exists_of_map_eq_ok h
    cases heq
    refine ⟨_, .atTime time, rfl, fun d => ?_⟩
    rw [readTime, ht]
    rfl
  · cases h
    exact ⟨_, .atTime _, rfl, fun _ => rfl⟩
  · next hfinish hadd hsub hedge =>
    obtain ⟨⟨time, r⟩, ht, heq⟩ := exists_of_map_eq_ok h
    cases heq
    refine ⟨_, .atTime time, rfl, fun d => ?_⟩
    rw [readTime, ht]
    · rfl
    · exact hfinish
    · exact hadd
    · exact hsub
    · exact hedge

/-- **A step behind a part of the query** reads a modifier of it, or takes it for the operand. -/
theorem exists_modifier (h : Reading.nextPrimary K e ts = some t) :
    (t = ⟨K, .after e, ts⟩ ∧ ∀ K' d, Reading.nextPrimary K' d ts = some ⟨K', .after d, ts⟩) ∨
    ∃ f r, IsModifier f ∧ t = ⟨K, .primary (f e), r⟩ ∧
      ∀ K' d, Reading.nextPrimary K' d ts = some ⟨K', .primary (f d), r⟩ := by
  rw [Reading.nextPrimary.eq_def] at h
  split at h
  · obtain ⟨⟨e', r⟩, hread, rfl⟩ := toOption_map_eq_some_iff.mp h
    obtain ⟨f, hf, rfl, hall⟩ := readsModifier_brackets _ _ _ _ hread
    refine Or.inr ⟨f, r, hf, rfl, fun K' d => ?_⟩
    rw [Reading.nextPrimary, hall]
    rfl
  · obtain ⟨⟨e', r⟩, hread, rfl⟩ := toOption_map_eq_some_iff.mp h
    obtain ⟨f, hf, rfl, hall⟩ := readsModifier_offset _ _ _ _ hread
    refine Or.inr ⟨f, r, hf, rfl, fun K' d => ?_⟩
    rw [Reading.nextPrimary, hall]
    rfl
  · obtain ⟨⟨e', r⟩, hread, rfl⟩ := toOption_map_eq_some_iff.mp h
    obtain ⟨f, hf, rfl, hall⟩ := readsModifier_time _ _ _ _ hread
    refine Or.inr ⟨f, r, hf, rfl, fun K' d => ?_⟩
    rw [Reading.nextPrimary, hall]
    rfl
  · next hbracket hoffset hat =>
    cases h
    refine Or.inl ⟨rfl, fun K' d => ?_⟩
    rw [Reading.nextPrimary]
    · exact hbracket
    · exact hoffset
    · exact hat

/-- A part of the query passes if it does with a modifier behind it. -/
theorem passes_of_modifier {f : Phrase → Phrase} (hf : IsModifier f) (h : (f e).Passes) :
    e.Passes := by
  obtain ⟨a, ha⟩ := h
  have hbind : ∀ {g : Expr → Except CheckError Expr}, e.check >>= g = .ok a → e.Passes := by
    intro g hg
    obtain ⟨b, hb, -⟩ := exists_of_bind_eq_ok hg
    exact ⟨b, hb⟩
  cases hf with
  | noRange => rw [Phrase.check] at ha; cases ha
  | noOffset => rw [Phrase.check] at ha; cases ha
  | noTime => rw [Phrase.check] at ha; cases ha
  | _ => rw [Phrase.check] at ha; exact hbind ha

/-- **What is closed passes** if what it has become does. -/
theorem passes_of_close {f : Frame} (h : Reading.close (f :: K) e ts = some t) (ht : t.Passes) :
    (∀ g ∈ f :: K, g.Passes) ∧ e.Passes := by
  by_cases hf : f.isChain = true
  · rw [close_chain hf] at h
    cases h
    obtain ⟨he, hfp⟩ := passes_of_fill hf (ht.after _ rfl)
    exact ⟨List.forall_mem_cons.mpr ⟨hfp, ht.frames⟩, he⟩
  cases f with
  | sign _ => exact absurd rfl hf
  | operator _ _ _ => exact absurd rfl hf
  | paren =>
    obtain ⟨us, -, rfl⟩ := close_paren h
    obtain ⟨a, ha⟩ := ht.primary _ rfl
    rw [Phrase.check] at ha
    obtain ⟨b, hb, -⟩ := exists_of_map_eq_ok ha
    exact ⟨List.forall_mem_cons.mpr ⟨trivial, ht.frames⟩, b, hb⟩
  | argument c before extra =>
    -- the argument joins those before it
    have hjoined : (∀ p ∈ before ++ [e], p.Passes) → (∀ g ∈ K, g.Passes) →
        (∀ g ∈ .argument c before extra :: K, g.Passes) ∧ e.Passes := fun hall hK =>
      ⟨List.forall_mem_cons.mpr ⟨fun p hp => hall p (List.mem_append_left _ hp), hK⟩,
        hall e (by simp)⟩
    obtain ⟨us, -, hleave⟩ | ⟨us, -, rfl⟩ | ⟨us, -, hleave⟩ | ⟨us, -, -, -, rfl⟩ :=
      close_argument h
    · exact hjoined (passes_of_leave hleave ht).2 (passes_of_leave hleave ht).1
    · obtain ⟨hbefore, hK⟩ := List.forall_mem_cons.mp ht.frames
      exact ⟨List.forall_mem_cons.mpr ⟨hbefore, hK⟩, ht.after e rfl⟩
    · exact hjoined (passes_of_leave hleave ht).2 (passes_of_leave hleave ht).1
    · obtain ⟨hbefore, hK⟩ := List.forall_mem_cons.mp ht.frames
      exact hjoined hbefore hK

/-- What is read at the end of a step passes only if what is read before it does. -/
theorem passes_of_next (h : s.next = some t) (ht : t.Passes) : s.Passes := by
  obtain ⟨K, mode, ts⟩ := s
  cases mode with
  | operand =>
    obtain ⟨G, mode, r, rfl, -⟩ := uniform_operand ts K t h
    exact ⟨fun f hf => ht.frames f (List.mem_append_right G hf), by simp, by simp⟩
  | primary e =>
    have he : (∀ f ∈ K, f.Passes) ∧ e.Passes := by
      obtain ⟨rfl, -⟩ | ⟨f, r, hf, rfl, -⟩ := exists_modifier h
      · exact ⟨ht.frames, ht.after e rfl⟩
      · exact ⟨ht.frames, passes_of_modifier hf (ht.primary _ rfl)⟩
    exact ⟨he.1, fun d hd => (by cases hd; exact he.2), by simp⟩
  | after e =>
    have he : (∀ f ∈ K, f.Passes) ∧ e.Passes := by
      cases hs : shift? (pendingLevel K) ts with
      | some op =>
        rw [next_after_of_shift hs] at h
        obtain ⟨⟨m, r⟩, -, rfl⟩ := toOption_map_eq_some_iff.mp h
        have hop : e.PassesAsOperand := ht.frames (.operator op m e) List.mem_cons_self
        exact ⟨fun f hf => ht.frames f (List.mem_cons_of_mem _ hf), hop.passes⟩
      | none =>
        rw [next_after_of_stop hs] at h
        cases K with
        | nil => cases h
        | cons f K => exact passes_of_close h ht
    exact ⟨he.1, by simp, fun d hd => (by cases hd; exact he.2)⟩

/-- **All that is read on the way passes the checks**, if the machine comes to an end with a phrase that
does. -/
theorem passes_of_reaches (h : Reaches s t) (ht : t.Passes) : s.Passes := by
  induction h using Relation.ReflTransGen.head_induction_on with
  | refl => exact ht
  | head hstep _ ih => exact passes_of_next hstep ih

end PanelLint.Promql
