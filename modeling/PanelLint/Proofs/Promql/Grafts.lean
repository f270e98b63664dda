import PanelLint.Proofs.Promql.Labels
/-!
# Tokens in the place of runs of tokens

A query holds a run of tokens where another query has a single one.  The token may be a name for an
operand, or for operands with operators between them, also with the words that stand behind an operator,
or for what is no operand if nothing but parentheses stands around it; a number for a scalar; a plain
length of time or a plain time for one with a sign; or one label for several.

* `AcceptingRun.opens_nothing`: what cannot follow an operand in a query that is accepted;
* `IsOperandAt`, `IsMatchedAt`, `IsOuterAt`, `IsScalarAt`, `IsModifierAt`: how the machine reads runs;
* `StandsFor`: the tokens that may stand for a run, and `accepted_of_standsFor`: if the query with the
  run is accepted, so is the one with the token;
* `Grafted`, `accepted_of_grafted`: the same for any number of runs.
-/

namespace PanelLint.Promql

open Phrase

variable {F G L K : List Frame} {X Y e : Phrase} {ts r : List Token} {s t : Reading} {mode : Mode}
  {whole run back back' : List Token} {u : Token}

/-! ## 1. Behind an operand -/

/-- Whether tokens begin as a modifier of what stands before them. -/
def opensModifier (next : List Token) : Bool :=
  next.head?.any fun t => t == .leftBracket || t == .atSign || t.isOffset

theorem nextPrimary_of_opensModifier (h : opensModifier ts = false) :
    Reading.nextPrimary K e ts = some ⟨K, .after e, ts⟩ := by
  rw [Reading.nextPrimary]
  · rintro us rfl
    cases h
  · rintro text us rfl
    cases h
  · rintro us rfl
    cases h

/-- The tokens that begin arguments, a grouping or braces. -/
theorem exists_of_opens (h : opensBody ts = true ∨ opensBraces ts = true) : ∃ u us, ts = u :: us ∧
    (u = .leftParen ∨ u = .leftBrace ∨ ∃ keeps text, u = .keyword (.grouping keeps) text) := by
  cases ts with
  | nil => rcases h with h | h <;> cases h
  | cons u us =>
    refine ⟨u, us, rfl, ?_⟩
    rcases h with h | h
    · have hbody : u.opensBody = true := by simpa [opensBody] using h
      unfold Token.opensBody at hbody
      split at hbody
      · exact Or.inl rfl
      · exact Or.inr (Or.inr ⟨_, _, rfl⟩)
      · cases hbody
    · exact Or.inr (Or.inl (by simpa [opensBraces] using h))

/-- Behind an operand the machine takes none of them. -/
theorem next_of_opens (hopens : opensBody ts = true ∨ opensBraces ts = true) (hmode : mode ≠ .operand)
    (hnext : Reading.next ⟨K, mode, ts⟩ = some t) : t.mode ≠ .operand ∧ t.rest = ts := by
  obtain ⟨u, us, rfl, hu⟩ := exists_of_opens hopens
  cases mode with
  | operand => exact absurd rfl hmode
  | primary e =>
    have hmodifier : opensModifier (u :: us) = false := by
      obtain rfl | rfl | ⟨_, _, rfl⟩ := hu <;> rfl
    rw [next_primary, nextPrimary_of_opensModifier hmodifier] at hnext
    cases hnext
    exact ⟨by simp, rfl⟩
  | after e =>
    have hstops : shift? (pendingLevel K) (u :: us) = none := by
      obtain rfl | rfl | ⟨_, _, rfl⟩ := hu <;> rfl
    have hcloses : u ≠ .rightParen ∧ u ≠ .comma := by
      obtain rfl | rfl | ⟨_, _, rfl⟩ := hu <;> exact ⟨by simp, by simp⟩
    rw [next_after_of_stop hstops] at hnext
    cases K with
    | nil => cases hnext
    | cons f K =>
      cases f with
      | paren =>
        obtain ⟨_, heq, -⟩ := close_paren hnext
        exact absurd (List.cons.inj heq).1 hcloses.1
      | argument c before extra =>
        obtain ⟨_, heq, -⟩ | ⟨_, heq, -⟩ | ⟨_, heq, -⟩ | ⟨_, heq, -⟩ := close_argument hnext
        · exact absurd (List.cons.inj heq).1 hcloses.1
        all_goals exact absurd (List.cons.inj heq).1 hcloses.2
      | _ =>
        rw [close_chain rfl] at hnext
        cases hnext
        exact ⟨by simp, rfl⟩

/-- **Behind an operand of a query that is accepted** neither arguments nor a grouping nor braces
follow. -/
theorem AcceptingRun.opens_nothing {E : Phrase} {R : List Token} (h : AcceptingRun whole E R)
    (hs : Reaches (Reading.start whole) ⟨K, mode, ts⟩) (hmode : mode ≠ .operand) :
    opensBody ts = false ∧ opensBraces ts = false := by
  by_contra hnot
  have hopens : opensBody ts = true ∨ opensBraces ts = true := by
    rw [not_and_or, Bool.not_eq_false, Bool.not_eq_false] at hnot
    exact hnot
  have hstays : ∀ {t}, Reaches ⟨K, mode, ts⟩ t → t.mode ≠ .operand ∧ t.rest = ts := fun ht => by
    induction ht with
    | refl => exact ⟨hmode, rfl⟩
    | @tail s t _ hstep ih =>
      obtain ⟨K', mode', r⟩ := s
      obtain ⟨hmode', rfl⟩ := ih
      exact next_of_opens hopens hmode' hstep
  obtain ⟨u, us, rfl, hu⟩ := exists_of_opens hopens
  obtain rfl : R = u :: us := (hstays (h.ends hs)).2
  rcases h.rest with heq | heq
  · cases heq
  · obtain rfl := (List.cons.inj heq).1
    obtain hu | hu | ⟨_, _, hu⟩ := hu <;> cases hu

/-- A run leaves no more tokens than there were. -/
theorem length_le_of_reaches (h : Reaches s t) : t.rest.length ≤ s.rest.length := by
  obtain ⟨w, hw, -⟩ := reaches_front h
  rw [hw, List.length_append]
  omega

/-- Where an operand is due, the machine goes on only with a token. -/
theorem eq_of_reaches_operand (h : Reaches s t) (hs : s.mode = .operand)
    (hle : s.rest.length ≤ t.rest.length) : s = t := by
  rcases Relation.ReflTransGen.cases_head h with heq | ⟨s₁, hstep, hrest⟩
  · exact heq
  · obtain ⟨K, mode, ts⟩ := s
    obtain rfl : mode = .operand := hs
    obtain ⟨-, w, hw, hne, -⟩ := nextOperand_front hstep
    have hlength := length_le_of_reaches hrest
    have hpos := List.length_pos_of_ne_nil hne
    have hts := congrArg List.length hw
    rw [List.length_append] at hts
    omega

/-- Two states with the same tokens left are one if an operand is due in both. -/
theorem eq_of_reaches_both {s₀ : Reading} (hs : Reaches s₀ s) (ht : Reaches s₀ t)
    (hmode : s.mode = .operand) (hmode' : t.mode = .operand) (hrest : s.rest = t.rest) : s = t := by
  rcases reaches_total hs ht with h | h
  · exact eq_of_reaches_operand h hmode (Nat.le_of_eq (congrArg List.length hrest))
  · exact (eq_of_reaches_operand h hmode' (Nat.le_of_eq (congrArg List.length hrest.symm))).symm

/-! ## 2. Operands -/

/-- **How a run of tokens is read** where an operand is due: it begins above operators and signs
(`outer`) and other frames (`base`), and ends at an operand above operators and signs (`inner`), without
a look at the other frames. -/
structure OperandRun (whole run back : List Token) (outer base inner : List Frame) (e : Phrase) :
    Prop where
  reached : Reaches (Reading.start whole) ⟨outer ++ base, .operand, run ++ back⟩
  read : Reaches ⟨outer, .operand, run ++ back⟩ ⟨inner, .primary e, back⟩
  base : pendingLevel base = 0
  outer : ∀ f ∈ outer, f.isChain = true
  inner : ∀ f ∈ inner, f.isChain = true

theorem OperandRun.behind {outer base inner : List Frame}
    (h : OperandRun whole run back outer base inner e) :
    Reaches (Reading.start whole) ⟨inner ++ base, .primary e, back⟩ :=
  h.reached.trans (h.read.lift h.base)

/-- **A run of tokens that a name may stand for**: an operand, or several with operators between them,
where no scalar is due. -/
def IsOperandAt (whole run back : List Token) : Prop :=
  ∃ outer base inner e, OperandRun whole run back outer base inner e ∧
    scalarPending (outer ++ base) = false ∧ e.PassesAsOperand

/-- A number of steps, computed. -/
def Reading.steps : Nat → Reading → Option Reading
  | 0, s => some s
  | n + 1, s => s.next.bind (Reading.steps n)

theorem reaches_of_steps {n : Nat} (h : s.steps n = some t) : Reaches s t := by
  induction n generalizing s with
  | zero =>
    cases h
    exact Relation.ReflTransGen.refl
  | succ n ih =>
    obtain ⟨s₁, hs₁, hsteps⟩ := Option.bind_eq_some_iff.mp h
    exact (Reaches.step hs₁).trans (ih hsteps)

/-- Below the operators and signs on top there is a frame that any operator may stand in. -/
theorem pendingLevel_dropWhile (S : List Frame) : pendingLevel (S.dropWhile Frame.isChain) = 0 := by
  induction S with
  | nil => rfl
  | cons f S ih =>
    rw [List.dropWhile_cons]
    split
    · exact ih
    · next hf => cases f <;> first | rfl | exact absurd rfl hf

/-- Whether some tokens are an operand that a name may stand for, computed: it begins after `n` steps and
is read in `m` more. -/
def operandAt (n m : Nat) (whole run back : List Token) : Bool :=
  match (Reading.start whole).steps n with
  | some ⟨S, .operand, r⟩ =>
    match Reading.steps m ⟨S.takeWhile Frame.isChain, .operand, run ++ back⟩ with
    | some ⟨inner, .primary e, r'⟩ =>
      r == run ++ back && r' == back && inner.all Frame.isChain && !scalarPending S &&
        e.check.toOption.any (·.type.isOperand)
    | _ => false
  | _ => false

theorem isOperandAt_of_operandAt {n m : Nat}
    (h : operandAt n m whole run back = true) : IsOperandAt whole run back := by
  unfold operandAt at h
  split at h
  · next S r hbegins =>
    split at h
    · next inner e r' hread =>
      simp only [Bool.and_eq_true, beq_iff_eq, Bool.not_eq_true', List.all_eq_true,
        Option.any_eq_true] at h
      obtain ⟨⟨⟨⟨rfl, rfl⟩, hinner⟩, hscalar⟩, a, ha, hoperand⟩ := h
      have hsplit : S.takeWhile Frame.isChain ++ S.dropWhile Frame.isChain = S :=
        List.takeWhile_append_dropWhile
      refine ⟨S.takeWhile Frame.isChain, S.dropWhile Frame.isChain, inner, e, ⟨?_, ?_, ?_, ?_, hinner⟩,
        by rwa [hsplit], a, ?_, hoperand⟩
      · rw [hsplit]
        exact reaches_of_steps hbegins
      · exact reaches_of_steps hread
      · exact pendingLevel_dropWhile S
      · exact fun f hf => List.mem_takeWhile_imp hf
      · cases hcheck : e.check with
        | error err => rw [hcheck] at ha; cases ha
        | ok b => rw [hcheck] at ha; cases ha; rfl
    · cases h
  · cases h

/-- What a run of tokens does to the operators and signs that it begins above: it closes some (`L`), and
then there is another operator in their place. -/
structure Rebuilt (outer : List Frame) (s : Reading) (G L K : List Frame) : Prop where
  outer : outer = L ++ K
  frames : s.frames = G ++ K
  closed : ∀ f ∈ L, f.TakesVector
  replaced : L = [] ∨ (∃ G' op m l, G = G' ++ [.operator op m l]) ∨ G = [] ∧ ∃ e, s.mode = .after e

/-- The first of the operators that are left is closed. -/
theorem exists_rebuilt_closed (hK : ∀ f ∈ K, f.isChain = true) (hL : ∀ f ∈ L, f.TakesVector)
    (hclose : Reading.close K e r = some t) (hpasses : ∀ d, t.mode = .after d → d.Passes) :
    ∃ G L' K', Rebuilt (L ++ K) t G L' K' := by
  cases K with
  | nil => cases hclose
  | cons f K =>
    have hf := hK f List.mem_cons_self
    rw [close_chain hf] at hclose
    cases hclose
    refine ⟨[], L ++ [f], K, by simp, rfl, ?_, Or.inr (Or.inr ⟨rfl, _, rfl⟩)⟩
    intro g hg
    rcases List.mem_append.mp hg with hg | hg
    · exact hL g hg
    · obtain rfl := List.mem_singleton.mp hg
      exact takesVector_of_fill hf (hpasses _ rfl)

theorem exists_rebuilt_next {outer : List Frame} (houter : ∀ f ∈ outer, f.isChain = true)
    (h : Rebuilt outer s G L K) (hnext : s.next = some t)
    (hpasses : ∀ e, t.mode = .after e → e.Passes) : ∃ G L K, Rebuilt outer t G L K := by
  obtain ⟨S, mode, r⟩ := s
  obtain ⟨rfl, rfl, hclosed, hreplaced⟩ := h
  have hK : ∀ f ∈ K, f.isChain = true := fun f hf => houter f (List.mem_append_right L hf)
  rcases hreplaced with rfl | ⟨G', op, m, l, rfl⟩ | ⟨rfl, e, rfl⟩
  · obtain ⟨G', mode', r', rfl, -⟩ | ⟨-, e, -, -, hclose⟩ := next_above hnext
    · exact ⟨G', [], K, rfl, rfl, by simp, Or.inl rfl⟩
    · exact exists_rebuilt_closed hK hclosed hclose hpasses
  · rw [List.append_assoc] at hnext
    obtain ⟨G'', mode', r', rfl, -⟩ | ⟨-, e, -, -, hclose⟩ := next_above hnext
    · exact ⟨G'' ++ [.operator op m l], L, K, rfl, by simp, hclosed,
        Or.inr (Or.inl ⟨G'', op, m, l, rfl⟩)⟩
    · cases hclose
      exact ⟨[], L, K, rfl, rfl, hclosed, Or.inr (Or.inr ⟨rfl, _, rfl⟩)⟩
  · cases hs : shift? (pendingLevel ([] ++ K)) r with
    | some op =>
      rw [next_after_of_shift hs] at hnext
      obtain ⟨⟨m, r'⟩, -, rfl⟩ := toOption_map_eq_some_iff.mp hnext
      exact ⟨[.operator op m e], L, K, rfl, rfl, hclosed, Or.inr (Or.inl ⟨[], op, m, e, rfl⟩)⟩
    | none =>
      rw [next_after_of_stop hs] at hnext
      exact exists_rebuilt_closed hK hclosed hnext hpasses

/-- **What a run does to the operators and signs that it begins above.** -/
theorem exists_rebuilt {outer : List Frame} (houter : ∀ f ∈ outer, f.isChain = true)
    (h : Reaches ⟨outer, mode, ts⟩ t)
    (hpasses : ∀ s, Reaches ⟨outer, mode, ts⟩ s → ∀ e, s.mode = .after e → e.Passes) :
    ∃ G L K, Rebuilt outer t G L K := by
  induction h with
  | refl => exact ⟨[], [], outer, rfl, rfl, by simp, Or.inl rfl⟩
  | tail hreaches hstep ih =>
    obtain ⟨G, L, K, hrebuilt⟩ := ih
    exact exists_rebuilt_next houter hrebuilt hstep (hpasses _ (hreaches.tail hstep))

/-- What a run in a query that is accepted does to the operators that it begins above. -/
theorem OperandRun.rebuilt {E : Phrase} {R : List Token} {outer base inner : List Frame}
    (h : OperandRun whole run back outer base inner e) (haccept : AcceptingRun whole E R) :
    ∃ G L K, Rebuilt outer ⟨inner, .primary e, back⟩ G L K :=
  exists_rebuilt h.outer h.read fun _ hs d hd =>
    (haccept.passes_of (h.reached.trans (hs.lift h.base))).after d hd

/-- The tokens that are selectors by themselves: names, with a colon or without. -/
inductive Token.IsSelector : Token → Prop
  | name {t : Token} : t.IsName → IsSelector t
  | metric (name : String) : IsSelector (.metric name)

theorem Token.IsSelector.isFixed (h : u.IsSelector) : u.isFixed = false := by
  cases h with
  | name h => exact isFixed_of_isName h
  | metric _ => rfl

/-- A name is a selector where neither arguments nor a grouping nor braces follow. -/
theorem nextOperand_name {u : Token} (hu : u.IsSelector) (hbody : opensBody ts = false)
    (hbraces : opensBraces ts = false) :
    ∃ name, ∀ K, Reading.nextOperand K (u :: ts) = some ⟨K, .primary (.vector (some name) none), ts⟩ := by
  obtain ⟨name, hread⟩ : ∃ name, readPrimary 1 (u :: ts) = readSelector (some name) ts := by
    cases hu with
    | name hu => exact readPrimary_name 0 hu hbody
    | metric name => exact ⟨name, rfl⟩
  refine ⟨name, fun K => nextOperand_atom ?_⟩
  rw [hread, readSelector]
  rintro us rfl
  exact absurd hbraces (by simp [opensBraces])

/-- A selector with nothing but a name stands in for any operand, unless a scalar is due. -/
theorem standsIn_name {loose : Prop} {literal : Bool} (hloose : loose) (hX : X.PassesAsOperand)
    (name : String) : StandsIn loose literal X (.vector (some name) none) := by
  have hv : (Phrase.vector (some name) none).check = .ok (.vector ⟨some name, []⟩ none none) := rfl
  intro a ha
  have hstands : OperandStandsIn loose literal X (.vector (some name) none) :=
    operandStandsIn_of_isVector hloose (fun _ => hX) ⟨_, hv, rfl⟩
  obtain ⟨b, hb, hlike⟩ := hstands a ha
  refine ⟨b, hb, hlike, fun h hh => ?_⟩
  obtain rfl := Except.ok.inj (hv.symm.trans hb)
  refine ⟨_, rfl, ?_, fun _ => rfl, fun _ => rfl⟩
  -- an operand that modifiers may follow is a vector itself
  obtain ⟨a', ha', hoperand⟩ := hX
  obtain rfl := Except.ok.inj (ha.symm.trans ha')
  rw [type_of_handle hh] at hoperand
  obtain ⟨holder, offset, time⟩ := h
  cases holder with
  | vector => rfl
  | _ => exact absurd hoperand (by simp [ValueType.isOperand])

/-- Operators and signs above the same frames in two stacks. -/
theorem seam_of_rising (hF : Rising (F ++ K)) (hL : Rising (L ++ K)) (hchain : ∀ f ∈ F, f.isChain = true)
    (hchain' : ∀ f ∈ L, f.isChain = true) : Seam K F L where
  chain f hf := (List.mem_append.mp hf).elim (hchain f) (hchain' f)
  level f hf := (List.mem_append.mp hf).elim (hF.level_le hchain f) (hL.level_le hchain' f)

/-- A name faces an operand where the operators around that have been taken apart. -/
theorem sim_apart {name : String} (hF : Rising (F ++ K)) (hL : Rising (L ++ K))
    (hchain : ∀ f ∈ F, f.isChain = true) (htakes : ∀ f ∈ L, f.isChain = true ∧ f.TakesVector)
    (hscalar : scalarPending K = false) (hsome : ∃ f ∈ F, f ≠ .sign false) (he : e.PassesAsOperand) :
    Sim ⟨F ++ K, .primary e, r⟩ ⟨L ++ K, .primary (.vector (some name) none), r⟩ := by
  refine Sim.primary (seam_of_rising hF hL hchain fun f hf => (htakes f hf).1)
    (.apart hscalar (fun f hf => (htakes f hf).2) hsome (standsIn_name trivial he name) fun b hb => ?_)
  cases hb
  simp [Expr.type]

/-- What has become of the operators that a run begins above is more than signs, if some are closed. -/
theorem Rebuilt.exists_operator {outer : List Frame} (h : Rebuilt outer ⟨G ++ K, .primary e, r⟩ G L K)
    (hL : L ≠ []) : ∃ f ∈ G, f ≠ .sign false := by
  obtain h | ⟨G', op, m, l, rfl⟩ | ⟨-, d, hd⟩ := h.replaced
  · exact absurd h hL
  · exact ⟨.operator op m l, by simp, by simp⟩
  · cases hd

/-- A name in the place of a run of tokens is read to where the run ends. -/
theorem exists_crossing_operand {E : Phrase} {R : List Token} (hrun : IsOperandAt whole run back)
    (haccept : AcceptingRun whole E R) (hu : u.IsSelector) :
    ∃ S s t, Crossing whole run back u S .operand [] s t := by
  obtain ⟨outer, base, inner, e, hread, hscalar, he⟩ := hrun
  obtain ⟨hbody, hbraces⟩ := haccept.opens_nothing hread.behind (by simp)
  obtain ⟨name, hname⟩ := nextOperand_name hu hbody hbraces
  refine ⟨_, _, _, hread.reached, fun _ => ⟨rfl, hu.isFixed⟩, hread.read.lift hread.base,
    Reaches.step (hname _), ?_⟩
  obtain ⟨G, L, K, hrebuilt⟩ := hread.rebuilt haccept
  obtain rfl : inner = G ++ K := hrebuilt.frames
  obtain rfl : outer = L ++ K := hrebuilt.outer
  have hG : ∀ f ∈ G, f.isChain = true := fun f hf => hread.inner f (List.mem_append_left K hf)
  have hL : ∀ f ∈ L, f.isChain = true := fun f hf => hread.outer f (List.mem_append_left K hf)
  have hbegins : Rising (L ++ K ++ base) := rising_of_reaches hread.reached trivial
  have hends : Rising (G ++ K ++ base) := rising_of_reaches hread.behind trivial
  dsimp only
  rw [List.append_assoc] at hscalar hbegins hends ⊢
  rw [List.append_assoc]
  rw [scalarPending_append hL] at hscalar
  by_cases hplain : L = [] ∧ ∀ f ∈ G, f = .sign false
  · exact Sim.primary (seam_of_rising hends hbegins hG hL)
      (.alone hplain.2 hplain.1 (standsIn_name hscalar he name))
  · have hsome : ∃ f ∈ G, f ≠ .sign false := by
      by_cases hnil : L = []
      · simpa [hnil] using hplain
      · exact hrebuilt.exists_operator hnil
    exact sim_apart hends hbegins hG (fun f hf => ⟨hL f hf, hrebuilt.closed f hf⟩) hscalar hsome he

/-! ## 3. Operands behind the words of an operator -/

/-- What an operator and its labels do not refuse is not refused with a vector to the right and no
labels. -/
theorem exists_checkBinary_plain {op : Operator} {m : Modifier} {l r r' a : Expr}
    (h : checkBinary op m l r = .ok a) (hr : r'.type = .vector) :
    ∃ b, checkBinary op {} l r' = .ok b := by
  have hl := (isOperand_of_checkBinary h).1
  unfold checkBinary at h
  obtain ⟨_, -, h⟩ := exists_of_bind_eq_ok h
  obtain ⟨_, -, h⟩ := exists_of_bind_eq_ok h
  split at h
  · cases h
  · obtain ⟨_, hset, -⟩ := exists_of_bind_eq_ok h
    have hset : ¬ (op.isSet = true ∧ l.type = .scalar) := fun ⟨ho, ht⟩ => by
      have := refuseIf_eq_ok hset
      simp [ho, ht] at this
    have htype : ¬ (¬ l.type = .scalar ∧ ¬ l.type = .vector) := by
      simpa [ValueType.isOperand, or_iff_not_imp_left] using hl
    -- without labels, and with a vector to the right, nothing else can be refused
    refine ⟨.binary op (if op.isSet then ({} : Modifier).ofSet else {}) l r', ?_⟩
    simp only [checkBinary, refuseIf, sharedLabel?, Modifier.groups, Modifier.namesLabels, hr]
    simp [hset, htype, ValueType.isOperand]
    rfl

/-- **An operator suits any vector** also without the words behind it, if some operand suits it with
them. -/
theorem takesVector_of_binary {op : Operator} {m : ModifierPhrase} {l r : Phrase}
    (h : (Phrase.binary op m l r).Passes) : (Frame.operator op (.plain false) l).TakesVector := by
  intro Y hY
  obtain ⟨y, hy, hvector⟩ := id hY
  obtain ⟨a, ha⟩ := h
  obtain ⟨b, n, c, hb, -, -, hcheck⟩ := check_binary ha
  obtain ⟨d, hd⟩ := exists_checkBinary_plain hcheck hvector
  refine isVector_of_binary ⟨d, ?_⟩ (Or.inr hY)
  rw [Phrase.check, hb, hy]
  exact hd

/-- On the way to the end of a query every operator is given its right operand. -/
theorem exists_fill_of_reaches {E : Phrase} {R : List Token} {f : Frame} (hf : f.isChain = true)
    (h : Reaches ⟨G ++ f :: K, mode, ts⟩ ⟨[], .after E, R⟩) :
    ∃ e r, Reaches ⟨G ++ f :: K, mode, ts⟩ ⟨K, .after (f.fill e), r⟩ := by
  generalize hs : (⟨G ++ f :: K, mode, ts⟩ : Reading) = s at h
  induction h using Relation.ReflTransGen.head_induction_on generalizing G mode ts with
  | refl => exact absurd (congrArg Reading.frames hs) (by simp)
  | head hstep _ ih =>
    subst hs
    obtain ⟨G', mode', r', rfl, -⟩ | ⟨rfl, e, rfl, -, hclose⟩ := next_above hstep
    · obtain ⟨e, r, hreaches⟩ := ih rfl
      exact ⟨e, r, (Reaches.step hstep).trans hreaches⟩
    · rw [close_chain hf] at hclose
      cases hclose
      exact ⟨e, _, Reaches.step hstep⟩

/-- So an operator in a query that is accepted suits any vector without the words behind it. -/
theorem AcceptingRun.takesVector_plain {E : Phrase} {R : List Token} {op : Operator} {m : ModifierPhrase}
    (h : AcceptingRun whole E R)
    (hs : Reaches (Reading.start whole) ⟨.operator op m X :: K, mode, ts⟩) :
    (Frame.operator op (.plain false) X).TakesVector := by
  obtain ⟨d, r, hfilled⟩ := exists_fill_of_reaches (G := []) (f := .operator op m X) rfl (h.ends hs)
  exact takesVector_of_binary ((h.passes_of (hs.trans hfilled)).after _ rfl)

/-- The operator that an operand stands behind is the innermost of those that it begins above. -/
theorem OperandRun.exists_ops {outer base inner : List Frame} {op : Operator} {m : ModifierPhrase}
    (h : OperandRun whole run back outer base inner e)
    (hs : Reaches (Reading.start whole) ⟨.operator op m X :: K, .operand, run ++ back⟩) :
    ∃ ops, outer = .operator op m X :: ops ∧ K = ops ++ base := by
  have hframes : outer ++ base = .operator op m X :: K :=
    congrArg Reading.frames (eq_of_reaches_both h.reached hs rfl rfl rfl)
  cases outer with
  | nil =>
    have hbase := h.base
    rw [show base = .operator op m X :: K from hframes] at hbase
    exact absurd hbase (by simp [pendingLevel, Frame.level]; cases op <;> decide)
  | cons f ops =>
    obtain ⟨rfl, rfl⟩ := List.cons.inj hframes
    exact ⟨ops, rfl, rfl⟩

/-- **A run of tokens behind an operator that a name may stand for**: the words between the operator and
its right operand, and that operand, or several, where no scalar is due. -/
def IsMatchedAt (whole run back : List Token) : Prop :=
  ∃ K X v op m words operand, run = words ++ operand ∧ words ≠ [] ∧
    Reaches (Reading.start whole) ⟨K, .after X, v :: (run ++ back)⟩ ∧
    shift? (pendingLevel K) [v] = some op ∧
    Reading.next ⟨K, .after X, v :: (run ++ back)⟩ =
      some ⟨.operator op m X :: K, .operand, operand ++ back⟩ ∧ IsOperandAt whole operand back

/-- An operator with nothing but an operand behind it. -/
theorem next_after_selector {v : Token} {op : Operator} (hshift : shift? (pendingLevel K) [v] = some op)
    (hu : u.IsSelector) : Reading.next ⟨K, .after X, v :: u :: ts⟩ =
      some ⟨.operator op (.plain false) X :: K, .operand, u :: ts⟩ := by
  have hshift' : shift? (pendingLevel K) (v :: u :: ts) = some op := hshift
  rw [next_after_of_shift hshift', List.tail_cons]
  cases hu with
  | name hu => cases hu <;> rfl
  | metric name => rfl

/-- A name in the place of such a run is read to where the run ends, behind the operator alone. -/
theorem exists_crossing_matched {E : Phrase} {R : List Token} (h : IsMatchedAt whole run back)
    (haccept : AcceptingRun whole E R) (hu : u.IsSelector) :
    ∃ K X v s t, Crossing whole run back u K (.after X) [v] s t := by
  obtain ⟨K, X, v, op, m, words, operand, rfl, -, hreached, hshift, hnext, hrun⟩ := h
  obtain ⟨outer, base, inner, e, hread, hscalar, he⟩ := hrun
  obtain ⟨hbody, hbraces⟩ := haccept.opens_nothing hread.behind (by simp)
  obtain ⟨name, hname⟩ := nextOperand_name hu hbody hbraces
  have hplain := haccept.takesVector_plain (hreached.trans (Reaches.step hnext))
  obtain ⟨ops, rfl, rfl⟩ := hread.exists_ops (hreached.trans (Reaches.step hnext))
  have hother := (Reaches.step (next_after_selector (X := X) hshift hu)).trans (Reaches.step (hname _))
  refine ⟨_, X, v, _, _, hreached, by simp, (Reaches.step hnext).trans (hread.read.lift hread.base),
    hother, ?_⟩
  obtain ⟨G, L, K, hrebuilt⟩ := hread.rebuilt haccept
  obtain rfl : inner = G ++ K := hrebuilt.frames
  have hG : ∀ f ∈ G, f.isChain = true := fun f hf => hread.inner f (List.mem_append_left K hf)
  have hops : ∀ f ∈ ops, f.isChain = true := fun f hf => hread.outer f (List.mem_cons_of_mem _ hf)
  have hbegins : Rising (.operator op (.plain false) X :: (ops ++ base)) :=
    rising_of_reaches hread.reached trivial
  have hends : Rising (G ++ K ++ base) := rising_of_reaches hread.behind trivial
  have hbase : scalarPending (ops ++ base) = false := hscalar
  dsimp only
  cases L with
  | nil =>
    -- the operator is still open behind the run, with its words
    obtain rfl : .operator op m X :: ops = K := hrebuilt.outer
    have hsplit : G ++ .operator op m X :: ops ++ base = (G ++ [.operator op m X]) ++ (ops ++ base) := by
      simp
    rw [hsplit] at hends ⊢
    refine sim_apart (L := [.operator op (.plain false) X]) hends hbegins (fun f hf => ?_) ?_ hbase
      ⟨.operator op m X, by simp, by simp⟩ he
    · rcases List.mem_append.mp hf with hf | hf
      · exact hG f hf
      · obtain rfl := List.mem_singleton.mp hf
        rfl
    · intro f hf
      obtain rfl := List.mem_singleton.mp hf
      exact ⟨rfl, hplain⟩
  | cons f L =>
    obtain ⟨rfl, rfl⟩ : .operator op m X = f ∧ ops = L ++ K := List.cons.inj hrebuilt.outer
    have hL : ∀ f ∈ L, f.isChain = true := fun f hf => hops f (List.mem_append_left K hf)
    rw [List.append_assoc] at hends hbegins hbase ⊢
    rw [scalarPending_append hL] at hbase
    rw [List.append_assoc]
    refine sim_apart (L := .operator op (.plain false) X :: L) hends hbegins hG (fun f hf => ?_) hbase
      (hrebuilt.exists_operator (by simp)) he
    rcases List.mem_cons.mp hf with rfl | hf
    · exact ⟨rfl, hplain⟩
    · exact ⟨hL f hf, hrebuilt.closed f (List.mem_cons_of_mem _ hf)⟩

/-! ## 4. What is no operand -/

/-- **A run of tokens that a name may stand for although it is no operand**: a range vector or a string
with nothing but parentheses around it. -/
def IsOuterAt (whole run back : List Token) : Prop :=
  ∃ K X a, Reaches (Reading.start whole) ⟨K, .operand, run ++ back⟩ ∧
    Reaches ⟨K, .operand, run ++ back⟩ ⟨K, .primary X, back⟩ ∧ (∀ f ∈ K, f = .paren) ∧
      X.check = .ok a ∧ a.type.isOperand = false

/-- A name is read in its place. -/
theorem exists_crossing_outer {E : Phrase} {R : List Token} (hrun : IsOuterAt whole run back)
    (haccept : AcceptingRun whole E R) (hu : u.IsSelector) :
    ∃ S s t, Crossing whole run back u S .operand [] s t := by
  obtain ⟨K, X, a, hreached, hread, hK, ha, htype⟩ := hrun
  obtain ⟨hbody, hbraces⟩ := haccept.opens_nothing (hreached.trans hread) (by simp)
  obtain ⟨name, hname⟩ := nextOperand_name hu hbody hbraces
  refine ⟨K, _, _, hreached, fun _ => ⟨rfl, hu.isFixed⟩, hread, Reaches.step (hname K),
    Sim.outer hK (Or.inl rfl) ?_⟩
  intro b hb
  obtain rfl := Except.ok.inj (ha.symm.trans hb)
  exact ⟨_, rfl, htype, fun _ _ => ⟨_, rfl, fun _ => rfl, fun _ => rfl⟩⟩

/-! ## 5. Scalars -/

/-- **A run of tokens that a number may stand for**: it is read as a scalar behind which no modifier
comes, and no function with a domain waits for it. -/
def IsScalarAt (whole run back : List Token) : Prop :=
  ∃ S X a, Reaches (Reading.start whole) ⟨S, .operand, run ++ back⟩ ∧
    Reaches ⟨S, .operand, run ++ back⟩ ⟨S, .after X, back⟩ ∧ X.check = .ok a ∧ a.type = .scalar ∧
      domainPending S = false ∧ opensModifier back = false

/-- One in the place of a scalar is read to where that ends. -/
theorem exists_crossing_scalar (h : IsScalarAt whole run back) :
    ∃ S s t, Crossing whole run back (.number "1") S .operand [] s t := by
  obtain ⟨S, X, a, hreached, hread, ha, htype, hdomain, hback⟩ := h
  refine ⟨S, _, ⟨S, .after (.number (.seconds "1")), back⟩, hreached, fun _ => ⟨rfl, rfl⟩, hread, ?_,
    Sim.after (F := []) (L := []) (seam_nil S) (.alone (by simp) rfl ?_)⟩
  · have hone : Reading.next ⟨S, .operand, .number "1" :: back⟩ =
        some ⟨S, .primary (.number (.seconds "1")), back⟩ := rfl
    exact (Reaches.step hone).trans (Reaches.step (nextPrimary_of_opensModifier hback))
  · intro b hb
    obtain rfl := Except.ok.inj (ha.symm.trans hb)
    obtain ⟨x, hx, -⟩ := isSound_one.value
    refine ⟨.number x, by rw [Phrase.check, hx]; rfl, Or.inl htype.symm, ?_⟩
    simp [hdomain]

/-! ## 6. Lengths of time and times -/

/-- **A run of tokens that is read as what a modifier says**, behind its first token `kw`. -/
def IsModifierAt (kw : Token) (whole run back : List Token) : Prop :=
  run ≠ [] ∧ ∃ K X Y, Reaches (Reading.start whole) ⟨K, .primary X, kw :: (run ++ back)⟩ ∧
    Reading.next ⟨K, .primary X, kw :: (run ++ back)⟩ = some ⟨K, .primary Y, back⟩

theorem readOffset_cases (h : readOffset X ts = .ok (Y, r)) :
    Y = .noOffset X ∨ ∃ negative span, Y = .offset X negative span := by
  rw [readOffset.eq_def] at h
  split at h
  · cases h
    exact Or.inl rfl
  · obtain ⟨_, -, heq⟩ := exists_of_map_eq_ok h
    cases heq
    exact Or.inr ⟨_, _, rfl⟩
  · obtain ⟨_, -, heq⟩ := exists_of_map_eq_ok h
    cases heq
    exact Or.inr ⟨_, _, rfl⟩
  · obtain ⟨_, -, heq⟩ := exists_of_map_eq_ok h
    cases heq
    exact Or.inr ⟨_, _, rfl⟩

theorem readTime_cases (h : readTime X ts = .ok (Y, r)) :
    Y = .noTime X ∨ ∃ time, Y = .atTime X time := by
  rw [readTime.eq_def] at h
  split at h
  · cases h
    exact Or.inl rfl
  · obtain ⟨_, -, heq⟩ := exists_of_map_eq_ok h
    cases heq
    exact Or.inr ⟨_, rfl⟩
  · obtain ⟨_, -, heq⟩ := exists_of_map_eq_ok h
    cases heq
    exact Or.inr ⟨_, rfl⟩
  · cases h
    exact Or.inr ⟨_, rfl⟩
  · obtain ⟨_, -, heq⟩ := exists_of_map_eq_ok h
    cases heq
    exact Or.inr ⟨_, rfl⟩

/-- Five minutes are read in the place of any shift. -/
theorem exists_crossing_offset {text : String} {E : Phrase} {R : List Token}
    (h : IsModifierAt (.keyword .offset text) whole run back) (haccept : AcceptingRun whole E R) :
    ∃ K mode w s t, Crossing whole run back (.duration "5m") K mode w s t := by
  obtain ⟨-, K, X, Y, hreached, hnext⟩ := h
  have hY := (haccept.passes_of (hreached.trans (Reaches.step hnext))).primary Y rfl
  have hread := hnext
  rw [next_primary, Reading.nextPrimary] at hread
  obtain ⟨⟨Z, r⟩, hread, heq⟩ := toOption_map_eq_some_iff.mp hread
  cases heq
  have hother : Reading.next ⟨K, .primary X, .keyword .offset text :: .duration "5m" :: back⟩ =
      some ⟨K, .primary (.offset X false (.units "5m")), back⟩ := rfl
  refine ⟨K, _, [.keyword .offset text], _, _, hreached, by simp, Reaches.step hnext,
    Reaches.step hother, Sim.primary (F := []) (L := []) (seam_nil K) (.alone (by simp) rfl ?_)⟩
  rcases readOffset_cases hread with rfl | ⟨negative, span, rfl⟩
  · obtain ⟨_, ha⟩ := hY
    rw [Phrase.check] at ha
    cases ha
  · exact (standsIn_refl X).offset negative false (Or.inr isSound_five_minutes)

/-- One is read in the place of any time. -/
theorem exists_crossing_time {E : Phrase} {R : List Token} (h : IsModifierAt .atSign whole run back)
    (haccept : AcceptingRun whole E R) :
    ∃ K mode w s t, Crossing whole run back (.number "1") K mode w s t := by
  obtain ⟨-, K, X, Y, hreached, hnext⟩ := h
  have hY := (haccept.passes_of (hreached.trans (Reaches.step hnext))).primary Y rfl
  have hread := hnext
  rw [next_primary, Reading.nextPrimary] at hread
  obtain ⟨⟨Z, r⟩, hread, heq⟩ := toOption_map_eq_some_iff.mp hread
  cases heq
  have hother : Reading.next ⟨K, .primary X, .atSign :: .number "1" :: back⟩ =
      some ⟨K, .primary (.atTime X (.fixed false (.seconds "1"))), back⟩ := rfl
  refine ⟨K, _, [.atSign], _, _, hreached, by simp, Reaches.step hnext,
    Reaches.step hother, Sim.primary (F := []) (L := []) (seam_nil K) (.alone (by simp) rfl ?_)⟩
  rcases readTime_cases hread with rfl | ⟨time, rfl⟩
  · obtain ⟨_, ha⟩ := hY
    rw [Phrase.check] at ha
    cases ha
  · exact (standsIn_refl X).atTime (.sound false isSound_one)

/-! ## 7. One token -/

/-- **A run of labels** in a list of them, with others before and behind; `l` is the first of the run. -/
def IsLabelsAt (l : String) (whole run back : List Token) : Prop :=
  ∃ K mode w ls t more, OpensLabels K mode w ∧ isLabelsFront ls = true ∧ label? t = some l ∧
    isLabelsBack more = true ∧ run = t :: more ∧
    Reaches (Reading.start whole) ⟨K, mode, w ++ .leftParen :: (ls ++ (run ++ back))⟩

/-- **A token that may stand for a run of tokens** where they are read. -/
inductive StandsFor (whole run back : List Token) : Token → Prop
  | operand {u : Token} : IsOperandAt whole run back → u.IsSelector → StandsFor whole run back u
  | matched {u : Token} : IsMatchedAt whole run back → u.IsSelector → StandsFor whole run back u
  | outer {u : Token} : IsOuterAt whole run back → u.IsSelector → StandsFor whole run back u
  | scalar : IsScalarAt whole run back → StandsFor whole run back (.number "1")
  | offset {text : String} : IsModifierAt (.keyword .offset text) whole run back →
      StandsFor whole run back (.duration "5m")
  | time : IsModifierAt .atSign whole run back → StandsFor whole run back (.number "1")
  | labels {l : String} : IsLabelsAt l whole run back →
      (back.head? = some .comma ∨ back.head? = some .rightParen) →
      StandsFor whole run back (.identifier l)

theorem StandsFor.isFixed (h : StandsFor whole run back u) : u.isFixed = false := by
  cases h with
  | operand _ hu | matched _ hu | outer _ hu => exact hu.isFixed
  | _ => rfl

/-- A machine that is to end makes a step that takes a list of labels. -/
theorem exists_next_of_opensLabels {E : Phrase} {R w us : List Token} (haccept : AcceptingRun whole E R)
    (h : OpensLabels K mode w) (hreached : Reaches (Reading.start whole) ⟨K, mode, w ++ us⟩) :
    ∃ s, Reading.next ⟨K, mode, w ++ us⟩ = some s := by
  rcases Relation.ReflTransGen.cases_head (haccept.ends hreached) with heq | ⟨s, hs, -⟩
  · -- a query ends with fewer tokens than open a list
    have hlength := h.two_le
    have hrest : w ++ us = R := congrArg Reading.rest heq
    have hR : R.length ≤ 1 := by rcases haccept.rest with rfl | rfl <;> simp
    rw [← hrest, List.length_append] at hR
    omega
  · exact ⟨s, hs⟩

theorem exists_crossing_labels {E : Phrase} {R : List Token} {l : String}
    (h : IsLabelsAt l whole run back) (haccept : AcceptingRun whole E R) :
    ∃ K mode w s t, Crossing whole run back (.identifier l) K mode w s t := by
  obtain ⟨K, mode, w, ls, t, more, hopens, hls, ht, hmore, rfl, hreached⟩ := h
  obtain ⟨s, hs⟩ := exists_next_of_opensLabels haccept hopens hreached
  obtain ⟨s', hs', -, hsim⟩ := exists_next_trimmed hopens hls ht hmore hs
  refine ⟨K, mode, w ++ .leftParen :: ls, s, s', ?_, by simp, ?_, ?_,
    hsim (haccept.passes_of (hreached.trans (Reaches.step hs)))⟩
  · simpa using hreached
  · simpa using Reaches.step hs
  · simpa using Reaches.step hs'

/-- **A token in the place of a run that it stands for**: if the query with the run is accepted, so is
that with the token. -/
theorem accepted_of_standsFor {front : List Token} (h : StandsFor (front ++ run ++ back) run back u)
    (haccept : Accepted (front ++ run ++ back)) : Accepted (front ++ u :: back) := by
  obtain ⟨E, R, haccept⟩ := accepted_iff.mp haccept
  cases h with
  | operand hrun hu =>
    obtain ⟨S, s, t, hcrossing⟩ := exists_crossing_operand hrun haccept hu
    exact hcrossing.accepted haccept
  | matched hrun hu =>
    obtain ⟨K, X, t, s, s', hcrossing⟩ := exists_crossing_matched hrun haccept hu
    exact hcrossing.accepted haccept
  | outer hrun hu =>
    obtain ⟨S, s, t, hcrossing⟩ := exists_crossing_outer hrun haccept hu
    exact hcrossing.accepted haccept
  | scalar hrun =>
    obtain ⟨S, s, t, hcrossing⟩ := exists_crossing_scalar hrun
    exact hcrossing.accepted haccept
  | offset hrun =>
    obtain ⟨K, mode, w, s, t, hcrossing⟩ := exists_crossing_offset hrun haccept
    exact hcrossing.accepted haccept
  | time hrun =>
    obtain ⟨K, mode, w, s, t, hcrossing⟩ := exists_crossing_time hrun haccept
    exact hcrossing.accepted haccept
  | labels hrun _ =>
    obtain ⟨K, mode, w, s, t, hcrossing⟩ := exists_crossing_labels hrun haccept
    exact hcrossing.accepted haccept

/-! ## 8. Any number of tokens -/

/-- **Rows of tokens with tokens in the place of runs** of a whole query that they stand for. -/
inductive Grafted (whole : List Token) : List Token → List Token → Prop
  | nil : Grafted whole [] []
  | kept {ts ts' : List Token} (t : Token) : Grafted whole ts ts' →
      Grafted whole (t :: ts) (t :: ts')
  | graft {run back back' : List Token} {u : Token} : StandsFor whole run back u →
      Grafted whole back back' → Grafted whole (run ++ back) (u :: back')

theorem grafted_self (whole ts : List Token) : Grafted whole ts ts := by
  induction ts with
  | nil => exact Grafted.nil
  | cons t _ ih => exact Grafted.kept t ih

/-- A run that a token stands for has some token itself. -/
theorem StandsFor.ne_nil (h : StandsFor whole run back u) : run ≠ [] := by
  rintro rfl
  cases h with
  | operand hrun _ =>
    obtain ⟨outer, base, inner, e, hread, -⟩ := hrun
    cases eq_of_reaches_operand hread.read rfl (Nat.le_refl _)
  | matched hrun _ =>
    obtain ⟨K, X, v, op, m, words, operand, hrun, hne, -⟩ := hrun
    exact hne (List.append_eq_nil_iff.mp hrun.symm).1
  | scalar hrun | outer hrun _ =>
    obtain ⟨S, X, a, -, hread, -⟩ := hrun
    cases eq_of_reaches_operand hread rfl (Nat.le_refl _)
  | offset hrun => exact hrun.1 rfl
  | time hrun => exact hrun.1 rfl
  | labels hrun _ =>
    obtain ⟨K, mode, w, ls, t, more, -, -, -, -, hfirst, -⟩ := hrun
    cases hfirst

/-- **Where a run begins that a token stands for**, the machine stands only if an operand is due. -/
theorem StandsFor.operand_of_reaches {E : Phrase} {R : List Token} {S : List Frame}
    (h : StandsFor whole run back u) (haccept : AcceptingRun whole E R)
    (hreached : Reaches (Reading.start whole) ⟨S, mode, run ++ back⟩) : mode = .operand := by
  -- two states with the same tokens left are one if an operand is due in one of them
  have hoperand : ∀ {S' : List Frame},
      Reaches (Reading.start whole) ⟨S', .operand, run ++ back⟩ → mode = .operand := fun h' => by
    rcases reaches_total hreached h' with hreaches | hreaches
    · obtain ⟨w, hw, hnil, -⟩ := reaches_front hreaches
      obtain rfl : w = [] := List.append_left_eq_self.mp hw.symm
      rcases hnil rfl with heq | ⟨d, hd⟩
      · cases heq
        rfl
      · cases hd
    · cases eq_of_reaches_operand hreaches rfl (Nat.le_refl _)
      rfl
  -- the machine does not stand within what it takes with one step
  have hwithin : ∀ {s₁ s₂ : Reading}, Reaches (Reading.start whole) s₁ → s₁.next = some s₂ →
      (run ++ back).length < s₁.rest.length → s₂.rest.length < (run ++ back).length → False := by
    intro s₁ s₂ h₁ hnext hlt hlt'
    rcases reaches_total hreached h₁ with hreaches | hreaches
    · exact absurd (length_le_of_reaches hreaches) (Nat.not_le_of_lt hlt)
    · rcases Relation.ReflTransGen.cases_head hreaches with rfl | ⟨s₃, hstep, hrest⟩
      · exact absurd hlt (Nat.lt_irrefl _)
      · obtain rfl := Option.some.inj (hnext.symm.trans hstep)
        exact absurd (length_le_of_reaches hrest) (Nat.not_le_of_lt hlt')
  have hmodifier : ∀ {kw : Token}, IsModifierAt kw whole run back → False := by
    rintro kw ⟨hne, K, X, Y, hkw, hnext⟩
    refine hwithin hkw hnext (by simp) ?_
    have := List.length_pos_of_ne_nil hne
    rw [List.length_append]
    exact Nat.lt_add_of_pos_left this
  cases h with
  | operand hrun _ =>
    obtain ⟨outer, base, inner, e, hread, -⟩ := hrun
    exact hoperand hread.reached
  | matched hrun _ =>
    obtain ⟨K, X, v, op, m, words, operand, rfl, hne, hv, -, hnext, -⟩ := hrun
    have := List.length_pos_of_ne_nil hne
    exact (hwithin hv hnext (by simp) (by simp; omega)).elim
  | scalar hrun | outer hrun _ =>
    obtain ⟨S', X, a, h', -⟩ := hrun
    exact hoperand h'
  | offset hrun => exact (hmodifier hrun).elim
  | time hrun => exact (hmodifier hrun).elim
  | labels hrun _ =>
    obtain ⟨K, mode', w, ls, t, more, hopens, hls, ht, hmore, rfl, h'⟩ := hrun
    obtain ⟨s, hs⟩ := exists_next_of_opensLabels haccept hopens h'
    obtain ⟨-, -, hle, -⟩ := exists_next_trimmed hopens hls ht hmore hs
    refine (hwithin h' hs (by simp; omega) ?_).elim
    rw [List.length_append, List.length_cons]
    omega

/-- Behind a run the machine stands where no operand is due, or in a list of labels. -/
theorem StandsFor.behind (h : StandsFor whole run back u) :
    (∃ S mode, mode ≠ .operand ∧ Reaches (Reading.start whole) ⟨S, mode, back⟩) ∨
      back.head? = some .comma ∨ back.head? = some .rightParen := by
  have hmodifier : ∀ {kw : Token}, IsModifierAt kw whole run back →
      ∃ S mode, mode ≠ .operand ∧ Reaches (Reading.start whole) ⟨S, mode, back⟩ := by
    rintro kw ⟨-, K, X, Y, hkw, hnext⟩
    exact ⟨K, .primary Y, by simp, hkw.trans (Reaches.step hnext)⟩
  have hoperand : ∀ {run : List Token}, IsOperandAt whole run back →
      ∃ S mode, mode ≠ .operand ∧ Reaches (Reading.start whole) ⟨S, mode, back⟩ := by
    rintro run ⟨outer, base, inner, e, hread, -⟩
    exact ⟨_, .primary e, by simp, hread.behind⟩
  cases h with
  | operand hrun _ => exact Or.inl (hoperand hrun)
  | matched hrun _ =>
    obtain ⟨K, X, v, op, m, words, operand, -, -, -, -, -, hrun⟩ := hrun
    exact Or.inl (hoperand hrun)
  | outer hrun _ =>
    obtain ⟨S, X, a, hreached, hread, -⟩ := hrun
    exact Or.inl ⟨S, .primary X, by simp, hreached.trans hread⟩
  | scalar hrun =>
    obtain ⟨S, X, a, hreached, hread, -⟩ := hrun
    exact Or.inl ⟨S, .after X, by simp, hreached.trans hread⟩
  | offset hrun => exact Or.inl (hmodifier hrun)
  | time hrun => exact Or.inl (hmodifier hrun)
  | labels _ hback => exact Or.inr hback

/-- Behind a run of a query that is accepted, neither arguments nor a grouping follow. -/
theorem StandsFor.opensBody_eq {E : Phrase} {R : List Token} (h : StandsFor whole run back u)
    (haccept : AcceptingRun whole E R) : opensBody back = false := by
  rcases h.behind with ⟨S, mode, hmode, hreached⟩ | hback | hback
  · exact (haccept.opens_nothing hreached hmode).1
  all_goals rw [opensBody, hback]; rfl

/-- No operand begins with a comma or a closing parenthesis. -/
theorem not_reaches_of_closes {ts : List Token}
    (hts : ts.head? = some .comma ∨ ts.head? = some .rightParen)
    (h : Reaches ⟨K, .operand, ts⟩ t) : t = ⟨K, .operand, ts⟩ := by
  rcases Relation.ReflTransGen.cases_head h with heq | ⟨s, hstep, -⟩
  · exact heq.symm
  · cases ts with
    | nil => rcases hts with hts | hts <;> cases hts
    | cons v ts => rcases hts with hts | hts <;> (cases hts; cases hstep)

/-- A run that a token stands for begins with no comma and no closing parenthesis. -/
theorem StandsFor.head_ne (h : StandsFor whole run back u) :
    ¬ ((run ++ back).head? = some .comma ∨ (run ++ back).head? = some .rightParen) := by
  intro hhead
  cases h with
  | operand hrun _ =>
    obtain ⟨outer, base, inner, e, hread, -⟩ := hrun
    cases not_reaches_of_closes hhead hread.read
  | matched hrun _ =>
    obtain ⟨K, X, v, op, m, words, operand, rfl, hne, -, hshift, hnext, -⟩ := hrun
    have hlength := List.length_pos_of_ne_nil hne
    -- with no words behind it an operator takes nothing but itself
    have hshift' : shift? (pendingLevel K) (v :: (words ++ operand ++ back)) = some op := hshift
    rw [next_after_of_shift hshift', List.tail_cons] at hnext
    generalize hts : words ++ operand ++ back = ts at hhead hnext
    cases ts with
    | nil => rcases hhead with hhead | hhead <;> cases hhead
    | cons w ts =>
      have hrest : w :: ts = operand ++ back := by
        rcases hhead with hhead | hhead <;>
          (cases hhead; exact congrArg Reading.rest (Option.some.inj hnext))
      rw [← hts, List.append_assoc] at hrest
      exact hne (List.append_left_eq_self.mp hrest)
  | scalar hrun | outer hrun _ =>
    obtain ⟨S', X, a, -, hread, -⟩ := hrun
    cases not_reaches_of_closes hhead hread
  | offset hrun =>
    obtain ⟨-, K, X, Y, -, hnext⟩ := hrun
    generalize run ++ back = ts at hhead hnext
    cases ts with
    | nil => rcases hhead with hhead | hhead <;> cases hhead
    | cons v ts => rcases hhead with hhead | hhead <;> (cases hhead; cases hnext)
  | time hrun =>
    obtain ⟨-, K, X, Y, -, hnext⟩ := hrun
    generalize run ++ back = ts at hhead hnext
    cases ts with
    | nil => rcases hhead with hhead | hhead <;> cases hhead
    | cons v ts => rcases hhead with hhead | hhead <;> (cases hhead; cases hnext)
  | labels hrun _ =>
    obtain ⟨K, mode, w, ls, t, more, -, -, ht, -, rfl, -⟩ := hrun
    rcases hhead with hhead | hhead <;> (cases hhead; cases ht)

/-- Behind a run the rows go on with the same token. -/
theorem Grafted.sameHead {E : Phrase} {R : List Token} (h : Grafted whole back back')
    (hrun : StandsFor whole run back u) (haccept : AcceptingRun whole E R) : SameHead back back' := by
  cases h with
  | nil => rfl
  | kept _ _ => rfl
  | graft hnext _ =>
    rcases hrun.behind with ⟨S, mode, hmode, hreached⟩ | hback
    · exact absurd (hnext.operand_of_reaches haccept hreached) hmode
    · exact absurd hback hnext.head_ne

section Congr

variable {front : List Token}

/-- The machine comes before a run as before where the query goes on alike behind it. -/
theorem reaches_of_sameHead {w : List Token} (hback : SameHead back back')
    (h : Reaches (Reading.start (front ++ run ++ back)) ⟨K, mode, w ++ (run ++ back)⟩) :
    Reaches (Reading.start (front ++ run ++ back')) ⟨K, mode, w ++ (run ++ back')⟩ := by
  obtain ⟨v, hv, -, hfront⟩ := reaches_front h
  obtain rfl : front = v ++ w := by
    rw [List.append_assoc] at hv
    refine List.append_cancel_right (hv.trans ?_)
    rw [List.append_assoc]
  have hreached := hfront (w ++ (run ++ back')) (Or.inl ((hback.append run).append w))
  rwa [← List.append_assoc, ← List.append_assoc] at hreached

theorem IsOperandAt.congr (h : IsOperandAt (front ++ run ++ back) run back)
    (hback : SameHead back back') : IsOperandAt (front ++ run ++ back') run back' := by
  obtain ⟨outer, base, inner, e, hread, hscalar, he⟩ := h
  obtain ⟨v, hv, -, hread'⟩ := reaches_front hread.read
  obtain rfl : run = v := List.append_cancel_right hv
  exact ⟨outer, base, inner, e, ⟨reaches_of_sameHead (w := []) hback hread.reached,
    hread' back' (Or.inl hback), hread.base, hread.outer, hread.inner⟩, hscalar, he⟩

theorem IsMatchedAt.congr (h : IsMatchedAt (front ++ run ++ back) run back)
    (hback : SameHead back back') : IsMatchedAt (front ++ run ++ back') run back' := by
  obtain ⟨K, X, v, op, m, words, operand, rfl, hne, hreached, hshift, hnext, hrun⟩ := h
  obtain ⟨w, hw, -, hnext'⟩ := next_front hnext
  obtain rfl : v :: words = w := List.append_cancel_right (by simpa using hw)
  have hoperand : IsOperandAt (front ++ words ++ operand ++ back') operand back' :=
    IsOperandAt.congr (by simpa using hrun) hback
  refine ⟨K, X, v, op, m, words, operand, rfl, hne, reaches_of_sameHead (w := [v]) hback hreached, hshift,
    ?_, by simpa using hoperand⟩
  rw [List.append_assoc]
  exact hnext' (operand ++ back') (Or.inl (hback.append operand))

theorem IsOuterAt.congr (h : IsOuterAt (front ++ run ++ back) run back)
    (hback : SameHead back back') : IsOuterAt (front ++ run ++ back') run back' := by
  obtain ⟨K, X, a, hreached, hread, hK, ha, htype⟩ := h
  obtain ⟨v, hv, -, hread'⟩ := reaches_front hread
  obtain rfl : run = v := List.append_cancel_right hv
  exact ⟨K, X, a, reaches_of_sameHead (w := []) hback hreached, hread' back' (Or.inl hback), hK, ha,
    htype⟩

theorem IsScalarAt.congr (h : IsScalarAt (front ++ run ++ back) run back)
    (hback : SameHead back back') : IsScalarAt (front ++ run ++ back') run back' := by
  obtain ⟨S, X, a, hreached, hread, ha, htype, hdomain, hmodifier⟩ := h
  obtain ⟨v, hv, -, hread'⟩ := reaches_front hread
  obtain rfl : run = v := List.append_cancel_right hv
  refine ⟨S, X, a, reaches_of_sameHead (w := []) hback hreached, hread' back' (Or.inl hback), ha,
    htype, hdomain, ?_⟩
  unfold opensModifier at hmodifier ⊢
  rwa [show back'.head? = back.head? from hback]

theorem IsModifierAt.congr {kw : Token} (h : IsModifierAt kw (front ++ run ++ back) run back)
    (hback : SameHead back back') : IsModifierAt kw (front ++ run ++ back') run back' := by
  obtain ⟨hne, K, X, Y, hreached, hnext⟩ := h
  obtain ⟨v, hv, -, hnext'⟩ := next_front hnext
  obtain rfl : kw :: run = v := List.append_cancel_right (by simpa using hv)
  exact ⟨hne, K, X, Y, reaches_of_sameHead (w := [kw]) hback hreached, hnext' back' (Or.inl hback)⟩

/-- **A run is read the same** where the query goes on alike. -/
theorem StandsFor.congr (h : StandsFor (front ++ run ++ back) run back u)
    (hback : SameHead back back') : StandsFor (front ++ run ++ back') run back' u := by
  have hhead : back'.head? = back.head? := hback
  cases h with
  | operand hrun hu => exact .operand (hrun.congr hback) hu
  | matched hrun hu => exact .matched (hrun.congr hback) hu
  | outer hrun hu => exact .outer (hrun.congr hback) hu
  | scalar hrun => exact .scalar (hrun.congr hback)
  | offset hrun => exact .offset (hrun.congr hback)
  | time hrun => exact .time (hrun.congr hback)
  | labels hrun hends =>
    obtain ⟨K, mode, w, ls, t, more, hopens, hls, ht, hmore, hfirst, hreached⟩ := hrun
    refine .labels ⟨K, mode, w, ls, t, more, hopens, hls, ht, hmore, hfirst, ?_⟩ (hhead ▸ hends)
    have hmoved := reaches_of_sameHead (w := w ++ .leftParen :: ls) hback (by simpa using hreached)
    simpa using hmoved

end Congr

theorem accepted_of_grafted_behind {ts' : List Token} (front : List Token) (h : Grafted whole ts ts')
    (hwhole : whole = front ++ ts) (haccept : Accepted whole) : Accepted (front ++ ts') := by
  induction h generalizing front with
  | nil => exact hwhole ▸ haccept
  | kept t _ ih =>
    have := ih (front ++ [t]) (by simpa using hwhole)
    simpa using this
  | @graft run back back' u hrun htail ih =>
    obtain ⟨E, R, hrunning⟩ := accepted_iff.mp haccept
    have hhead : SameHead back back' := htail.sameHead hrun hrunning
    have htail' := ih (front ++ run) (by simpa using hwhole)
    rw [hwhole, ← List.append_assoc] at hrun
    exact accepted_of_standsFor (hrun.congr hhead) htail'

/-- **A query with tokens in the place of runs is accepted** if the query with the runs is. -/
theorem accepted_of_grafted {ts' : List Token} (h : Grafted whole whole ts')
    (haccept : Accepted whole) : Accepted ts' :=
  accepted_of_grafted_behind [] h rfl haccept

end PanelLint.Promql
