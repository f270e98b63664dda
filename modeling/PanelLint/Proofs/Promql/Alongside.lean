import PanelLint.Proofs.Promql.Stacks
/-!
# The machine over two queries

One query has a run of tokens where the other has another one, and the same tokens behind.  The machine
stands over both behind the runs, and what it has read of them differs: an operand, an argument, the
labels of a grouping or of a match.  If a name comes for operands with operators between them, the
operators around it may take apart what stands between them: `a + b` in the place of `x` in `x * 2`.

* `Sim`: how the machine stands over both queries, and `sim_next`, that it keeps so;
* `sim_end`: at the end of the one query the other one is accepted too;
* `Crossing.accepted`: so a token may come for a run of tokens, if the machine stands so behind both.
-/

namespace PanelLint.Promql

open Phrase

variable {F G L K : List Frame} {X Y e : Phrase} {ts r : List Token} {s t : Reading} {mode : Mode}

/-! ## 1. Vectors -/

/-- A phrase that passes the checks as a vector. -/
def Phrase.IsVector (e : Phrase) : Prop := ∃ a, e.check = .ok a ∧ a.type = .vector

/-- An operator or a sign that any vector suits. -/
def Frame.TakesVector (f : Frame) : Prop := ∀ e : Phrase, e.IsVector → (f.fill e).IsVector

theorem Phrase.IsVector.passesAsOperand (h : e.IsVector) : e.PassesAsOperand :=
  h.imp fun _ ⟨ha, ht⟩ => ⟨ha, by rw [ht]; rfl⟩

/-- A vector stands in for any operand, unless a scalar is due. -/
theorem operandStandsIn_of_isVector {loose : Prop} {literal : Bool} (hloose : loose)
    (hX : X.Passes → X.PassesAsOperand) (hY : Y.IsVector) : OperandStandsIn loose literal X Y := by
  intro a ha
  obtain ⟨b, hb, ht⟩ := hY
  refine ⟨b, hb, ?_, fun _ _ _ => Or.inr ht⟩
  obtain ⟨a', ha', hoperand⟩ := hX ⟨a, ha⟩
  obtain rfl := Except.ok.inj (ha.symm.trans ha')
  rw [ht]
  cases htype : a.type with
  | vector => exact Or.inl rfl
  | scalar => exact Or.inr ⟨hloose, rfl, rfl⟩
  | _ => exact absurd hoperand (by simp [htype, ValueType.isOperand])

/-- What passes the check of a binary operator is a scalar or a vector, and a vector if an operand
is. -/
theorem type_of_checkBinary {op : Operator} {m : Modifier} {l r a : Expr}
    (h : checkBinary op m l r = .ok a) :
    a.type = if l.type = .scalar ∧ r.type = .scalar then .scalar else .vector := by
  unfold checkBinary at h
  obtain ⟨_, -, h⟩ := exists_of_bind_eq_ok h
  obtain ⟨_, -, h⟩ := exists_of_bind_eq_ok h
  split at h
  · cases h
  · obtain ⟨_, -, h⟩ := exists_of_bind_eq_ok h
    obtain ⟨_, -, h⟩ := exists_of_bind_eq_ok h
    obtain ⟨_, -, h⟩ := exists_of_bind_eq_ok h
    obtain ⟨_, -, h⟩ := exists_of_bind_eq_ok h
    cases h
    rfl

theorem check_binary {op : Operator} {m : ModifierPhrase} {l r : Phrase} {a : Expr}
    (h : (Phrase.binary op m l r).check = .ok a) : ∃ b n c, l.check = .ok b ∧ m.check = .ok n ∧
      r.check = .ok c ∧ checkBinary op n b c = .ok a := by
  rw [Phrase.check] at h
  obtain ⟨b, hb, h⟩ := exists_of_bind_eq_ok h
  obtain ⟨n, hn, h⟩ := exists_of_bind_eq_ok h
  obtain ⟨c, hc, h⟩ := exists_of_bind_eq_ok h
  exact ⟨b, n, c, hb, hn, hc, h⟩

/-- A binary expression that passes its checks is an operand, and with a vector in it a vector. -/
theorem passesAsOperand_of_binary {op : Operator} {m : ModifierPhrase} {l r : Phrase}
    (h : (Phrase.binary op m l r).Passes) : (Phrase.binary op m l r).PassesAsOperand := by
  obtain ⟨a, ha⟩ := h
  obtain ⟨b, n, c, -, -, -, hcheck⟩ := check_binary ha
  refine ⟨a, ha, ?_⟩
  rw [type_of_checkBinary hcheck]
  split <;> rfl

theorem isVector_of_binary {op : Operator} {m : ModifierPhrase} {l r : Phrase}
    (h : (Phrase.binary op m l r).Passes) (hv : l.IsVector ∨ r.IsVector) :
    (Phrase.binary op m l r).IsVector := by
  obtain ⟨a, ha⟩ := h
  obtain ⟨b, n, c, hb, -, hc, hcheck⟩ := check_binary ha
  refine ⟨a, ha, ?_⟩
  rw [type_of_checkBinary hcheck, if_neg]
  rintro ⟨hbs, hcs⟩
  rcases hv with ⟨b', hb', hv⟩ | ⟨c', hc', hv⟩
  · obtain rfl := Except.ok.inj (hb.symm.trans hb')
    exact absurd (hbs.symm.trans hv) (by simp)
  · obtain rfl := Except.ok.inj (hc.symm.trans hc')
    exact absurd (hcs.symm.trans hv) (by simp)

/-- Only a vector has a subquery behind it. -/
theorem isVector_of_subquery {span : Span} {step : Option Span}
    (h : (Phrase.subquery X span step).Passes) : X.IsVector := by
  obtain ⟨b, hb⟩ := h
  rw [Phrase.check] at hb
  obtain ⟨a, ha, hb⟩ := exists_of_bind_eq_ok hb
  obtain ⟨_, -, hb⟩ := exists_of_bind_eq_ok hb
  have hvector {f : Unit → Except CheckError Expr} {e : CheckError}
      (h : (refuseIf (a.type != .vector) e >>= f) = .ok b) : X.IsVector := by
    obtain ⟨_, htype, -⟩ := exists_of_bind_eq_ok h
    exact ⟨a, ha, by simpa using refuseIf_eq_ok htype⟩
  cases step with
  | none => exact hvector hb
  | some step =>
    obtain ⟨_, -, hb⟩ := exists_of_bind_eq_ok hb
    exact hvector hb

theorem isVector_plus (h : e.IsVector) : (Phrase.plus e).IsVector := by
  obtain ⟨a, ha, ht⟩ := h
  exact ⟨a, by rw [Phrase.check, ha], ht⟩

theorem isVector_minus (h : e.IsVector) : (Phrase.minus e).IsVector := by
  obtain ⟨a, ha, ht⟩ := h
  obtain ⟨b, hb⟩ := exists_checkMinus (e := a) (by rw [ht]; rfl)
  refine ⟨b, ?_, (checkMinus_eq_ok hb).1.trans ht⟩
  rw [Phrase.check, ha]
  exact hb

theorem passesAsOperand_of_minus (h : (Phrase.minus e).Passes) :
    (Phrase.minus e).PassesAsOperand := by
  obtain ⟨a, ha⟩ := h
  refine ⟨a, ha, ?_⟩
  rw [Phrase.check] at ha
  obtain ⟨b, -, hminus⟩ := exists_of_bind_eq_ok ha
  obtain ⟨htype, hoperand, -⟩ := checkMinus_eq_ok hminus
  rw [htype]
  exact hoperand

theorem passesAsOperand_of_plus (h : e.PassesAsOperand) : (Phrase.plus e).PassesAsOperand := by
  obtain ⟨a, ha, ht⟩ := h
  exact ⟨a, by rw [Phrase.check, ha], ht⟩

theorem passesAsOperand_of_plus_inv (h : (Phrase.plus e).PassesAsOperand) : e.PassesAsOperand := by
  obtain ⟨a, ha, ht⟩ := h
  rw [Phrase.check] at ha
  exact ⟨a, ha, ht⟩

theorem carriesOver_modifier_refl (m : ModifierPhrase) :
    CarriesOver ModifierLike m.check m.check := by
  refine carriesOver_self.mono ?_
  rintro a _ rfl
  exact ModifierLike.refl a

/-- An operator or a sign that an operand suits suits any vector. -/
theorem takesVector_of_fill {f : Frame} (hf : f.isChain = true) (h : (f.fill X).Passes) :
    f.TakesVector := by
  intro Y hY
  cases f with
  | sign negative =>
    cases negative with
    | false => exact isVector_plus hY
    | true => exact isVector_minus hY
  | operator op m l =>
    obtain ⟨a, ha⟩ := h
    have hX := (passes_of_binary ⟨a, ha⟩).2
    have hstands : StandsIn True false (.binary op m l X) (.binary op m l Y) :=
      OperandStandsIn.binary op (carriesOver_modifier_refl m) (standsIn_refl l).operand
        (operandStandsIn_of_isVector trivial (fun _ => hX) hY)
    obtain ⟨b, hb, -⟩ := hstands a ha
    exact isVector_of_binary ⟨b, hb⟩ (Or.inr hY)
  | _ => cases hf

/-! ## 2. How the machine stands over two queries -/

/-- Operators and signs on both sides of a seam, above the frames `K` that are the same. -/
structure Seam (K F L : List Frame) : Prop where
  chain : ∀ f ∈ F ++ L, f.isChain = true
  level : ∀ f ∈ F ++ L, pendingLevel K ≤ f.level

/-- Whether a function with a domain waits for what comes, signs aside. -/
def domainPending : List Frame → Bool
  | .sign _ :: K => domainPending K
  | .argument c before _ :: _ => before.isEmpty && c.hasDomain
  | _ => false

/-- **An operand faces another one**, above the operators and signs of a seam.

Either what differs is the operand alone, signs that do nothing aside; or the operators have been taken
apart, and then what is left of them waits for operands here and for vectors there. -/
inductive Facing (K F L : List Frame) (X Y : Phrase) : Prop
  | alone : (∀ f ∈ F, f = .sign false) → L = [] →
      OperandStandsIn (scalarPending K = false) (domainPending K) X Y → Facing K F L X Y
  | apart : scalarPending K = false → (∀ f ∈ L, f.TakesVector) →
      ((∃ f ∈ F, f ≠ .sign false) ∨ (X.Passes → X.PassesAsOperand)) →
      (X.PassesAsOperand → Y.IsVector) → Facing K F L X Y

/-- The same of parts of the queries that modifiers may follow. -/
inductive FacingPart (K F L : List Frame) (X Y : Phrase) : Prop
  | alone : (∀ f ∈ F, f = .sign false) → L = [] →
      StandsIn (scalarPending K = false) (domainPending K) X Y → FacingPart K F L X Y
  | apart : scalarPending K = false → (∀ f ∈ L, f.TakesVector) → (∃ f ∈ F, f ≠ .sign false) →
      StandsIn True true X Y → (∀ b, Y.check = .ok b → b.type ≠ .scalar) → FacingPart K F L X Y

/-- **A call stands in for another one** as far as what it is called with does: only the labels of a
grouping may be others. -/
inductive Callee.StandsIn : Callee → Callee → Prop
  | call (name : String) : StandsIn (.call name) (.call name)
  | ungrouped (op : Aggregation) : StandsIn (.aggregate op none) (.aggregate op none)
  | grouped (op : Aggregation) {g g' : GroupingPhrase} :
      CarriesOver (fun _ _ => True) (checkGrouping (some g)) (checkGrouping (some g')) →
      StandsIn (.aggregate op (some g)) (.aggregate op (some g'))

/-- **A phrase in the place of one that is no operand**, where nothing asks for its type. -/
def Phrase.OuterStandsIn (X Y : Phrase) : Prop := CarriesOver OuterLike X.check Y.check

/-- **How the machine stands over two queries**, behind the runs that differ: at operands that face each
other, or above frames in which such operands are kept, or other labels; or at parts of the queries with
nothing but parentheses around them. -/
inductive Sim : Reading → Reading → Prop
  | primary {K F L : List Frame} {X Y : Phrase} {r : List Token} : Seam K F L →
      FacingPart K F L X Y → Sim ⟨F ++ K, .primary X, r⟩ ⟨L ++ K, .primary Y, r⟩
  | after {K F L : List Frame} {X Y : Phrase} {r : List Token} : Seam K F L →
      Facing K F L X Y → Sim ⟨F ++ K, .after X, r⟩ ⟨L ++ K, .after Y, r⟩
  | operator {G K F L : List Frame} {X Y : Phrase} {mode : Mode} {r : List Token} (op : Operator)
      {m m' : ModifierPhrase} : CarriesOver ModifierLike m.check m'.check → Seam K F L →
      Facing K F L X Y → X.PassesAsOperand →
      Sim ⟨G ++ .operator op m X :: (F ++ K), mode, r⟩ ⟨G ++ .operator op m' Y :: (L ++ K), mode, r⟩
  | argument {G K : List Frame} {c c' : Callee} {args args' : List Phrase} {mode : Mode}
      {r : List Token} (extra : Bool) : c.StandsIn c' → AllStandIn c.scalarDue 0 c.hasDomain args args' →
      Sim ⟨G ++ .argument c args extra :: K, mode, r⟩ ⟨G ++ .argument c' args' extra :: K, mode, r⟩
  | outer {K : List Frame} {mode : Phrase → Mode} {X Y : Phrase} {r : List Token} :
      (∀ f ∈ K, f = .paren) → mode = .primary ∨ mode = .after → X.OuterStandsIn Y →
      Sim ⟨K, mode X, r⟩ ⟨K, mode Y, r⟩

theorem callee_standsIn_refl (c : Callee) : c.StandsIn c := by
  cases c with
  | call name => exact .call name
  | aggregate op grouping =>
    cases grouping with
    | none => exact .ungrouped op
    | some g => exact .grouped op carriesOver_self.trivial

theorem seam_nil (K : List Frame) : Seam K [] [] := ⟨by simp, by simp⟩

/-- An operand that faces another one is replaced by it. -/
theorem Facing.operand (h : Facing K F L X Y) (hX : X.PassesAsOperand) :
    OperandStandsIn (scalarPending K = false) (domainPending K) X Y := by
  cases h with
  | alone _ _ hstands => exact hstands
  | apart hK _ _ hY => exact operandStandsIn_of_isVector hK (fun _ => hX) (hY hX)

/-- What faces a part of a query faces it as an operand. -/
theorem FacingPart.facing (h : FacingPart K F L X Y) : Facing K F L X Y := by
  cases h with
  | alone hF hL hstands => exact .alone hF hL hstands.operand
  | apart hK hL hF hstands hY =>
    refine .apart hK hL (Or.inl hF) fun ⟨a, ha, hoperand⟩ => ?_
    obtain ⟨b, hb, hlike⟩ := hstands a ha
    refine ⟨b, hb, ?_⟩
    have hne := hY b hb
    have hoperand' := hlike.isOperand hoperand
    cases ht : b.type with
    | vector => rfl
    | scalar => exact absurd ht hne
    | _ => exact absurd hoperand' (by simp [ht, ValueType.isOperand])

/-- Modifiers keep what stands before them standing in. -/
theorem standsIn_modifier {loose : Prop} {literal : Bool} {f : Phrase → Phrase} (hf : IsModifier f)
    (h : StandsIn loose literal X Y) : StandsIn loose literal (f X) (f Y) := by
  cases hf with
  | range span => exact h.range (Or.inl rfl)
  | noRange => exact standsIn_noRange
  | subquery span step =>
    refine h.operand.subquery (Or.inl rfl) ?_
    cases step with
    | none => exact .none
    | some step => exact .some (Or.inl rfl)
  | offset negative span => exact h.offset negative negative (Or.inl rfl)
  | noOffset => exact standsIn_noOffset
  | atTime time => exact h.atTime (.same time)
  | noTime => exact standsIn_noTime

/-- What a modifier makes is no scalar. -/
theorem type_of_modifier {f : Phrase → Phrase} (hf : IsModifier f) {b : Expr}
    (h : (f Y).check = .ok b) : b.type ≠ .scalar := by
  cases hf with
  | range span =>
    rw [Phrase.check] at h
    obtain ⟨_, -, h⟩ := exists_of_bind_eq_ok h
    obtain ⟨_, -, h⟩ := exists_of_bind_eq_ok h
    unfold checkRange at h
    split at h <;> (cases h; try simp [Expr.type])
  | subquery span step =>
    rw [Phrase.check] at h
    obtain ⟨_, -, h⟩ := exists_of_bind_eq_ok h
    obtain ⟨_, -, h⟩ := exists_of_bind_eq_ok h
    cases step with
    | none =>
      obtain ⟨_, -, h⟩ := exists_of_bind_eq_ok (x := refuseIf _ _) h
      cases h
      simp [Expr.type]
    | some step =>
      obtain ⟨_, -, h⟩ := exists_of_bind_eq_ok h
      obtain ⟨_, -, h⟩ := exists_of_bind_eq_ok h
      cases h
      simp [Expr.type]
  | offset negative span =>
    rw [Phrase.check] at h
    obtain ⟨_, -, h⟩ := exists_of_bind_eq_ok h
    obtain ⟨_, -, h⟩ := exists_of_bind_eq_ok h
    unfold checkOffset at h
    split at h <;> (cases h; try simp [Expr.type])
  | atTime time =>
    rw [Phrase.check] at h
    obtain ⟨_, -, h⟩ := exists_of_bind_eq_ok h
    obtain ⟨_, -, h⟩ := exists_of_bind_eq_ok h
    unfold checkTime at h
    split at h <;> (cases h; try simp [Expr.type])
  | _ => rw [Phrase.check] at h; cases h

theorem FacingPart.modifier {f : Phrase → Phrase} (hf : IsModifier f) (h : FacingPart K F L X Y) :
    FacingPart K F L (f X) (f Y) := by
  cases h with
  | alone hF hL hstands => exact .alone hF hL (standsIn_modifier hf hstands)
  | apart hK hL hF hstands _ =>
    exact .apart hK hL hF (standsIn_modifier hf hstands) fun _ hb => type_of_modifier hf hb

theorem outerStandsIn_paren (h : X.OuterStandsIn Y) :
    (Phrase.paren X).OuterStandsIn (.paren Y) := by
  unfold OuterStandsIn
  exact CarriesOver.map h fun _ _ hlike => ⟨hlike.type, fun _ hk => nomatch hk⟩

/-- Of the modifiers only shifts and times may come behind what is no operand. -/
theorem outerStandsIn_modifier {f : Phrase → Phrase} (hf : IsModifier f) (h : X.OuterStandsIn Y) :
    (f X).OuterStandsIn (f Y) := by
  unfold OuterStandsIn
  cases hf with
  | range span =>
    refine CarriesOver.bind h fun a _ hlike => carriesOver_self.bind fun _ _ _ => ?_
    intro b hb
    have htype := hlike.type
    unfold checkRange at hb
    split at hb
    · cases hb
    · cases hb
    · cases htype
    · cases hb
  | subquery span step =>
    intro b hb
    obtain ⟨a, ha, hvector⟩ := isVector_of_subquery ⟨b, hb⟩
    obtain ⟨_, -, hlike⟩ := h a ha
    exact absurd hlike.type (by simp [hvector, ValueType.isOperand])
  | offset negative span =>
    refine CarriesOver.bind h fun a _ hlike => carriesOver_self.bind ?_
    rintro _ length rfl
    exact hlike.checkOffset _
  | atTime time =>
    refine CarriesOver.bind h fun a _ hlike => carriesOver_self.bind ?_
    rintro _ time rfl
    exact hlike.checkTime _
  | _ => exact carriesOver_error

/-! ## 3. Steps -/

/-- A step behind parts that face each other. -/
theorem sim_primary (hseam : Seam K F L) (h : FacingPart K F L X Y)
    (hnext : Reading.next ⟨F ++ K, .primary X, r⟩ = some s) :
    ∃ t, Reaches ⟨L ++ K, .primary Y, r⟩ t ∧ Sim s t := by
  obtain ⟨rfl, hstep⟩ | ⟨f, r', hf, rfl, hstep⟩ := exists_modifier hnext
  · exact ⟨_, Reaches.step (hstep (L ++ K) Y), .after hseam h.facing⟩
  · exact ⟨_, Reaches.step (hstep (L ++ K) Y), .primary hseam (h.modifier hf)⟩

/-- An operator that is taken at a level is taken at a lower one. -/
theorem shift?_of_le {level level' : Nat} {op : Operator} (hle : level' ≤ level)
    (h : shift? level ts = some op) : shift? level' ts = some op := by
  obtain ⟨hop, hlevel⟩ := shift?_eq_some_iff.mp h
  exact shift?_eq_some_iff.mpr ⟨hop, Nat.le_trans hle hlevel⟩

/-- **Operators that suit vectors are closed above one**, up to the first that waits for the operator
to come. -/
theorem reaches_closed (hchain : ∀ f ∈ L, f.isChain = true) (hL : ∀ f ∈ L, f.TakesVector)
    (hY : Y.IsVector) : ∃ L' Y', (∀ f ∈ L', f ∈ L) ∧ Y'.IsVector ∧
      Reaches ⟨L ++ K, .after Y, r⟩ ⟨L' ++ K, .after Y', r⟩ ∧
      ∀ f ∈ L'.head?, shift? f.level r ≠ none := by
  induction L generalizing Y with
  | nil => exact ⟨[], Y, by simp, hY, Relation.ReflTransGen.refl, by simp⟩
  | cons f L ih =>
    by_cases hs : shift? f.level r = none
    · obtain ⟨L', Y', hmem, hY', hreaches, hhead⟩ := ih
        (fun g hg => hchain g (List.mem_cons_of_mem f hg))
        (fun g hg => hL g (List.mem_cons_of_mem f hg)) (hL f List.mem_cons_self Y hY)
      refine ⟨L', Y', fun g hg => List.mem_cons_of_mem f (hmem g hg), hY', ?_, hhead⟩
      have hstops : shift? (pendingLevel (f :: L ++ K)) r = none := hs
      have hclose : Reading.next ⟨f :: L ++ K, .after Y, r⟩ = some ⟨L ++ K, .after (f.fill Y), r⟩ :=
        (next_after_of_stop hstops).trans (close_chain (hchain f List.mem_cons_self))
      exact (Reaches.step hclose).trans hreaches
    · exact ⟨f :: L, Y, fun _ hg => hg, hY, Relation.ReflTransGen.refl, by simpa using hs⟩

/-- Where no operator comes all of them are closed. -/
theorem reaches_base (hseam : Seam K F L) (hL : ∀ f ∈ L, f.TakesVector) (hY : Y.IsVector)
    (hstops : shift? (pendingLevel K) r = none) :
    ∃ Y', Y'.IsVector ∧ Reaches ⟨L ++ K, .after Y, r⟩ ⟨K, .after Y', r⟩ := by
  obtain ⟨L', Y', hmem, hY', hreaches, hhead⟩ :=
    reaches_closed (K := K) (r := r) (fun f hf => hseam.chain f (List.mem_append_right F hf)) hL hY
  cases L' with
  | nil => exact ⟨Y', hY', hreaches⟩
  | cons f L' =>
    have hlevel := hseam.level f (List.mem_append_right F (hmem f List.mem_cons_self))
    exact absurd (shift?_mono hlevel hstops) (hhead f rfl)

/-- Behind the seam an operator takes what faces another operand. -/
theorem sim_shift {op : Operator} (hseam : Seam K F L) (h : Facing K F L X Y)
    (hX : X.PassesAsOperand) (hshift : shift? (pendingLevel (F ++ K)) r = some op)
    (hnext : Reading.next ⟨F ++ K, .after X, r⟩ = some s) :
    ∃ t, Reaches ⟨L ++ K, .after Y, r⟩ t ∧ Sim s t := by
  rw [next_after_of_shift hshift] at hnext
  obtain ⟨⟨m, r'⟩, hm, rfl⟩ := toOption_map_eq_some_iff.mp hnext
  have hbase : shift? (pendingLevel K) r = some op := by
    cases F with
    | nil => exact hshift
    | cons f F => exact shift?_of_le (hseam.level f (by simp)) hshift
  have htake : ∀ {L' : List Frame} {Y' : Phrase},
      shift? (pendingLevel (L' ++ K)) r = some op →
      Reading.next ⟨L' ++ K, .after Y', r⟩ = some ⟨.operator op m Y' :: (L' ++ K), .operand, r'⟩ := by
    intro L' Y' hs
    rw [next_after_of_shift hs, hm]
    rfl
  cases h with
  | alone hF hL hstands =>
    subst hL
    exact ⟨_, Reaches.step (htake hbase),
      Sim.operator (G := []) op (carriesOver_modifier_refl m) hseam (.alone hF rfl hstands) hX⟩
  | apart hK hL _ hY =>
    obtain ⟨L', Y', hmem, hY', hreaches, hhead⟩ := reaches_closed (K := K) (r := r)
      (fun f hf => hseam.chain f (List.mem_append_right F hf)) hL (hY hX)
    have hs : shift? (pendingLevel (L' ++ K)) r = some op := by
      cases L' with
      | nil => exact hbase
      | cons f L' =>
        obtain ⟨op', hop'⟩ := Option.ne_none_iff_exists'.mp (hhead f rfl)
        obtain ⟨⟨t, us, rfl, hop⟩, -⟩ := shift?_eq_some_iff.mp hshift
        obtain ⟨⟨t', us', heq, hop''⟩, -⟩ := shift?_eq_some_iff.mp hop'
        cases heq
        obtain rfl := Option.some.inj (hop.symm.trans hop'')
        exact hop'
    have hseam' : Seam K F L' := by
      have hsub : ∀ f ∈ F ++ L', f ∈ F ++ L := fun f hf => by
        rcases List.mem_append.mp hf with hf | hf
        · exact List.mem_append_left L hf
        · exact List.mem_append_right F (hmem f hf)
      exact ⟨fun f hf => hseam.chain f (hsub f hf), fun f hf => hseam.level f (hsub f hf)⟩
    exact ⟨_, hreaches.trans (Reaches.step (htake hs)),
      Sim.operator (G := []) op (carriesOver_modifier_refl m) hseam'
        (.apart hK (fun f hf => hL f (hmem f hf)) (Or.inr fun _ => hX) fun _ => hY') hX⟩

/-- An operator of the run is closed, and nothing happens on the other side. -/
theorem facing_fill {f : Frame} (hf : f.isChain = true) (h : Facing K (f :: F) L X Y) :
    Facing K F L (f.fill X) Y := by
  cases h with
  | alone hF hL hstands =>
    obtain rfl := hF f List.mem_cons_self
    refine .alone (fun g hg => hF g (List.mem_cons_of_mem _ hg)) hL ?_
    unfold OperandStandsIn at hstands ⊢
    rwa [Frame.fill, Phrase.check]
  | apart hK hL hX hY =>
    by_cases hplus : f = .sign false
    · subst hplus
      refine .apart hK hL ?_ fun hoperand => hY (passesAsOperand_of_plus_inv hoperand)
      rcases hX with ⟨g, hg, hne⟩ | hX
      · rcases List.mem_cons.mp hg with rfl | hg
        · exact absurd rfl hne
        · exact Or.inl ⟨g, hg, hne⟩
      · exact Or.inr fun hpass => passesAsOperand_of_plus (hX (passes_of_plus hpass))
    · cases f with
      | sign negative =>
        obtain rfl : negative = true := by simpa using hplus
        exact .apart hK hL (Or.inr passesAsOperand_of_minus)
          fun hoperand => hY (passes_of_minus hoperand.passes)
      | operator op m l =>
        exact .apart hK hL (Or.inr passesAsOperand_of_binary)
          fun hoperand => hY (passes_of_binary hoperand.passes).2
      | _ => cases hf

theorem allStandIn_refl (due : Nat → Bool) (i : Nat) (literal : Bool) (ps : List Phrase) :
    AllStandIn due i literal ps ps := by
  induction ps generalizing i literal with
  | nil => exact allStandIn_nil
  | cons p ps ih => exact OperandStandsIn.cons (standsIn_refl p).operand (ih _ _)

/-- The checks of a call carry over to one that stands in for it. -/
theorem standsIn_apply {loose : Prop} {literal : Bool} {c c' : Callee} {args args' : List Phrase}
    (extra : Bool) (hc : c.StandsIn c') (h : AllStandIn c.scalarDue 0 c.hasDomain args args') :
    StandsIn loose literal (c.apply args extra) (c'.apply args' extra) := by
  cases hc with
  | call name => exact h.call extra
  | ungrouped op => exact h.aggregate op extra carriesOver_self.trivial
  | grouped op hg => exact h.aggregate op extra hg

/-- Behind its arguments a call is applied to them, and so is one that stands in for it. -/
theorem exists_leave_both {c c' : Callee} {args : List Phrase} {extra : Bool} (hc : c.StandsIn c')
    (h : Reading.leave K c args extra r = some s) :
    ∃ (d d' : Callee) (r' : List Token), d.StandsIn d' ∧ d.scalarDue = c.scalarDue ∧
      d.hasDomain = c.hasDomain ∧ s = ⟨K, .primary (d.apply args extra), r'⟩ ∧
      ∀ args', Reading.leave K c' args' extra r = some ⟨K, .primary (d'.apply args' extra), r'⟩ := by
  cases hc with
  | call name =>
    cases h
    exact ⟨_, _, r, .call name, rfl, rfl, rfl, fun _ => rfl⟩
  | grouped op hg =>
    cases h
    exact ⟨_, _, r, .grouped op hg, rfl, rfl, rfl, fun _ => rfl⟩
  | ungrouped op =>
    obtain ⟨keeps, text, us, labels, r', rfl, hlabels, rfl⟩ | ⟨hgrouping, rfl⟩ := leave_aggregate h
    · refine ⟨.aggregate op (some ⟨keeps, labels⟩), .aggregate op (some ⟨keeps, labels⟩), r',
        .grouped op carriesOver_self.trivial, rfl, rfl, rfl, fun args' => ?_⟩
      rw [Reading.leave, hlabels]
      rfl
    · refine ⟨_, _, r, .ungrouped op, rfl, rfl, rfl, fun args' => ?_⟩
      rw [Reading.leave]
      exact fun _ keeps text us _ heq => hgrouping keeps text us heq

/-- Behind its arguments a call faces one that stands in for it. -/
theorem sim_leave {c c' : Callee} {args args' : List Phrase} {extra : Bool} (hc : c.StandsIn c')
    (h : AllStandIn c.scalarDue 0 c.hasDomain args args')
    (hnext : Reading.leave K c args extra r = some s) :
    ∃ t, Reading.leave K c' args' extra r = some t ∧ Sim s t := by
  obtain ⟨d, d', r', hd, hdue, hdomain, rfl, hleave⟩ := exists_leave_both hc hnext
  refine ⟨_, hleave args', Sim.primary (F := []) (L := []) (seam_nil K) (.alone (by simp) rfl ?_)⟩
  exact standsIn_apply extra hd (by rwa [hdue, hdomain])

/-- The frames below the seam are closed alike. -/
theorem sim_close (h : OperandStandsIn (scalarPending K = false) (domainPending K) X Y)
    (hnext : Reading.close K X r = some s) :
    ∃ t, Reading.close K Y r = some t ∧ Sim s t := by
  cases K with
  | nil => cases hnext
  | cons f K =>
    have hafter : ∀ {X' Y' : Phrase} {K' : List Frame},
        OperandStandsIn (scalarPending K' = false) (domainPending K') X' Y' →
        Sim ⟨K', .after X', r⟩ ⟨K', .after Y', r⟩ := fun h' =>
      Sim.after (F := []) (L := []) (seam_nil _) (.alone (by simp) rfl h')
    cases f with
    | sign negative =>
      rw [close_chain rfl] at hnext ⊢
      cases hnext
      refine ⟨_, rfl, hafter ?_⟩
      cases negative with
      | false => exact h.plus
      | true => exact h.minus.operand
    | operator op m l =>
      rw [close_chain rfl] at hnext ⊢
      cases hnext
      refine ⟨_, rfl, hafter ?_⟩
      exact (OperandStandsIn.binary op (carriesOver_modifier_refl m) (standsIn_refl l).operand
        (h.weaken id (by simp))).operand
    | paren =>
      obtain ⟨us, rfl, rfl⟩ := close_paren hnext
      refine ⟨_, rfl, Sim.primary (F := []) (L := []) (seam_nil K) (.alone (by simp) rfl ?_)⟩
      exact h.paren
    | argument c before extra =>
      have hargs : AllStandIn c.scalarDue 0 c.hasDomain (before ++ [X]) (before ++ [Y]) :=
        (allStandIn_refl _ _ _ before).concat (by rwa [Nat.zero_add])
      obtain ⟨us, rfl, hleave⟩ | ⟨us, rfl, rfl⟩ | ⟨us, rfl, hleave⟩ | ⟨us, rfl, hcomma, hparen, rfl⟩ :=
        close_argument hnext
      · exact sim_leave (callee_standsIn_refl c) hargs hleave
      · exact ⟨_, rfl, Sim.after (F := []) (L := []) (seam_nil _) (.alone (by simp) rfl h)⟩
      · exact sim_leave (callee_standsIn_refl c) hargs hleave
      · refine ⟨⟨.argument c (before ++ [Y]) extra :: K, .operand, us⟩, ?_,
          Sim.argument (G := []) extra (callee_standsIn_refl c) hargs⟩
        rw [Reading.close]
        · exact hcomma
        · exact hparen

/-- A step behind operands that face each other. -/
theorem sim_after (hseam : Seam K F L) (h : Facing K F L X Y)
    (hnext : Reading.next ⟨F ++ K, .after X, r⟩ = some s) (hs : s.Passes) :
    ∃ t, Reaches ⟨L ++ K, .after Y, r⟩ t ∧ Sim s t := by
  cases hshift : shift? (pendingLevel (F ++ K)) r with
  | some op =>
    have hX : X.PassesAsOperand := by
      rw [next_after_of_shift hshift] at hnext
      obtain ⟨⟨m, r'⟩, -, rfl⟩ := toOption_map_eq_some_iff.mp hnext
      exact hs.frames (.operator op m X) List.mem_cons_self
    exact sim_shift hseam h hX hshift hnext
  | none =>
    cases F with
    | cons f F =>
      have hf := hseam.chain f (by simp)
      rw [next_after_of_stop hshift, List.cons_append, close_chain hf] at hnext
      cases hnext
      refine ⟨_, Relation.ReflTransGen.refl, Sim.after ⟨?_, ?_⟩ (facing_fill hf h)⟩
      · exact fun g hg => hseam.chain g (List.mem_cons_of_mem f hg)
      · exact fun g hg => hseam.level g (List.mem_cons_of_mem f hg)
    | nil =>
      have hstops : shift? (pendingLevel K) r = none := hshift
      have hX := (passes_of_next hnext hs).after X rfl
      rw [next_after_of_stop hshift] at hnext
      -- what is left on the other side suits vectors, and is closed first
      obtain ⟨Y', hreaches, hY'⟩ : ∃ Y', Reaches ⟨L ++ K, .after Y, r⟩ ⟨K, .after Y', r⟩ ∧
          OperandStandsIn (scalarPending K = false) (domainPending K) X Y' := by
        cases h with
        | alone _ hL hstands =>
          subst hL
          exact ⟨Y, Relation.ReflTransGen.refl, hstands⟩
        | apart hK hL hoperand hY =>
          have hX' := hoperand.resolve_left (by simp)
          obtain ⟨Y', hY', hreaches⟩ := reaches_base hseam hL (hY (hX' hX)) hstops
          exact ⟨Y', hreaches, operandStandsIn_of_isVector hK hX' hY'⟩
      obtain ⟨t, ht, hsim⟩ := sim_close hY' hnext
      exact ⟨t, hreaches.trans (Reaches.step ((next_after_of_stop hstops).trans ht)), hsim⟩

/-- A step above an operator with operands that face each other. -/
theorem sim_operator {op : Operator} {m m' : ModifierPhrase}
    (hm : CarriesOver ModifierLike m.check m'.check) (hseam : Seam K F L)
    (h : Facing K F L X Y) (hX : X.PassesAsOperand)
    (hnext : Reading.next ⟨G ++ .operator op m X :: (F ++ K), mode, r⟩ = some s) :
    ∃ t, Reaches ⟨G ++ .operator op m' Y :: (L ++ K), mode, r⟩ t ∧ Sim s t := by
  obtain ⟨G', mode', r', rfl, hstep⟩ | ⟨rfl, e, rfl, hstops, hclose⟩ := next_above hnext
  · exact ⟨_, Reaches.step (hstep (.operator op m' Y :: (L ++ K)) rfl),
      Sim.operator op hm hseam h hX⟩
  · cases hclose
    have hstep : Reading.next ⟨.operator op m' Y :: (L ++ K), .after e, r⟩ =
        some ⟨L ++ K, .after (.binary op m' Y e), r⟩ := next_after_of_stop hstops
    refine ⟨_, Reaches.step hstep, Sim.after hseam ?_⟩
    have hbinary : ∀ {loose : Prop} {literal outer : Bool}, OperandStandsIn loose literal X Y →
        OperandStandsIn loose outer (.binary op m X e) (.binary op m' Y e) := fun hXY =>
      (OperandStandsIn.binary op hm (hXY.weaken id (by simp)) (standsIn_refl e).operand).operand
    cases h with
    | alone hF hL hstands => exact .alone hF hL (hbinary hstands)
    | apart hK hL _ hY =>
      refine .apart hK hL (Or.inr passesAsOperand_of_binary) fun ⟨a, ha, _⟩ => ?_
      have hstands : OperandStandsIn True true X Y :=
        operandStandsIn_of_isVector trivial (fun _ => hX) (hY hX)
      have hbinary' : OperandStandsIn True true (.binary op m X e) (.binary op m' Y e) :=
        hbinary hstands
      obtain ⟨b, hb, -⟩ := hbinary' a ha
      exact isVector_of_binary ⟨b, hb⟩ (Or.inl (hY hX))

/-- A step above a call that another one stands in for. -/
theorem sim_argument {c c' : Callee} {args args' : List Phrase} {extra : Bool} (hc : c.StandsIn c')
    (h : AllStandIn c.scalarDue 0 c.hasDomain args args')
    (hnext : Reading.next ⟨G ++ .argument c args extra :: K, mode, r⟩ = some s) :
    ∃ t, Reaches ⟨G ++ .argument c' args' extra :: K, mode, r⟩ t ∧ Sim s t := by
  obtain ⟨G', mode', r', rfl, hstep⟩ | ⟨rfl, e, rfl, hstops, hclose⟩ := next_above hnext
  · exact ⟨_, Reaches.step (hstep (.argument c' args' extra :: K) rfl), Sim.argument extra hc h⟩
  · have hstep : ∀ {t}, Reading.close (.argument c' args' extra :: K) e r = some t →
        Reaches ⟨.argument c' args' extra :: K, .after e, r⟩ t := fun ht => by
      have hstops' : shift? (pendingLevel (.argument c' args' extra :: K)) r = none := hstops
      exact Reaches.step ((next_after_of_stop hstops').trans ht)
    have hargs : AllStandIn c.scalarDue 0 c.hasDomain (args ++ [e]) (args' ++ [e]) :=
      h.concat (standsIn_refl e).operand
    obtain ⟨us, rfl, hleave⟩ | ⟨us, rfl, rfl⟩ | ⟨us, rfl, hleave⟩ | ⟨us, rfl, hcomma, hparen, rfl⟩ :=
      close_argument hclose
    · obtain ⟨t, ht, hsim⟩ := sim_leave hc hargs hleave
      exact ⟨t, hstep ht, hsim⟩
    · exact ⟨_, hstep rfl, Sim.argument (G := []) true hc h⟩
    · obtain ⟨t, ht, hsim⟩ := sim_leave hc hargs hleave
      exact ⟨t, hstep ht, hsim⟩
    · refine ⟨_, hstep ?_, Sim.argument (G := []) extra hc hargs⟩
      rw [Reading.close]
      · rfl
      · exact hcomma
      · exact hparen

/-- A step where nothing but parentheses stands around what is no operand. -/
theorem sim_outer {mode : Phrase → Mode} (hK : ∀ f ∈ K, f = .paren)
    (hmode : mode = .primary ∨ mode = .after) (h : X.OuterStandsIn Y)
    (hnext : Reading.next ⟨K, mode X, r⟩ = some s) (hs : s.Passes) :
    ∃ t, Reaches ⟨K, mode Y, r⟩ t ∧ Sim s t := by
  rcases hmode with rfl | rfl
  · obtain ⟨rfl, hstep⟩ | ⟨f, r', hf, rfl, hstep⟩ := exists_modifier hnext
    · exact ⟨_, Reaches.step (hstep K Y), .outer hK (Or.inr rfl) h⟩
    · exact ⟨_, Reaches.step (hstep K Y), .outer hK (Or.inl rfl) (outerStandsIn_modifier hf h)⟩
  · cases hshift : shift? (pendingLevel K) r with
    | some op =>
      -- no operator comes behind it
      rw [next_after_of_shift hshift] at hnext
      obtain ⟨⟨m, r'⟩, -, rfl⟩ := toOption_map_eq_some_iff.mp hnext
      obtain ⟨a, ha, hoperand⟩ := hs.frames (.operator op m X) List.mem_cons_self
      obtain ⟨_, -, hlike⟩ := h a ha
      exact absurd hoperand (by simp [hlike.type])
    | none =>
      rw [next_after_of_stop hshift] at hnext
      cases K with
      | nil => cases hnext
      | cons f K =>
        obtain rfl := hK f List.mem_cons_self
        obtain ⟨us, rfl, rfl⟩ := close_paren hnext
        exact ⟨_, Reaches.step ((next_after_of_stop hshift).trans rfl),
          .outer (fun g hg => hK g (List.mem_cons_of_mem _ hg)) (Or.inl rfl) (outerStandsIn_paren h)⟩

/-- **The machine keeps standing over both queries**, as long as what it reads passes the checks. -/
theorem sim_next {s' : Reading} (h : Sim s t) (hnext : s.next = some s') (hs : s'.Passes) :
    ∃ t', Reaches t t' ∧ Sim s' t' := by
  cases h with
  | primary hseam hfacing => exact sim_primary hseam hfacing hnext
  | after hseam hfacing => exact sim_after hseam hfacing hnext hs
  | operator op hm hseam hfacing hX => exact sim_operator hm hseam hfacing hX hnext
  | argument extra hc hargs => exact sim_argument hc hargs hnext
  | outer hK hmode hstands => exact sim_outer hK hmode hstands hnext hs

/-- At the end of the query the other one is accepted too. -/
theorem sim_end {E : Phrase} {R : List Token} (h : Sim ⟨[], .after E, R⟩ t) (hE : E.Passes)
    (hstops : shift? 0 R = none) : ∃ E', Reaches t ⟨[], .after E', R⟩ ∧ E'.Passes := by
  generalize hs : (⟨[], .after E, R⟩ : Reading) = s at h
  have hframes := congrArg Reading.frames hs
  cases h with
  | primary _ _ => exact absurd (congrArg Reading.mode hs) (by simp)
  | operator _ _ _ _ _ => exact absurd hframes (by simp)
  | argument _ _ _ => exact absurd hframes (by simp)
  | @outer K mode X Y r _ hmode hstands =>
    rcases hmode with rfl | rfl
    · exact absurd (congrArg Reading.mode hs) (by simp)
    · cases hs
      obtain ⟨a, ha⟩ := hE
      obtain ⟨b, hb, -⟩ := hstands a ha
      exact ⟨Y, Relation.ReflTransGen.refl, b, hb⟩
  | @after K F L X Y r hseam hfacing =>
    obtain ⟨rfl, rfl⟩ := List.append_eq_nil_iff.mp hframes.symm
    cases hs
    cases hfacing with
    | alone _ hL hstands =>
      subst hL
      obtain ⟨a, ha⟩ := hE
      obtain ⟨b, hb, -⟩ := hstands a ha
      exact ⟨Y, Relation.ReflTransGen.refl, b, hb⟩
    | apart _ hL hoperand hY =>
      have hX := hoperand.resolve_left (by simp)
      obtain ⟨Y', hY', hreaches⟩ := reaches_base hseam hL (hY (hX hE)) hstops
      exact ⟨Y', by rwa [List.append_nil] at hreaches ⊢, hY'.passesAsOperand.passes⟩

/-! ## 4. Queries that are accepted -/

/-- **A query that is accepted**: its tokens make a phrase that passes the checks. -/
def Accepted (ts : List Token) : Prop := ∃ p, ofTokens ts = .ok (some p) ∧ p.Passes

/-- A run of the machine over a query that is accepted. -/
structure AcceptingRun (ts : List Token) (E : Phrase) (R : List Token) : Prop where
  reaches : Reaches (Reading.start ts) ⟨[], .after E, R⟩
  rest : R = [] ∨ R = [.finish]
  passes : E.Passes

theorem accepted_iff : Accepted ts ↔ ∃ E R, AcceptingRun ts E R := by
  constructor
  · rintro ⟨E, hE, hpasses⟩
    obtain ⟨R, hR, hreaches⟩ := ofTokens_eq_ok_iff.mp hE
    exact ⟨E, R, hreaches, hR, hpasses⟩
  · rintro ⟨E, R, hreaches, hR, hpasses⟩
    exact ⟨E, ofTokens_eq_ok_iff.mpr ⟨R, hR, hreaches⟩, hpasses⟩

theorem AcceptingRun.stops {E : Phrase} {R : List Token} (h : AcceptingRun ts E R) :
    shift? 0 R = none := by
  rcases h.rest with rfl | rfl <;> rfl

/-- Of two states on one run, one comes from the other. -/
theorem reaches_total {u : Reading} (hs : Reaches s t) (hu : Reaches s u) :
    Reaches t u ∨ Reaches u t :=
  Relation.ReflTransGen.total_of_right_unique
    (fun _ _ _ h₁ h₂ => Option.some.inj (h₁.symm.trans h₂)) hs hu

/-- All states on the run over a query that is accepted lead to its end. -/
theorem AcceptingRun.ends {E : Phrase} {R : List Token} (h : AcceptingRun ts E R)
    (hs : Reaches (Reading.start ts) s) : Reaches s ⟨[], .after E, R⟩ := by
  rcases reaches_total hs h.reaches with hend | hend
  · exact hend
  · rcases Relation.ReflTransGen.cases_head hend with rfl | ⟨t, hnext, -⟩
    · exact Relation.ReflTransGen.refl
    · have hstops : shift? (pendingLevel []) R = none := h.stops
      rw [next_after_of_stop hstops] at hnext
      cases hnext

theorem AcceptingRun.passes_of {E : Phrase} {R : List Token} (h : AcceptingRun ts E R)
    (hs : Reaches (Reading.start ts) s) : s.Passes :=
  passes_of_reaches (h.ends hs)
    ⟨by simp, by simp, fun e he => (by cases he; exact h.passes)⟩

/-- The machine stands over both queries up to their ends. -/
theorem accepted_of_sim {E : Phrase} {R : List Token} {ts' : List Token}
    (haccept : AcceptingRun ts E R) (hs : Reaches (Reading.start ts) s)
    (ht : Reaches (Reading.start ts') t) (h : Sim s t) : Accepted ts' := by
  have hsim : ∀ {s'}, Reaches s s' → ∃ t', Reaches (Reading.start ts') t' ∧ Sim s' t' := by
    intro s' hs'
    induction hs' with
    | refl => exact ⟨t, ht, h⟩
    | @tail s₁ s₂ hreaches hstep ih =>
      obtain ⟨t₁, ht₁, hsim⟩ := ih
      obtain ⟨t₂, ht₂, hsim⟩ :=
        sim_next hsim hstep (haccept.passes_of (hs.trans (hreaches.tail hstep)))
      exact ⟨t₂, ht₁.trans ht₂, hsim⟩
  obtain ⟨t', ht', hend⟩ := hsim (haccept.ends hs)
  obtain ⟨E', hE', hpasses⟩ := sim_end hend haccept.passes haccept.stops
  exact accepted_iff.mpr ⟨E', R, ht'.trans hE', haccept.rest, hpasses⟩

/-- **A run takes a front** of the tokens, and the same one from any tokens that go on alike.  If it takes
nothing and is a run at all, it ends behind an operand. -/
theorem reaches_front (h : Reaches s t) :
    ∃ w, s.rest = w ++ t.rest ∧ (w = [] → s = t ∨ ∃ e, t.mode = .after e) ∧
      ∀ r, t.GoesOn r → Reaches (s.withRest (w ++ r)) (t.withRest r) := by
  induction h using Relation.ReflTransGen.head_induction_on with
  | refl => exact ⟨[], rfl, fun _ => Or.inl rfl, fun r _ => Relation.ReflTransGen.refl⟩
  | @head s s₁ hstep _ ih =>
    obtain ⟨w₁, hw₁, hne, hfront⟩ := next_front hstep
    obtain ⟨w₂, hw₂, hend, hrun⟩ := ih
    refine ⟨w₁ ++ w₂, by rw [hw₁, hw₂, List.append_assoc], fun hnil => Or.inr ?_, fun r hr => ?_⟩
    · obtain ⟨rfl, rfl⟩ := List.append_eq_nil_iff.mp hnil
      by_contra hmode
      rcases hend rfl with rfl | hafter
      · exact hne (fun e he => hmode ⟨e, he⟩) rfl
      · exact hmode hafter
    · rw [List.append_assoc]
      refine (Reaches.step (hfront (w₂ ++ r) ?_)).trans (hrun r hr)
      -- the step before goes on alike too, as what is between is the same
      cases w₂ with
      | cons u w₂ => exact Or.inl (by rw [hw₂]; rfl)
      | nil =>
        rcases hend rfl with rfl | ⟨e, he⟩
        · exact hr
        · refine Or.inl ?_
          rw [hw₂]
          exact hr.sameHead (by simp [he])

/-- **Where the machine comes to over a run of tokens, and over the token in its place**, from behind the
tokens before both, with the tokens `w` in front. -/
structure Crossing (whole run back : List Token) (u : Token) (K : List Frame) (mode : Mode)
    (w : List Token) (s t : Reading) : Prop where
  reached : Reaches (Reading.start whole) ⟨K, mode, w ++ (run ++ back)⟩
  begins : w = [] → mode = .operand ∧ u.isFixed = false
  read : Reaches ⟨K, mode, w ++ (run ++ back)⟩ s
  other : Reaches ⟨K, mode, w ++ u :: back⟩ t
  sim : Sim s t

/-- **A token in the place of a run of tokens**: if the query with the run is accepted, so is that with
the token. -/
theorem Crossing.accepted {front run back w : List Token} {u : Token} {E : Phrase} {R : List Token}
    (h : Crossing (front ++ run ++ back) run back u K mode w s t)
    (haccept : AcceptingRun (front ++ run ++ back) E R) : Accepted (front ++ u :: back) := by
  obtain ⟨v, hv, -, hfront⟩ := reaches_front h.reached
  obtain rfl : front = v ++ w := by
    rw [List.append_assoc] at hv
    refine List.append_cancel_right (hv.trans ?_)
    rw [List.append_assoc]
  have hgoes : Reading.GoesOn ⟨K, mode, w ++ (run ++ back)⟩ (w ++ u :: back) := by
    cases w with
    | nil => exact Or.inr ⟨(h.begins rfl).1, u, back, rfl, (h.begins rfl).2⟩
    | cons v w => exact Or.inl rfl
  have hbegin := hfront _ hgoes
  rw [← List.append_assoc] at hbegin
  exact accepted_of_sim haccept (h.reached.trans h.read) (hbegin.trans h.other) h.sim

end PanelLint.Promql
