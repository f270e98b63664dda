import PanelLint.Promql.Check
/-!
# Checks that carry over from one phrase to another

Two phrases of the same build may differ in what their parts say: in a number, in a length of time,
in a name, or in that one has a name where the other has a number.  Here it is settled when the
checks of the second phrase succeed because those of the first one do.

* `CarriesOver` relates two computations that can fail; it passes through `bind`, which is how all
  checks are put together;
* `Like` is what the modifiers after an operand can see of it, and `OperandLike` what the checks
  around it see then;
* for each check there is a lemma: if its arguments are alike, it carries over.

The checks around a vector are looser than those around a scalar, save where a scalar is due.
-/

namespace PanelLint.Promql

open PanelLint.Number

/-! ## 1. Successes that carry over -/

section CarriesOver

variable {ε α β γ δ : Type} {R : α → β → Prop} {S : γ → δ → Prop}

/-- **A success carries over.**  Where the first computation has a result, the second one has a
related result. -/
def CarriesOver (R : α → β → Prop) (x : Except ε α) (y : Except ε β) : Prop :=
  ∀ a, x = .ok a → ∃ b, y = .ok b ∧ R a b

theorem carriesOver_ok {a : α} {b : β} (h : R a b) :
    CarriesOver (ε := ε) R (.ok a) (.ok b) := by
  intro a' ha
  cases ha
  exact ⟨b, rfl, h⟩

theorem carriesOver_error {e : ε} {y : Except ε β} : CarriesOver R (.error e) y := by
  intro a ha
  cases ha

theorem CarriesOver.bind {x : Except ε α} {y : Except ε β} {f : α → Except ε γ}
    {g : β → Except ε δ} (h : CarriesOver R x y)
    (hfg : ∀ a b, R a b → CarriesOver S (f a) (g b)) : CarriesOver S (x >>= f) (y >>= g) := by
  intro c hc
  cases x with
  | error e => cases hc
  | ok a =>
    obtain ⟨b, rfl, hab⟩ := h a rfl
    exact hfg a b hab c hc

theorem CarriesOver.map {x : Except ε α} {y : Except ε β} {f : α → γ} {g : β → δ}
    (h : CarriesOver R x y) (hfg : ∀ a b, R a b → S (f a) (g b)) :
    CarriesOver S (x.map f) (y.map g) := by
  intro c hc
  cases x with
  | error e => cases hc
  | ok a =>
    cases hc
    obtain ⟨b, rfl, hab⟩ := h a rfl
    exact ⟨g b, rfl, hfg a b hab⟩

theorem CarriesOver.mono {R' : α → β → Prop} {x : Except ε α} {y : Except ε β}
    (h : CarriesOver R x y) (hR : ∀ a b, R a b → R' a b) : CarriesOver R' x y := by
  intro a ha
  obtain ⟨b, hb, hab⟩ := h a ha
  exact ⟨b, hb, hR a b hab⟩

theorem carriesOver_self {x : Except ε α} : CarriesOver Eq x x := fun a ha => ⟨a, ha, rfl⟩

theorem CarriesOver.trivial {x : Except ε α} {y : Except ε β} (h : CarriesOver R x y) :
    CarriesOver (fun _ _ => True) x y := h.mono fun _ _ _ => True.intro

end CarriesOver

/-- A condition that does not hold anew is no new reason to refuse. -/
theorem carriesOver_refuseIf {c c' : Bool} {e e' : CheckError} (h : c = false → c' = false) :
    CarriesOver (fun _ _ => c = false) (refuseIf c e) (refuseIf c' e') := by
  cases c with
  | true => exact carriesOver_error
  | false =>
    rw [h rfl]
    exact carriesOver_ok rfl

/-! ## 2. What the checks see of an expression -/

/-- What `offset`, `@` and brackets may be put after. -/
inductive Holder
  | vector
  | matrix
  | subquery

/-- A selector or a subquery as the modifiers after it see it, with whether it has an offset and a
time yet. -/
structure Handle where
  holder : Holder
  offset : Bool
  time : Bool

/-- The handle of a selector or a subquery. -/
def Expr.handle? : Expr → Option Handle
  | .vector _ o t => some ⟨.vector, o.isSome, t.isSome⟩
  | .matrix _ o t _ => some ⟨.matrix, o.isSome, t.isSome⟩
  | .subquery _ o t _ _ => some ⟨.subquery, o.isSome, t.isSome⟩
  | _ => none

/-- A handle of the same kind that has no offset and no time but what the other one has. -/
structure Handle.Within (h' h : Handle) : Prop where
  holder : h'.holder = h.holder
  offset : h.offset = false → h'.offset = false
  time : h.time = false → h'.time = false

/-- The functions that accept a number outside their domain although they take a vector. -/
def domainFunctions : List String := ["exp", "ln", "log2", "log10"]

/-- **Expressions that look alike to the checks around them.**  A scalar may have become a vector,
if that is `loose`.  With `literal`, a number is still the same number unless it has. -/
structure OperandLike (loose : Prop) (literal : Bool) (e e' : Expr) : Prop where
  type : e'.type = e.type ∨ (loose ∧ e.type = .scalar ∧ e'.type = .vector)
  number : literal = true → ∀ x, e = .number x → e' = .number x ∨ e'.type = .vector

/-- **Expressions that look alike to the modifiers after them** too. -/
structure Like (loose : Prop) (literal : Bool) (e e' : Expr) : Prop
    extends OperandLike loose literal e e' where
  handle : ∀ h, e.handle? = some h → ∃ h', e'.handle? = some h' ∧ h'.Within h

variable {loose : Prop} {literal : Bool} {e e' : Expr}

theorem Handle.within_refl (h : Handle) : h.Within h := ⟨rfl, id, id⟩

theorem OperandLike.refl (e : Expr) : OperandLike loose literal e e :=
  ⟨Or.inl rfl, fun _ _ h => Or.inl h⟩

theorem Like.refl (e : Expr) : Like loose literal e e :=
  ⟨OperandLike.refl e, fun h hh => ⟨h, hh, h.within_refl⟩⟩

theorem OperandLike.type_of_ne_scalar (h : OperandLike loose literal e e')
    (he : e.type ≠ .scalar) : e'.type = e.type := by
  rcases h.type with ht | ⟨-, ht, -⟩
  · exact ht
  · exact absurd ht he

theorem OperandLike.scalar_of_scalar (h : OperandLike loose literal e e')
    (he : e'.type = .scalar) : e.type = .scalar := by
  rcases h.type with ht | ⟨-, -, ht⟩
  · exact ht.symm.trans he
  · exact absurd (ht.symm.trans he) (by simp)

theorem OperandLike.vector_of_vector (h : OperandLike loose literal e e')
    (he : e.type = .vector) : e'.type = .vector := by
  rw [h.type_of_ne_scalar (by simp [he]), he]

theorem OperandLike.isOperand (h : OperandLike loose literal e e')
    (he : e.type.isOperand = true) : e'.type.isOperand = true := by
  rcases h.type with ht | ⟨-, -, ht⟩
  · rw [ht]
    exact he
  · rw [ht]
    rfl

/-- What is alike in every way is alike where less is asked. -/
theorem OperandLike.weaken {loose' : Prop} {literal' : Bool} (h : OperandLike loose literal e e')
    (hloose : loose → loose') (hliteral : literal' = true → literal = true) :
    OperandLike loose' literal' e e' :=
  ⟨h.type.imp_right fun ⟨hl, ht⟩ => ⟨hloose hl, ht⟩, fun hl => h.number (hliteral hl)⟩

theorem Like.weaken {loose' : Prop} {literal' : Bool} (h : Like loose literal e e')
    (hloose : loose → loose') (hliteral : literal' = true → literal = true) :
    Like loose' literal' e e' :=
  ⟨h.toOperandLike.weaken hloose hliteral, h.handle⟩

/-- An expression without a handle that is no number is like any other of its type. -/
theorem like_of_type (ht : e'.type = e.type ∨ (loose ∧ e.type = .scalar ∧ e'.type = .vector))
    (hh : e.handle? = none) (hn : ∀ x, e ≠ .number x) : Like loose literal e e' :=
  ⟨⟨ht, fun _ x hx => absurd hx (hn x)⟩, fun h he => absurd (hh.symm.trans he) (by simp)⟩

theorem eq_vector_of_handle {o t : Bool} (h : e.handle? = some ⟨.vector, o, t⟩) :
    ∃ s a b, e = .vector s a b ∧ a.isSome = o ∧ b.isSome = t := by
  cases e with
  | vector s a b =>
    simp only [Expr.handle?, Option.some.injEq, Handle.mk.injEq, true_and] at h
    exact ⟨s, a, b, rfl, h⟩
  | _ => exact absurd h (by simp [Expr.handle?])

/-- The type of a selector or a subquery is told by its handle. -/
theorem type_of_handle {h : Handle} (he : e.handle? = some h) :
    e.type = if h.holder matches .vector then .vector else .matrix := by
  cases e with
  | vector s a b => cases he; rfl
  | matrix s a b r => cases he; rfl
  | subquery i a b r st => cases he; rfl
  | _ => exact absurd he (by simp [Expr.handle?])

/-- Selectors are alike if the handle of the second is within that of the first. -/
theorem like_of_handle {h h' : Handle} (he : e.handle? = some h) (he' : e'.handle? = some h')
    (hw : h'.Within h) : Like loose literal e e' := by
  refine ⟨⟨Or.inl ?_, ?_⟩, fun k hk => ⟨h', he', ?_⟩⟩
  · rw [type_of_handle he, type_of_handle he', hw.holder]
  · rintro - x rfl
    exact absurd he (by simp [Expr.handle?])
  · obtain rfl := Option.some.inj (he.symm.trans hk)
    exact hw

/-! ## 3. Checks of modifiers -/

theorem carriesOver_checkRange (h : Like loose literal e e') (range range' : Length) :
    CarriesOver (Like loose literal) (checkRange e range) (checkRange e' range') := by
  intro a ha
  unfold checkRange at ha
  split at ha
  · cases ha
  · cases ha
  · next s =>
    cases ha
    obtain ⟨⟨k, o, t⟩, hh, hw⟩ := h.handle _ rfl
    obtain rfl : k = .vector := hw.holder
    obtain rfl : o = false := hw.offset rfl
    obtain rfl : t = false := hw.time rfl
    obtain ⟨s', o, t, rfl, ho, ht⟩ := eq_vector_of_handle hh
    obtain rfl : o = none := by simpa using ho
    obtain rfl : t = none := by simpa using ht
    exact ⟨_, rfl, like_of_handle rfl rfl (Handle.within_refl _)⟩
  · cases ha

/-- A shift is put after a selector or a subquery without one, and that is then one with a shift. -/
theorem checkOffset_eq_ok {offset : Offset} {a : Expr} (h : checkOffset e offset = .ok a) :
    ∃ k, e.handle? = some k ∧ k.offset = false ∧ a.handle? = some { k with offset := true } := by
  unfold checkOffset at h
  split at h
  · cases h; exact ⟨_, rfl, rfl, rfl⟩
  · cases h; exact ⟨_, rfl, rfl, rfl⟩
  · cases h; exact ⟨_, rfl, rfl, rfl⟩
  all_goals cases h

theorem exists_checkOffset {k : Handle} (hk : e.handle? = some k) (ho : k.offset = false)
    (offset : Offset) :
    ∃ a, checkOffset e offset = .ok a ∧ a.handle? = some { k with offset := true } := by
  cases e with
  | vector s o t | matrix s o t r | subquery i o t r st =>
    cases hk
    obtain rfl : o = none := by simpa using ho
    exact ⟨_, rfl, rfl⟩
  | _ => cases hk

/-- A fixed time is put after a selector or a subquery without one, likewise. -/
theorem checkTime_eq_ok {time : Instant} {a : Expr} (h : checkTime e time = .ok a) :
    ∃ k, e.handle? = some k ∧ k.time = false ∧ a.handle? = some { k with time := true } := by
  unfold checkTime at h
  split at h
  · cases h; exact ⟨_, rfl, rfl, rfl⟩
  · cases h; exact ⟨_, rfl, rfl, rfl⟩
  · cases h; exact ⟨_, rfl, rfl, rfl⟩
  all_goals cases h

theorem exists_checkTime {k : Handle} (hk : e.handle? = some k) (ht : k.time = false)
    (time : Instant) :
    ∃ a, checkTime e time = .ok a ∧ a.handle? = some { k with time := true } := by
  cases e with
  | vector s o t | matrix s o t r | subquery i o t r st =>
    cases hk
    obtain rfl : t = none := by simpa using ht
    exact ⟨_, rfl, rfl⟩
  | _ => cases hk

theorem carriesOver_checkOffset (h : Like loose literal e e') (offset offset' : Offset) :
    CarriesOver (Like loose literal) (checkOffset e offset) (checkOffset e' offset') := by
  intro a ha
  obtain ⟨k, hk, ho, hka⟩ := checkOffset_eq_ok ha
  obtain ⟨k', hk', hw⟩ := h.handle k hk
  obtain ⟨b, hb, hkb⟩ := exists_checkOffset hk' (hw.offset ho) offset'
  exact ⟨b, hb, like_of_handle hka hkb ⟨hw.holder, id, hw.time⟩⟩

theorem carriesOver_checkTime (h : Like loose literal e e') (time time' : Instant) :
    CarriesOver (Like loose literal) (checkTime e time) (checkTime e' time') := by
  intro a ha
  obtain ⟨k, hk, ht, hka⟩ := checkTime_eq_ok ha
  obtain ⟨k', hk', hw⟩ := h.handle k hk
  obtain ⟨b, hb, hkb⟩ := exists_checkTime hk' (hw.time ht) time'
  exact ⟨b, hb, like_of_handle hka hkb ⟨hw.holder, hw.offset, id⟩⟩

/-- **An expression that is no operand, and another one in its place** where nothing asks for its type:
modifiers that may come after the first may come after the second. -/
structure OuterLike (e e' : Expr) : Prop where
  type : e.type.isOperand = false
  handle : ∀ k, e.handle? = some k → ∃ k', e'.handle? = some k' ∧
    (k.offset = false → k'.offset = false) ∧ (k.time = false → k'.time = false)

theorem outerLike_of_handle {a b : Expr} {k l l' : Handle} (h : e.type.isOperand = false)
    (hk : e.handle? = some k) (ha : a.handle? = some l) (hholder : l.holder = k.holder)
    (hb : b.handle? = some l') (ho : l.offset = false → l'.offset = false)
    (ht : l.time = false → l'.time = false) : OuterLike a b := by
  refine ⟨?_, fun m hm => ⟨l', hb, ?_⟩⟩
  · rwa [type_of_handle ha, hholder, ← type_of_handle hk]
  · obtain rfl := Option.some.inj (ha.symm.trans hm)
    exact ⟨ho, ht⟩

theorem OuterLike.checkOffset (h : OuterLike e e') (offset : Offset) :
    CarriesOver OuterLike (checkOffset e offset) (checkOffset e' offset) := by
  intro a ha
  obtain ⟨k, hk, ho, hka⟩ := checkOffset_eq_ok ha
  obtain ⟨k', hk', hoffset, htime⟩ := h.handle k hk
  obtain ⟨b, hb, hkb⟩ := exists_checkOffset hk' (hoffset ho) offset
  exact ⟨b, hb, outerLike_of_handle h.type hk hka rfl hkb id htime⟩

theorem OuterLike.checkTime (h : OuterLike e e') (time : Instant) :
    CarriesOver OuterLike (checkTime e time) (checkTime e' time) := by
  intro a ha
  obtain ⟨k, hk, ht, hka⟩ := checkTime_eq_ok ha
  obtain ⟨k', hk', hoffset, htime⟩ := h.handle k hk
  obtain ⟨b, hb, hkb⟩ := exists_checkTime hk' (htime ht) time
  exact ⟨b, hb, outerLike_of_handle h.type hk hka rfl hkb hoffset id⟩

/-- What a minus gives: an expression of the same type, and a number only from a number. -/
theorem checkMinus_eq_ok {f : Expr} (h : checkMinus e = .ok f) :
    f.type = e.type ∧ e.type.isOperand = true ∧ f.handle? = none ∧
      ∀ x, f = .number x → ∃ y, e = .number y ∧ x = y.neg := by
  unfold checkMinus at h
  split at h
  · next y =>
    cases h
    exact ⟨rfl, rfl, rfl, fun x hx => ⟨y, rfl, (Expr.number.inj hx).symm⟩⟩
  · cases h
  · cases h
  · split at h
    · next ht =>
      cases h
      refine ⟨rfl, ?_, rfl, fun x hx => absurd hx (by simp)⟩
      rcases ht with ht | ht <;> rw [ht] <;> rfl
    · cases h

theorem exists_checkMinus (h : e.type.isOperand = true) : ∃ f, checkMinus e = .ok f := by
  have ht : e.type = .scalar ∨ e.type = .vector := by
    cases he : e.type <;> simp [he, ValueType.isOperand] at h ⊢
  unfold checkMinus
  split
  · exact ⟨_, rfl⟩
  · exact absurd ht (by simp [Expr.type])
  · exact absurd ht (by simp [Expr.type])
  · rw [if_pos ht]
    exact ⟨_, rfl⟩

theorem carriesOver_checkMinus (h : OperandLike loose literal e e') :
    CarriesOver (Like loose literal) (checkMinus e) (checkMinus e') := by
  intro f hf
  obtain ⟨htype, hoperand, hhandle, hnumber⟩ := checkMinus_eq_ok hf
  obtain ⟨f', hf'⟩ := exists_checkMinus (h.isOperand hoperand)
  obtain ⟨htype', -, -, -⟩ := checkMinus_eq_ok hf'
  refine ⟨f', hf', ⟨?_, ?_⟩, fun k hk => absurd (hhandle.symm.trans hk) (by simp)⟩
  · rw [htype, htype']
    exact h.type
  · intro hl x hx
    obtain ⟨y, rfl, rfl⟩ := hnumber x hx
    rcases h.number hl y rfl with rfl | hv
    · left
      simpa [checkMinus] using hf'.symm
    · right
      rw [htype', hv]

/-! ## 4. Binary operators -/

/-- Modifiers that differ in names of labels at most, and not by a label that stands on both sides
of a match. -/
structure ModifierLike (m m' : Modifier) : Prop where
  bool : m'.bool = m.bool
  namesLabels : m'.namesLabels = m.namesLabels
  groups : m'.groups = m.groups
  shared : sharedLabel? m = none → sharedLabel? m' = none

theorem ModifierLike.refl (m : Modifier) : ModifierLike m m := ⟨rfl, rfl, rfl, id⟩

variable {l l' r r' : Expr} {m m' : Modifier}

/-- The types of the operands decide on the type of a binary expression. -/
theorem like_binary (hl : OperandLike loose false l l') (hr : OperandLike loose false r r')
    (op op' : Operator) (m m' : Modifier) :
    Like loose literal (.binary op m l r) (.binary op' m' l' r') := by
  refine like_of_type ?_ rfl (by simp)
  have hscalar : l'.type = .scalar ∧ r'.type = .scalar → l.type = .scalar ∧ r.type = .scalar :=
    fun h => ⟨hl.scalar_of_scalar h.1, hr.scalar_of_scalar h.2⟩
  simp only [Expr.type]
  by_cases h : l.type = .scalar ∧ r.type = .scalar
  · by_cases h' : l'.type = .scalar ∧ r'.type = .scalar
    · left
      rw [if_pos h, if_pos h']
    · right
      rw [if_pos h, if_neg h']
      refine ⟨?_, rfl, rfl⟩
      rcases hl.type with htl | ⟨hn, -, -⟩
      · rcases hr.type with htr | ⟨hn, -, -⟩
        · exact absurd ⟨htl.trans h.1, htr.trans h.2⟩ h'
        · exact hn
      · exact hn
  · left
    rw [if_neg h, if_neg fun h' => h (hscalar h')]

theorem carriesOver_checkBinary (hm : ModifierLike m m') (hl : OperandLike loose false l l')
    (hr : OperandLike loose false r r') (op : Operator) :
    CarriesOver (Like loose literal) (checkBinary op m l r) (checkBinary op m' l' r') := by
  unfold checkBinary
  refine (carriesOver_refuseIf ?_).bind fun _ _ _ => ?_
  · rw [hm.bool]
    exact id
  refine (carriesOver_refuseIf ?_).bind fun _ _ _ => ?_
  · rw [hm.bool]
    have hsl := hl.scalar_of_scalar
    have hsr := hr.scalar_of_scalar
    simp only [Bool.and_eq_false_iff, beq_eq_false_iff_ne]
    grind
  cases hs : sharedLabel? m with
  | some label => exact carriesOver_error
  | none =>
    rw [hm.shared hs]
    refine (carriesOver_refuseIf ?_).bind fun _ _ hset => ?_
    · have hsl := hl.scalar_of_scalar
      have hsr := hr.scalar_of_scalar
      simp only [Bool.and_eq_false_iff, Bool.or_eq_false_iff, beq_eq_false_iff_ne]
      grind
    refine (carriesOver_refuseIf ?_).bind fun _ _ _ => ?_
    · -- operands of a set operator are no scalars, so they keep their types
      have hvl : op.isSet = true → l'.type = l.type := fun ho =>
        hl.type_of_ne_scalar fun ht => by simp [ho, ht] at hset
      have hvr : op.isSet = true → r'.type = r.type := fun ho =>
        hr.type_of_ne_scalar fun ht => by simp [ho, ht] at hset
      rw [hm.groups]
      cases ho : op.isSet with
      | false => simp
      | true =>
        rw [hvl ho, hvr ho]
        exact id
    refine (carriesOver_refuseIf ?_).bind fun _ _ _ => ?_
    · simp only [Bool.or_eq_false_iff, Bool.not_eq_false']
      exact fun h => ⟨hl.isOperand h.1, hr.isOperand h.2⟩
    refine (carriesOver_refuseIf ?_).bind fun _ _ _ => ?_
    · rw [hm.namesLabels]
      have hvl := hl.vector_of_vector
      have hvr := hr.vector_of_vector
      simp only [Bool.and_eq_false_iff, Bool.not_eq_false', Bool.and_eq_true, beq_iff_eq]
      grind
    exact carriesOver_ok (like_binary hl hr op op _ _)

/-! ## 5. Calls and aggregations -/

/-- Whether the argument at an index has to be a scalar in calls of a function. -/
def scalarDue (name : String) (i : Nat) : Bool :=
  (Function.find? name).any fun f => f.paramAt? i == some .scalar

/-- Whether the argument of an aggregation at an index has to be a scalar. -/
def Aggregation.scalarDue (op : Aggregation) (i : Nat) : Bool :=
  i == 0 && op.parameter? == some .scalar

/-- Arguments that look alike, the first one having an index.  A scalar that is not due may have
become a vector, and with `literal` a number at the front stays the same. -/
inductive AllLike (due : Nat → Bool) : Nat → Bool → List Expr → List Expr → Prop
  | nil {i : Nat} {literal : Bool} : AllLike due i literal [] []
  | cons {i : Nat} {literal : Bool} {e e' : Expr} {es es' : List Expr} :
      OperandLike (due i = false) literal e e' → AllLike due (i + 1) false es es' →
      AllLike due i literal (e :: es) (e' :: es')

variable {due : Nat → Bool} {i : Nat} {es es' : List Expr}

theorem AllLike.length (h : AllLike due i literal es es') : es'.length = es.length := by
  induction h with
  | nil => rfl
  | cons _ _ ih => rw [List.length_cons, List.length_cons, ih]

/-- One more argument at the end. -/
theorem AllLike.concat (h : AllLike due i literal es es')
    (he : OperandLike (due (i + es.length) = false) (es.isEmpty && literal) e e') :
    AllLike due i literal (es ++ [e]) (es' ++ [e']) := by
  induction h with
  | nil => exact AllLike.cons he AllLike.nil
  | @cons i literal d d' es es' hd _ ih =>
    refine AllLike.cons hd (ih ?_)
    rw [List.length_cons, Nat.add_comm es.length, ← Nat.add_assoc] at he
    exact he.weaken id (by simp)

/-- Where no scalar is due, an argument of a type that is due keeps it. -/
theorem carriesOver_checkArguments {f : Function}
    (hdue : ∀ i, due i = false → f.paramAt? i ≠ some .scalar) (h : AllLike due i literal es es') :
    CarriesOver (fun _ _ => True) (checkArguments f i es) (checkArguments f i es') := by
  induction h with
  | nil => exact carriesOver_ok trivial
  | @cons i _ e e' es es' he _ ih =>
    simp only [checkArguments]
    cases hparam : f.paramAt? i with
    | none => exact ih
    | some t =>
      by_cases ht : e.type = t
      · rcases he.type with htype | ⟨hloose, hs, -⟩
        · simp only [if_pos ht, if_pos (htype.trans ht)]
          exact ih
        · exact absurd (by rw [hparam, ← ht, hs]) (hdue i hloose)
      · simp only [if_neg ht]
        exact carriesOver_error

/-- The functions that accept numbers outside their domain take one vector. -/
theorem params_of_domainFunction : ∀ name ∈ domainFunctions, ∀ f, Function.find? name = some f →
    f.params = [.vector] ∧ f.optional = false := by
  intro name hname f hf
  have hall : domainFunctions.all (fun name => (Function.find? name).all fun f =>
      f.params = [.vector] ∧ f.optional = false) = true := by decide +kernel
  have hone := List.all_eq_true.mp hall name hname
  rw [hf] at hone
  simpa using hone

theorem name_of_find {name : String} {f : Function} (h : Function.find? name = some f) :
    f.name = name := by
  have := List.find?_some h
  simpa using this

/-- A number outside the domain is accepted by certain functions only. -/
theorem outOfDomain_eq_true {name : String} (h : outOfDomain name es = true) :
    name ∈ domainFunctions ∧ ∃ x rest, es = .number x :: rest := by
  unfold outOfDomain at h
  split at h
  · next x rest =>
    refine ⟨?_, x, rest, rfl⟩
    by_cases hexp : name = "exp"
    · simp [domainFunctions, hexp]
    · rw [if_neg hexp] at h
      split at h
      · next hlog => rcases hlog with rfl | rfl | rfl <;> simp [domainFunctions]
      · cases h
  · cases h

/-- A function of one vector accepts every vector. -/
theorem checkArguments_vector {f : Function} (hf : f.params = [.vector]) (he : e.type = .vector) :
    checkArguments f 0 [e] = .ok () := by
  have hparam : f.paramAt? 0 = some .vector := by simp [Function.paramAt?, hf]
  simp only [checkArguments, hparam, he, if_true]

/-- Outside the domain of the function there is one argument, the number itself. -/
theorem eq_singleton_of_outOfDomain {name : String} {f : Function} {u : Unit}
    (hf : Function.find? name = some f) (hcount : checkCount f es.length = .ok u)
    (h : outOfDomain f.name es = true) :
    name ∈ domainFunctions ∧ f.params = [.vector] ∧ ∃ x, es = [.number x] := by
  obtain ⟨hname, x, rest, rfl⟩ := outOfDomain_eq_true h
  rw [name_of_find hf] at hname
  obtain ⟨hparams, hoptional⟩ := params_of_domainFunction name hname f hf
  refine ⟨hname, hparams, x, ?_⟩
  cases rest with
  | nil => rfl
  | cons e es => simp [checkCount, hparams, hoptional, refuseIf] at hcount

theorem carriesOver_checkCall {name : String} {f : Function} (hf : Function.find? name = some f)
    (h : AllLike (scalarDue name) 0 (domainFunctions.contains name) es es') :
    CarriesOver (Like loose literal) (checkCall f es) (checkCall f es') := by
  have hlike : Like loose literal (.call f.name f.result es) (.call f.name f.result es') :=
    like_of_type (Or.inl rfl) rfl (by simp)
  have hdue : ∀ i, scalarDue name i = false → f.paramAt? i ≠ some .scalar := by
    intro i hi
    simpa [scalarDue, hf] using hi
  have hargs := carriesOver_checkArguments hdue h
  unfold checkCall
  rw [h.length]
  cases hcount : checkCount f es.length with
  | error e => exact carriesOver_error
  | ok u =>
    show CarriesOver _ (if outOfDomain f.name es then _ else _)
      (if outOfDomain f.name es' then _ else _)
    by_cases hout' : outOfDomain f.name es' = true
    · rw [if_pos hout']
      split
      · exact carriesOver_ok hlike
      · intro a ha
        cases hc : checkArguments f 0 es with
        | error e => rw [hc] at ha; cases ha
        | ok v =>
          rw [hc] at ha
          exact carriesOver_ok hlike a ha
    rw [if_neg hout']
    by_cases hout : outOfDomain f.name es = true
    · rw [if_pos hout]
      obtain ⟨hname, hparams, x, rfl⟩ := eq_singleton_of_outOfDomain hf hcount hout
      obtain - | ⟨he, htail⟩ := h
      cases htail
      rcases he.number (by simpa using hname) x rfl with rfl | hv
      · exact absurd hout hout'
      · rw [checkArguments_vector hparams hv]
        exact carriesOver_ok hlike
    · rw [if_neg hout]
      exact hargs.bind fun _ _ _ => carriesOver_ok hlike

/-- A type that is due to an expression of an aggregation is kept, if it is no scalar or that may
not become a vector. -/
theorem carriesOver_checkAggregateType {t : ValueType} (h : OperandLike loose literal e e')
    (ht : loose → t ≠ .scalar) :
    CarriesOver (fun _ _ => True) (checkAggregateType t e) (checkAggregateType t e') := by
  unfold checkAggregateType
  by_cases he : e.type = t
  · rcases h.type with htype | ⟨hloose, hs, -⟩
    · rw [htype]
      exact (carriesOver_refuseIf id).mono fun _ _ _ => trivial
    · exact absurd (he.symm.trans hs) (ht hloose)
  · rw [refuseIf, if_pos (by simpa using he)]
    exact carriesOver_error

theorem carriesOver_checkAggregate (op : Aggregation) (g g' : Option Grouping)
    (h : AllLike op.scalarDue 0 false es es') :
    CarriesOver (Like loose literal) (checkAggregate op g es) (checkAggregate op g' es') := by
  have hlike : ∀ p p' i i', Like loose literal (.aggregate op g p i) (.aggregate op g' p' i') :=
    fun _ _ _ _ => like_of_type (Or.inl rfl) rfl (by simp)
  unfold checkAggregate
  refine (carriesOver_refuseIf ?_).bind fun _ _ _ => ?_
  · cases h with
    | nil => exact id
    | cons _ _ => exact fun _ => rfl
  cases hparameter : op.parameter? with
  | none =>
    cases h with
    | nil => exact carriesOver_error
    | cons he htail =>
      cases htail with
      | nil =>
        exact (carriesOver_checkAggregateType he fun _ => by simp).bind fun _ _ _ =>
          carriesOver_ok (hlike _ _ _ _)
      | cons _ _ => exact carriesOver_error
  | some t =>
    cases h with
    | nil => exact carriesOver_error
    | cons hp htail =>
      cases htail with
      | nil => exact carriesOver_error
      | cons he htail =>
        cases htail with
        | nil =>
          refine (carriesOver_checkAggregateType he fun _ => by simp).bind fun _ _ _ =>
            (carriesOver_checkAggregateType hp ?_).bind fun _ _ _ => carriesOver_ok (hlike _ _ _ _)
          rintro hdue rfl
          simp [Aggregation.scalarDue, hparameter] at hdue
        | cons _ _ => exact carriesOver_error

end PanelLint.Promql
