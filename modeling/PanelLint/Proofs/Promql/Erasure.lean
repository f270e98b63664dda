import PanelLint.Proofs.Promql.Respelling
import PanelLint.Proofs.Promql.Seconds
/-!
# Queries up to their numbers and durations

The checks look at few of the numbers of a query and at none of its lengths of time.  So a query in
which durations are spelled in another way passes them or not as the query does, and the two
expressions are the same but for their numbers and lengths.

* `Concur`: two computations that both fail, or both succeed with related results;
* `Expr.mapQuantities`: an expression with other numbers and lengths of time in it;
* `concur_check`: the checks of a phrase and of a respelled one have the same outcome.
-/

namespace PanelLint.Promql

open PanelLint.Number

/-! ## 1. Computations with the same outcome -/

section Concur

variable {ε ε' α β γ δ : Type} {R : α → β → Prop} {S : γ → δ → Prop}

/-- **The same outcome**: both computations fail, or both succeed with related results. -/
inductive Concur (R : α → β → Prop) : Except ε α → Except ε' β → Prop
  | error (e : ε) (e' : ε') : Concur R (.error e) (.error e')
  | ok {a : α} {b : β} : R a b → Concur R (.ok a) (.ok b)

variable {x : Except ε α} {y : Except ε' β}

/-- Two computations in a row have the same outcome if the first ones have, and the second ones on
related results. -/
theorem Concur.bind {f : α → Except ε γ} {g : β → Except ε' δ} (h : Concur R x y)
    (hfg : ∀ a b, R a b → Concur S (f a) (g b)) : Concur S (x >>= f) (y >>= g) := by
  cases h with
  | error e e' => exact Concur.error e e'
  | ok hab => exact hfg _ _ hab

theorem Concur.mono {T : α → β → Prop} (h : Concur R x y) (hRT : ∀ a b, R a b → T a b) :
    Concur T x y := by
  cases h with
  | error e e' => exact Concur.error e e'
  | ok hab => exact Concur.ok (hRT _ _ hab)

theorem Concur.map {f : α → γ} {g : β → δ} (h : Concur R x y) (hfg : ∀ a b, R a b → S (f a) (g b)) :
    Concur S (x.map f) (y.map g) := by
  cases h with
  | error e e' => exact Concur.error e e'
  | ok hab => exact Concur.ok (hfg _ _ hab)

/-- Both succeed or neither does. -/
theorem Concur.isOk_iff (h : Concur R x y) : (∃ a, x = .ok a) ↔ ∃ b, y = .ok b := by
  cases h with
  | error e e' => exact ⟨fun ⟨_, h⟩ => (nomatch h), fun ⟨_, h⟩ => (nomatch h)⟩
  | ok _ => exact ⟨fun _ => ⟨_, rfl⟩, fun _ => ⟨_, rfl⟩⟩

theorem Concur.related {a : α} {b : β} (h : Concur R x y) (hx : x = .ok a) (hy : y = .ok b) : R a b := by
  cases h with
  | error e e' => cases hx
  | ok hab =>
    cases hx
    cases hy
    exact hab

theorem concur_refl {R : α → α → Prop} (hR : ∀ a, R a a) (x : Except ε α) : Concur R x x := by
  cases x with
  | error e => exact Concur.error e e
  | ok a => exact Concur.ok (hR a)

/-- Results that are the same in one respect. -/
theorem concur_of_map_eq {f : α → γ} {x y : Except ε α} (h : x.map f = y.map f) :
    Concur (fun a b => f a = f b) x y := by
  cases x with
  | error e =>
    cases y with
    | error e' => exact Concur.error e e'
    | ok b => cases h
  | ok a =>
    cases y with
    | error e' => cases h
    | ok b => exact Concur.ok (Except.ok.inj h)

end Concur

/-! ## 2. Other numbers and lengths of time -/

/-- A fixed time with another number. -/
def Instant.mapSeconds (n : Binary64 → Binary64) : Instant → Instant
  | .fixed x => .fixed (n x)
  | .edge start => .edge start

/-- A shift by another length of time. -/
def Offset.mapLength (l : Length → Length) (o : Offset) : Offset := ⟨o.negative, l o.length⟩

mutual

/-- An expression with other numbers and lengths of time in it. -/
def Expr.mapQuantities (n : Binary64 → Binary64) (l : Length → Length) : Expr → Expr
  | .number x => .number (n x)
  | .string t => .string t
  | .vector s o t => .vector s (o.map (Offset.mapLength l)) (t.map (Instant.mapSeconds n))
  | .matrix s o t r =>
    .matrix s (o.map (Offset.mapLength l)) (t.map (Instant.mapSeconds n)) (l r)
  | .subquery e o t r step =>
    .subquery (e.mapQuantities n l) (o.map (Offset.mapLength l)) (t.map (Instant.mapSeconds n)) (l r)
      (step.map l)
  | .paren e => .paren (e.mapQuantities n l)
  | .neg e => .neg (e.mapQuantities n l)
  | .binary op m e e' => .binary op m (e.mapQuantities n l) (e'.mapQuantities n l)
  | .call name result es => .call name result (Expr.mapQuantitiesAll n l es)
  | .aggregate op g none e => .aggregate op g none (e.mapQuantities n l)
  | .aggregate op g (some p) e => .aggregate op g (some (p.mapQuantities n l)) (e.mapQuantities n l)

/-- Several expressions with other numbers and lengths of time in them. -/
def Expr.mapQuantitiesAll (n : Binary64 → Binary64) (l : Length → Length) : List Expr → List Expr
  | [] => []
  | e :: es => e.mapQuantities n l :: Expr.mapQuantitiesAll n l es

end

/-- **An expression without its numbers and lengths of time.** -/
def Expr.erased : Expr → Expr :=
  Expr.mapQuantities (fun _ => .zero false) fun _ => .milliseconds 0

/-- **An expression as the checks see it**: of its numbers only what they ask, and no lengths. -/
def Expr.coarse : Expr → Expr := Expr.mapQuantities Binary64.coarse fun _ => .milliseconds 0

/-- Several expressions as the checks see them. -/
def Expr.coarseAll : List Expr → List Expr :=
  Expr.mapQuantitiesAll Binary64.coarse fun _ => .milliseconds 0

section MapQuantities

variable (n n' : Binary64 → Binary64) (l l' : Length → Length)

theorem Instant.mapSeconds_mapSeconds (t : Option Instant) :
    (t.map (Instant.mapSeconds n)).map (Instant.mapSeconds n') = t.map (Instant.mapSeconds (n' ∘ n)) := by
  cases t with
  | none => rfl
  | some t => cases t <;> rfl

theorem Offset.mapLength_mapLength (o : Option Offset) :
    (o.map (Offset.mapLength l)).map (Offset.mapLength l') = o.map (Offset.mapLength (l' ∘ l)) := by
  cases o <;> rfl

mutual

/-- To change the quantities twice is to change them once. -/
theorem Expr.mapQuantities_mapQuantities : ∀ e : Expr,
    (e.mapQuantities n l).mapQuantities n' l' = e.mapQuantities (n' ∘ n) (l' ∘ l)
  | .number x => rfl
  | .string t => rfl
  | .vector s o t => by
    simp only [Expr.mapQuantities, Offset.mapLength_mapLength, Instant.mapSeconds_mapSeconds]
  | .matrix s o t r => by
    simp only [Expr.mapQuantities, Offset.mapLength_mapLength, Instant.mapSeconds_mapSeconds,
      Function.comp]
  | .subquery e o t r step => by
    simp only [Expr.mapQuantities, Offset.mapLength_mapLength, Instant.mapSeconds_mapSeconds,
      Expr.mapQuantities_mapQuantities e]
    rw [Option.map_map]
    rfl
  | .paren e => congrArg Expr.paren (Expr.mapQuantities_mapQuantities e)
  | .neg e => congrArg Expr.neg (Expr.mapQuantities_mapQuantities e)
  | .binary op m e e' => by
    simp only [Expr.mapQuantities, Expr.mapQuantities_mapQuantities e,
      Expr.mapQuantities_mapQuantities e']
  | .call name result es =>
    congrArg (Expr.call name result) (Expr.mapQuantitiesAll_mapQuantitiesAll es)
  | .aggregate op g none e => congrArg (Expr.aggregate op g none) (Expr.mapQuantities_mapQuantities e)
  | .aggregate op g (some p) e => by
    simp only [Expr.mapQuantities, Expr.mapQuantities_mapQuantities e,
      Expr.mapQuantities_mapQuantities p]

theorem Expr.mapQuantitiesAll_mapQuantitiesAll : ∀ es : List Expr,
    Expr.mapQuantitiesAll n' l' (Expr.mapQuantitiesAll n l es) =
      Expr.mapQuantitiesAll (n' ∘ n) (l' ∘ l) es
  | [] => rfl
  | e :: es => by
    simp only [Expr.mapQuantitiesAll, Expr.mapQuantities_mapQuantities e,
      Expr.mapQuantitiesAll_mapQuantitiesAll es]

end

/-- What the checks see of an expression is more than is left of it without its quantities. -/
theorem Expr.erased_coarse (e : Expr) : e.coarse.erased = e.erased :=
  Expr.mapQuantities_mapQuantities _ _ _ _ e

/-- **Types do not depend on quantities.** -/
theorem Expr.type_mapQuantities : ∀ e : Expr, (e.mapQuantities n l).type = e.type
  | .number x => rfl
  | .string t => rfl
  | .vector s o t => rfl
  | .matrix s o t r => rfl
  | .subquery e o t r step => rfl
  | .paren e => Expr.type_mapQuantities e
  | .neg e => Expr.type_mapQuantities e
  | .binary op m e e' => by
    simp only [Expr.mapQuantities, Expr.type, Expr.type_mapQuantities e, Expr.type_mapQuantities e']
  | .call name result es => rfl
  | .aggregate op g none e => rfl
  | .aggregate op g (some p) e => rfl

theorem Expr.length_mapQuantitiesAll (es : List Expr) :
    (Expr.mapQuantitiesAll n l es).length = es.length := by
  induction es with
  | nil => rfl
  | cons e es ih => rw [Expr.mapQuantitiesAll, List.length_cons, List.length_cons, ih]

end MapQuantities

theorem Expr.type_coarse (e : Expr) : e.coarse.type = e.type := Expr.type_mapQuantities _ _ e

/-! ## 3. The checks around expressions

Each check on an expression that is built already gives the same on what the checks see of it.
-/

theorem checkRange_coarse (e : Expr) (range : Length) :
    checkRange e.coarse (.milliseconds 0) = (checkRange e range).map Expr.coarse := by
  cases e with
  | vector s o t => cases o <;> cases t <;> rfl
  | aggregate op g p e => cases p <;> rfl
  | _ => rfl

theorem checkOffset_coarse (e : Expr) (o : Offset) :
    checkOffset e.coarse (o.mapLength fun _ => .milliseconds 0) =
      (checkOffset e o).map Expr.coarse := by
  cases e with
  | vector s o t => cases o <;> rfl
  | matrix s o t r => cases o <;> rfl
  | subquery e o t r step => cases o <;> rfl
  | aggregate op g p e => cases p <;> rfl
  | _ => rfl

theorem checkTime_coarse (e : Expr) (t : Instant) :
    checkTime e.coarse (t.mapSeconds Binary64.coarse) = (checkTime e t).map Expr.coarse := by
  cases e with
  | vector s o t => cases t <;> rfl
  | matrix s o t r => cases t <;> rfl
  | subquery e o t r step => cases t <;> rfl
  | aggregate op g p e => cases p <;> rfl
  | _ => rfl

/-- A minus sign looks at the type of its operand only. -/
theorem checkMinus_coarse (e : Expr) : checkMinus e.coarse = (checkMinus e).map Expr.coarse := by
  have hother : ∀ {e : Expr},
      (checkMinus e = if e.type = .scalar ∨ e.type = .vector then .ok (.neg e)
        else .error (.unaryOf e.type false)) →
      (checkMinus e.coarse = if e.coarse.type = .scalar ∨ e.coarse.type = .vector
        then .ok (.neg e.coarse) else .error (.unaryOf e.coarse.type false)) →
      checkMinus e.coarse = (checkMinus e).map Expr.coarse := by
    intro e h hcoarse
    rw [h, hcoarse, Expr.type_coarse]
    split <;> rfl
  cases e with
  | number x =>
    show (.ok (.number (Binary64.coarse x).neg) : Except CheckError Expr) =
      .ok (.number (Binary64.coarse x.neg))
    rw [Binary64.coarse_neg]
  | string t => rfl
  | matrix s o t r => rfl
  | aggregate op g p e => cases p <;> exact hother rfl rfl
  | _ => exact hother rfl rfl

/-- What is made of a result is made behind a refusal too. -/
theorem map_refuseIf {α β : Type} (f : α → β) (c : Bool) (err : CheckError)
    (k : Unit → Except CheckError α) :
    (refuseIf c err >>= k).map f = refuseIf c err >>= fun u => (k u).map f := by
  cases c <;> rfl

/-- **A binary operator** looks at types, and at what its operands select. -/
theorem checkBinary_coarse (op : Operator) (m : Modifier) (l r : Expr) :
    checkBinary op m l.coarse r.coarse = (checkBinary op m l r).map Expr.coarse := by
  unfold checkBinary
  simp only [Expr.type_coarse, map_refuseIf]
  cases sharedLabel? m with
  | some label => rfl
  | none =>
    simp only [map_refuseIf]
    rfl

/-- A function with a domain asks of a number whether it is in it, and this much of the number is kept. -/
theorem outOfDomain_coarse (name : String) (es : List Expr) :
    outOfDomain name (Expr.coarseAll es) = outOfDomain name es := by
  cases es with
  | nil => rfl
  | cons e es =>
    cases e with
    | number x =>
      show outOfDomain name (.number (Binary64.coarse x) :: _) = _
      simp only [outOfDomain, Binary64.isFinite_coarse, Binary64.nonPositive_coarse]
    | aggregate op g p e => cases p <;> rfl
    | _ => rfl

/-- The types of arguments, by induction on them. -/
theorem checkArguments_coarse (fn : Function) (i : Nat) (es : List Expr) :
    checkArguments fn i (Expr.coarseAll es) = checkArguments fn i es := by
  induction es generalizing i with
  | nil => rfl
  | cons e es ih =>
    show checkArguments fn i (e.coarse :: Expr.coarseAll es) = _
    simp only [checkArguments, Expr.type_coarse, ih]

/-- **A call** asks for types, and for the domain. -/
theorem checkCall_coarse (fn : Function) (es : List Expr) :
    checkCall fn (Expr.coarseAll es) = (checkCall fn es).map Expr.coarse := by
  unfold checkCall
  have hlength : (Expr.coarseAll es).length = es.length := Expr.length_mapQuantitiesAll _ _ es
  rw [outOfDomain_coarse, checkArguments_coarse, hlength]
  cases checkCount fn es.length with
  | error e => rfl
  | ok _ =>
    cases outOfDomain fn.name es with
    | true => rfl
    | false => cases checkArguments fn 0 es <;> rfl

theorem checkAggregateType_coarse (expected : ValueType) (e : Expr) :
    checkAggregateType expected e.coarse = checkAggregateType expected e := by
  rw [checkAggregateType, checkAggregateType, Expr.type_coarse]

theorem checkAggregate_coarse (op : Aggregation) (g : Option Grouping) (es : List Expr) :
    checkAggregate op g (Expr.coarseAll es) = (checkAggregate op g es).map Expr.coarse := by
  unfold checkAggregate
  have hlength : (Expr.coarseAll es).length = es.length := Expr.length_mapQuantitiesAll _ _ es
  rw [hlength]
  match es with
  | [] => rfl
  | [e] =>
    cases op.parameter? with
    | none =>
      show (checkAggregateType .vector e.coarse >>= _) = _
      rw [checkAggregateType_coarse]
      show _ = Except.map Expr.coarse (checkAggregateType .vector e >>= _)
      cases checkAggregateType .vector e <;> rfl
    | some t => rfl
  | [p, e] =>
    cases op.parameter? with
    | none => rfl
    | some t =>
      show (checkAggregateType .vector e.coarse >>= fun _ => checkAggregateType t p.coarse >>= _) = _
      rw [checkAggregateType_coarse, checkAggregateType_coarse]
      show _ = Except.map Expr.coarse
        (checkAggregateType .vector e >>= fun _ => checkAggregateType t p >>= _)
      cases checkAggregateType .vector e with
      | error err => rfl
      | ok _ => cases checkAggregateType t p <;> rfl
  | _ :: _ :: _ :: _ => cases op.parameter? <;> rfl

/-! ## 4. The checks of a respelled phrase -/

/-- The one spelling of all durations that are read, and of all that are not. -/
def plainSpelling (text : String) : String :=
  match readDuration text with
  | .ok _ => "5m"
  | .error _ => ""

/-- Expressions that look the same to the checks. -/
def SameCoarse (e e' : Expr) : Prop := e.coarse = e'.coarse

theorem readDuration_plain : readDuration "5m" = .ok 300000 := by decide +kernel

/-- A duration is read in the plain spelling if it is read in its own. -/
theorem readDuration_plainSpelling (text : String) :
    Concur (fun _ m => m = 300000) (readDuration text) (readDuration (plainSpelling text)) := by
  unfold plainSpelling
  cases readDuration text with
  | ok n =>
    rw [readDuration_plain]
    exact Concur.ok rfl
  | error e => exact Concur.error e _

/-- A span as a number: as seconds it is the same on both sides, as a duration both are read or neither.
-/
theorem concur_value (s : Span) :
    Concur (fun x y => Binary64.coarse x = Binary64.coarse y) s.value
      (s.respell plainSpelling).value := by
  cases s with
  | units text =>
    have h := readDuration_plainSpelling text
    simp only [Span.respell, Span.value]
    generalize hm : readDuration (plainSpelling text) = y at h
    cases hn : readDuration text with
    | error e =>
      rw [hn] at h
      cases h with
      | error _ e' => exact Concur.error _ _
    | ok n =>
      rw [hn] at h
      cases h with
      | ok _ => exact Concur.ok ((coarse_seconds hn).trans (coarse_seconds hm).symm)
  | seconds text =>
    exact concur_refl (R := fun x y => Binary64.coarse x = Binary64.coarse y) (fun _ => rfl) _

/-- A span as a length of time, likewise. -/
theorem concur_length (s : Span) :
    Concur (fun _ _ => True) s.length (s.respell plainSpelling).length := by
  cases s with
  | units text =>
    have h := readDuration_plainSpelling text
    simp only [Span.respell, Span.length]
    generalize readDuration text = x at h
    generalize readDuration (plainSpelling text) = y at h
    cases h with
    | error e e' => exact Concur.error _ _
    | ok _ => exact Concur.ok trivial
  | seconds text => exact concur_refl (R := fun _ _ => True) (fun _ => trivial) _

/-- A condition that is the same on both sides. -/
theorem concur_refuseIf {c c' : Bool} {err err' : CheckError} (h : c = c') :
    Concur (fun _ _ => True) (refuseIf c err) (refuseIf c' err') := by
  subst h
  cases c with
  | true => exact Concur.error _ _
  | false => exact Concur.ok trivial

/-- The time of an `@` has no duration in it. -/
theorem concur_time (t : TimePhrase) :
    Concur (fun a b => a.mapSeconds Binary64.coarse = b.mapSeconds Binary64.coarse) t.check
      (t.respell plainSpelling).check := by
  cases t with
  | edge start => exact Concur.ok rfl
  | fixed negative s =>
    refine (concur_value s).bind fun x y hxy => ?_
    have hsign : Binary64.coarse (if negative then x.neg else x) =
        Binary64.coarse (if negative then y.neg else y) := by
      cases negative with
      | false => exact hxy
      | true =>
        simp only [if_true]
        rw [Binary64.coarse_neg, Binary64.coarse_neg, hxy]
    refine (concur_refuseIf ?_).bind fun _ _ _ => Concur.ok (congrArg Instant.fixed hsign)
    rw [← Binary64.isFinite_coarse, ← Binary64.isExtreme_coarse, hsign, Binary64.isFinite_coarse,
      Binary64.isExtreme_coarse]

mutual

/-- **The checks of a phrase in the plain spelling** have the same outcome as its own, and the two
expressions look the same to the checks. -/
theorem concur_check : ∀ p : Phrase, Concur SameCoarse p.check (p.respell plainSpelling).check
  | .number s => (concur_value s).map fun _ _ h => congrArg Expr.number h
  | .string t => Concur.ok rfl
  | .vector name none => concur_refl (R := SameCoarse) (fun _ => rfl) _
  | .vector name (some ms) => concur_refl (R := SameCoarse) (fun _ => rfl) _
  | .paren p => (concur_check p).map fun _ _ h => congrArg Expr.paren h
  | .plus p => concur_check p
  | .minus p => (concur_check p).bind fun e e' h =>
    concur_of_map_eq (by rw [← checkMinus_coarse, h, checkMinus_coarse])
  | .binary op m l r => by
    refine (concur_check l).bind fun l l' hl => ?_
    refine (concur_refl (R := Eq) (fun _ => rfl) m.check).bind fun m m' hm => ?_
    refine (concur_check r).bind fun r r' hr => concur_of_map_eq ?_
    rw [← checkBinary_coarse, hm, hl, hr, checkBinary_coarse]
  | .call name ps extra => by
    simp only [Phrase.respell, Phrase.check]
    cases Function.find? name with
    | none => exact Concur.error _ _
    | some fn =>
      refine (concur_refuseIf rfl).bind fun _ _ _ => ?_
      refine (concur_checkAll ps).bind fun es es' h => concur_of_map_eq ?_
      rw [← checkCall_coarse, h, checkCall_coarse]
  | .aggregate op g ps extra => by
    refine (concur_refl (R := Eq) (fun _ => rfl) (checkGrouping g)).bind fun g g' hg => ?_
    refine (concur_refuseIf rfl).bind fun _ _ _ => ?_
    refine (concur_checkAll ps).bind fun es es' h => concur_of_map_eq ?_
    rw [← checkAggregate_coarse, hg, h, checkAggregate_coarse]
  | .range p s => by
    refine (concur_check p).bind fun e e' h => ?_
    refine (concur_length s).bind fun x y _ => concur_of_map_eq ?_
    rw [← checkRange_coarse, h, checkRange_coarse]
  | .noRange p => Concur.error _ _
  | .subquery p s step => by
    refine (concur_check p).bind fun e e' h => ?_
    refine (concur_length s).bind fun x y _ => ?_
    have htype : e.type = e'.type := by rw [← Expr.type_coarse, h, Expr.type_coarse]
    have hrest : ∀ st st' : Option Length, st.isSome = st'.isSome → Concur SameCoarse
        (refuseIf (e.type != .vector) (.subqueryOf e.type) >>= fun _ =>
          .ok (.subquery e none none x st))
        (refuseIf (e'.type != .vector) (.subqueryOf e'.type) >>= fun _ =>
          .ok (.subquery e' none none y st')) := by
      intro st st' hst
      refine (concur_refuseIf (by rw [htype])).bind fun _ _ _ => Concur.ok ?_
      show Expr.subquery e.coarse none none _ (st.map _) = Expr.subquery e'.coarse none none _ _
      rw [h]
      cases st <;> cases st' <;> first | rfl | cases hst
    cases step with
    | none => exact hrest none none rfl
    | some s =>
      exact ((concur_length s).map (S := fun st st' => st.isSome = st'.isSome)
        fun _ _ _ => rfl).bind hrest
  | .offset p negative s => by
    refine (concur_check p).bind fun e e' h => ?_
    refine (concur_length s).bind fun x y _ => concur_of_map_eq ?_
    rw [← checkOffset_coarse, h]
    exact checkOffset_coarse e' ⟨negative, y⟩
  | .noOffset p => Concur.error _ _
  | .atTime p t => by
    refine (concur_check p).bind fun e e' h => ?_
    refine (concur_time t).bind fun x y hxy => concur_of_map_eq ?_
    rw [← checkTime_coarse, h, hxy, checkTime_coarse]
  | .noTime p => Concur.error _ _

theorem concur_checkAll : ∀ ps : List Phrase,
    Concur (fun es es' => Expr.coarseAll es = Expr.coarseAll es') (Phrase.checkAll ps)
      (Phrase.checkAll (Phrase.respellAll plainSpelling ps))
  | [] => Concur.ok rfl
  | p :: ps => by
    refine (concur_check p).bind fun e e' h => ?_
    refine (concur_checkAll ps).bind fun es es' hs => Concur.ok ?_
    exact congrArg₂ List.cons h hs

end

/-! ## 5. Queries whose durations differ -/

/-- Rows of tokens that are the same in the plain spelling of their durations. -/
def SamePlain (ts ts' : List Token) : Prop :=
  ts.map (Token.respell plainSpelling) = ts'.map (Token.respell plainSpelling)

/-- Such rows make phrases that are the same in the plain spelling, or none. -/
theorem concur_ofTokens {ts ts' : List Token} (h : SamePlain ts ts') :
    Concur (fun p p' : Option Phrase =>
        p.map (Phrase.respell plainSpelling) = p'.map (Phrase.respell plainSpelling))
      (Phrase.ofTokens ts) (Phrase.ofTokens ts') := by
  refine concur_of_map_eq ?_
  rw [← Phrase.ofTokens_respell, ← Phrase.ofTokens_respell, h]

/-- **Texts whose tokens differ in durations are both queries or both none**, and as queries they are
the same but for numbers and lengths of time. -/
theorem concur_parse {text text' : List Char}
    (h : Concur SamePlain (Lexer.tokens text) (Lexer.tokens text')) :
    Concur (fun e e' => e.erased = e'.erased) (parse text) (parse text') := by
  unfold parse
  generalize Lexer.tokens text = x at h
  generalize Lexer.tokens text' = y at h
  cases h with
  | error e e' => exact Concur.error _ _
  | @ok ts ts' hts =>
    have hphrase := concur_ofTokens hts
    dsimp only
    generalize Phrase.ofTokens ts = x at hphrase
    generalize Phrase.ofTokens ts' = y at hphrase
    cases hphrase with
    | error e e' => cases e <;> cases e' <;> exact Concur.error _ _
    | @ok p p' hp =>
      cases p with
      | none =>
        cases p' with
        | none => exact Concur.error _ _
        | some p' => cases hp
      | some p =>
        cases p' with
        | none => cases hp
        | some p' =>
          have hcheck := concur_check p
          have hcheck' := concur_check p'
          rw [Option.some.inj hp] at hcheck
          dsimp only
          generalize p.check = x at hcheck
          generalize p'.check = y at hcheck'
          generalize (Phrase.respell plainSpelling p').check = z at hcheck hcheck'
          cases hcheck with
          | error e e' =>
            cases hcheck' with
            | error e₁ _ => exact Concur.error _ _
          | ok hab =>
            cases hcheck' with
            | ok hab' =>
              refine Concur.ok ?_
              rw [← Expr.erased_coarse, hab, ← hab', Expr.erased_coarse]

end PanelLint.Promql
