import PanelLint.Proofs.Promql.Alongside
/-!
# Lists of labels

The labels of a grouping, of a match and of a group stand in parentheses, with commas between them.  No
check refuses a list for a label that is left out, as long as another one stays.

* `readLabels_trim`: a list from which labels behind another one are left out;
* `OpensLabels`: where the machine takes such a list with its next step;
* `exists_next_trimmed`: then it takes the shorter list too, and stands over both queries behind it.
-/

namespace PanelLint.Promql

open Phrase

variable {K : List Frame} {mode : Mode} {s : Reading} {l : String}
  {t : Token} {ts ls more back r m w : List Token}

/-! ## 1. Shorter lists -/

/-- Labels with a comma behind each of them. -/
def isLabelsFront : List Token → Bool
  | [] => true
  | t :: .comma :: ts => (label? t).isSome && isLabelsFront ts
  | _ => false

/-- Labels with a comma before each of them. -/
def isLabelsBack : List Token → Bool
  | [] => true
  | .comma :: t :: ts => (label? t).isSome && isLabelsBack ts
  | _ => false

/-- Labels at the front of a list are put before those that follow. -/
theorem exists_labels_front (hls : isLabelsFront ls = true) : ∃ ks : List String, ks ≠ [] ∧
    ∀ t, label? t = some l → ∀ ts, readLabelsRest (.comma :: (ls ++ t :: ts)) =
      (readLabelsRest ts).map fun p => (ks ++ p.1, p.2) := by
  fun_induction isLabelsFront ls with
  | case1 => exact ⟨[l], by simp, fun _ ht ts => readLabelsRest_label ht⟩
  | case2 t ls ih =>
    rw [Bool.and_eq_true] at hls
    obtain ⟨k, hk⟩ := Option.isSome_iff_exists.mp hls.1
    obtain ⟨ks, -, hks⟩ := ih hls.2
    refine ⟨k :: ks, by simp, fun u hu ts => ?_⟩
    have hread := hks u hu ts
    rw [List.cons_append, List.cons_append, readLabelsRest_label hk, hread]
    cases readLabelsRest ts <;> rfl
  | case3 => cases hls

/-- The same of a whole list. -/
theorem exists_labels_list (hls : isLabelsFront ls = true) : ∃ ks : List String, ks ≠ [] ∧
    ∀ t, label? t = some l → ∀ ts, readLabels (.leftParen :: (ls ++ t :: ts)) =
      (readLabelsRest ts).map fun p => (ks ++ p.1, p.2) := by
  cases ls with
  | nil => exact ⟨[l], by simp, fun _ ht ts => readLabels_label ts ht⟩
  | cons t ls =>
    cases ls with
    | nil => cases hls
    | cons u ls =>
      obtain ⟨rfl, hfront⟩ : u = .comma ∧ ((label? t).isSome && isLabelsFront ls) = true := by
        unfold isLabelsFront at hls
        split at hls
        · next heq => cases heq
        · next heq => cases heq; exact ⟨rfl, hls⟩
        · cases hls
      rw [Bool.and_eq_true] at hfront
      obtain ⟨k, hk⟩ := Option.isSome_iff_exists.mp hfront.1
      obtain ⟨ks, -, hks⟩ := exists_labels_front (l := l) hfront.2
      refine ⟨k :: ks, by simp, fun u hu ts => ?_⟩
      have hread := hks u hu ts
      rw [List.cons_append, List.cons_append, readLabels_label _ hk, hread]
      cases readLabelsRest ts <;> rfl

/-- Labels are passed over up to those that stay. -/
theorem readLabelsRest_trim {xs : List String} (hmore : isLabelsBack more = true)
    (h : readLabelsRest (more ++ back) = .ok (xs, r)) :
    ∃ xs', readLabelsRest back = .ok (xs', r) ∧ xs' ⊆ xs := by
  fun_induction isLabelsBack more generalizing xs with
  | case1 => exact ⟨xs, h, List.Subset.refl xs⟩
  | case2 t more ih =>
    rw [Bool.and_eq_true] at hmore
    obtain ⟨k, hk⟩ := Option.isSome_iff_exists.mp hmore.1
    rw [List.cons_append, List.cons_append, readLabelsRest_label hk] at h
    obtain ⟨⟨ks, r'⟩, hks, heq⟩ := exists_of_map_eq_ok h
    cases heq
    obtain ⟨xs', hxs', hsub⟩ := ih hmore.2 hks
    exact ⟨xs', hxs', List.subset_cons_of_subset k hsub⟩
  | case3 => cases hmore

/-- **A list from which labels are left out** has some of the labels of the whole one. -/
theorem readLabels_trim {xs : List String} (hls : isLabelsFront ls = true)
    (ht : label? t = some l) (hmore : isLabelsBack more = true)
    (h : readLabels (.leftParen :: (ls ++ t :: (more ++ back))) = .ok (xs, r)) :
    ∃ xs', readLabels (.leftParen :: (ls ++ .identifier l :: back)) = .ok (xs', r) ∧ xs' ⊆ xs ∧
      xs'.isEmpty = xs.isEmpty ∧ r.length ≤ back.length := by
  obtain ⟨ks, hne, hks⟩ := exists_labels_list (l := l) hls
  rw [hks t ht] at h
  obtain ⟨⟨ys, r'⟩, hys, heq⟩ := exists_of_map_eq_ok h
  cases heq
  obtain ⟨ys', hys', hsub⟩ := readLabelsRest_trim hmore hys
  obtain ⟨v, rfl, -⟩ := takesFront_labelsRest _ _ _ hys'
  obtain ⟨k, ks, rfl⟩ := List.exists_cons_of_ne_nil hne
  refine ⟨k :: ks ++ ys', ?_, ?_, rfl, by simp⟩
  · rw [hks _ rfl, hys']
    rfl
  · exact List.append_subset.mpr ⟨List.subset_append_left _ _,
      List.subset_append_of_subset_right _ hsub⟩

/-! ## 2. Where a list is read -/

/-- The words before the labels of a match. -/
inductive OpensMatch : List Token → Prop
  | plain (on : Bool) (text : String) : OpensMatch [.keyword (.matching on) text]
  | bool (on : Bool) (text text' : String) :
      OpensMatch [.keyword .bool text, .keyword (.matching on) text']

/-- **Tokens before a list of labels** that the machine takes with it in one step: the words of a
grouping, before or behind the arguments, or those of a match or of its group behind an operator. -/
inductive OpensLabels : List Frame → Mode → List Token → Prop
  | grouping {K : List Frame} (op : Aggregation) (keeps : Bool) (text text' : String) :
      OpensLabels K .operand [.keyword (.aggregation op) text, .keyword (.grouping keeps) text']
  | behind {K : List Frame} (op : Aggregation) (keeps : Bool) (before : List Phrase) (extra : Bool)
      (e : Phrase) (text : String) : OpensLabels (.argument (.aggregate op none) before extra :: K)
        (.after e) [.rightParen, .keyword (.grouping keeps) text]
  | matching {K : List Frame} {t : Token} {m : List Token} (e : Phrase) :
      (shift? (pendingLevel K) [t]).isSome = true → OpensMatch m → OpensLabels K (.after e) (t :: m)
  | group {K : List Frame} {t : Token} {m list : List Token} {labels : List String} (e : Phrase)
      (left : Bool) (text : String) : (shift? (pendingLevel K) [t]).isSome = true → OpensMatch m →
      readLabels list = .ok (labels, []) →
      OpensLabels K (.after e) (t :: (m ++ (list ++ [.keyword (.groupSide left) text])))

theorem OpensLabels.two_le (h : OpensLabels K mode w) : 2 ≤ w.length := by
  cases h with
  | grouping => simp
  | behind => simp
  | matching _ _ hm => cases hm <;> simp
  | group _ _ _ _ hm _ => cases hm <;> simp

theorem exists_readMatching (h : OpensMatch m) :
    ∃ bool on, ∀ ts, readModifier (m ++ ts) = readMatching bool on ts := by
  cases h with
  | plain on _ => exact ⟨false, on, fun _ => rfl⟩
  | bool on _ _ => exact ⟨true, on, fun _ => rfl⟩

theorem readMatching_trim {bool on : Bool} {x : ModifierPhrase} (hls : isLabelsFront ls = true)
    (ht : label? t = some l) (hmore : isLabelsBack more = true)
    (h : readMatching bool on (.leftParen :: (ls ++ t :: (more ++ back))) = .ok (x, r)) :
    ∃ x', readMatching bool on (.leftParen :: (ls ++ .identifier l :: back)) = .ok (x', r) ∧
      CarriesOver ModifierLike x.check x'.check ∧ r.length ≤ back.length := by
  obtain ⟨⟨ks, r₁⟩, hks, h⟩ := exists_of_bind_eq_ok h
  obtain ⟨ks', hks', hsub, hempty, hle⟩ := readLabels_trim hls ht hmore hks
  unfold readMatching
  rw [hks']
  dsimp only [Bind.bind, Except.bind] at h ⊢
  split at h
  · obtain ⟨⟨gs, r₂⟩, hgs, heq⟩ := exists_of_bind_eq_ok h
    cases heq
    obtain ⟨v, rfl, -⟩ := takesFront_groupLabels _ _ _ hgs
    refine ⟨_, by rw [hgs], carriesOver_modifier_of_subset _ _ _ hsub hempty
      (List.Subset.refl gs), ?_⟩
    rw [List.length_cons, List.length_append] at hle
    exact Nat.le_trans (Nat.le_add_left _ _) (Nat.le_of_succ_le hle)
  · cases h
    exact ⟨_, rfl, carriesOver_ungrouped_of_subset _ _ hsub hempty, hle⟩

theorem readMatching_trim_group {bool on left : Bool} {text : String} {list : List Token}
    {labels : List String} {x : ModifierPhrase} (hlist : readLabels list = .ok (labels, []))
    (hls : isLabelsFront ls = true) (ht : label? t = some l) (hmore : isLabelsBack more = true)
    (h : readMatching bool on (list ++ .keyword (.groupSide left) text ::
      .leftParen :: (ls ++ t :: (more ++ back))) = .ok (x, r)) :
    ∃ x', readMatching bool on (list ++ .keyword (.groupSide left) text ::
        .leftParen :: (ls ++ .identifier l :: back)) = .ok (x', r) ∧
      CarriesOver ModifierLike x.check x'.check ∧ r.length ≤ back.length := by
  obtain ⟨v, hv, hread⟩ := takesFront_labels _ _ _ hlist
  obtain rfl : list = v := hv.trans (List.append_nil v)
  have hgroup : ∀ us, readMatching bool on (list ++ .keyword (.groupSide left) text :: .leftParen :: us) =
      readLabels (.leftParen :: us) >>= fun p =>
        .ok (.matching bool on labels (some (left, p.1)), p.2) := fun us => by
    unfold readMatching
    rw [hread _ trivial]
    rfl
  rw [hgroup] at h ⊢
  obtain ⟨⟨gs, r₁⟩, hgs, heq⟩ := exists_of_bind_eq_ok h
  cases heq
  obtain ⟨gs', hgs', hsub, -, hle⟩ := readLabels_trim hls ht hmore hgs
  refine ⟨.matching bool on labels (some (left, gs')), ?_,
    carriesOver_modifier_of_subset _ _ _ (List.Subset.refl labels) rfl hsub, hle⟩
  rw [hgs']
  rfl

/-! ## 3. The machine over both lists -/

/-- The arguments of a call begin as those of one that stands in for it. -/
theorem sim_enter {c c' : Callee} (hc : c.StandsIn c') (h : Reading.enter K c ts = some s) :
    ∃ t, Reading.enter K c' ts = some t ∧ Sim s t := by
  rw [Reading.enter.eq_def] at h
  split at h
  · exact sim_leave hc allStandIn_nil h
  · next hnone =>
    cases h
    refine ⟨_, ?_, Sim.argument (G := []) false hc allStandIn_nil⟩
    rw [Reading.enter]
    · rfl
    · exact hnone

/-- A step behind an operand that takes an operator with other labels. -/
theorem exists_shift_trimmed {e : Phrase} {us us' : List Token}
    (hop : (shift? (pendingLevel K) [t]).isSome = true)
    (htrim : ∀ x r, readModifier us = .ok (x, r) → ∃ x', readModifier us' = .ok (x', r) ∧
      CarriesOver ModifierLike x.check x'.check ∧ r.length ≤ back.length)
    (hnext : Reading.next ⟨K, .after e, t :: us⟩ = some s) :
    ∃ t', Reading.next ⟨K, .after e, t :: us'⟩ = some t' ∧ s.rest.length ≤ back.length ∧
      (s.Passes → Sim s t') := by
  obtain ⟨op, hshift⟩ := Option.isSome_iff_exists.mp hop
  have hboth : ∀ vs, shift? (pendingLevel K) (t :: vs) = some op := fun _ => hshift
  rw [next_after_of_shift (hboth us)] at hnext
  obtain ⟨⟨x, r⟩, hx, rfl⟩ := toOption_map_eq_some_iff.mp hnext
  obtain ⟨x', hx', hcarries, hle⟩ := htrim x r hx
  refine ⟨⟨.operator op x' e :: K, .operand, r⟩, ?_, hle, fun hs => ?_⟩
  · rw [next_after_of_shift (hboth us')]
    exact toOption_map_eq_some_iff.mpr ⟨(x', r), hx', rfl⟩
  · exact Sim.operator (G := []) (F := []) (L := []) op hcarries (seam_nil K)
      (.alone (by simp) rfl (standsIn_refl e).operand)
      (hs.frames (.operator op x e) List.mem_cons_self)

/-- **A step that takes a list of labels** takes the shorter one too, and to the same tokens. -/
theorem exists_next_trimmed (h : OpensLabels K mode w) (hls : isLabelsFront ls = true)
    (ht : label? t = some l) (hmore : isLabelsBack more = true)
    (hnext : Reading.next ⟨K, mode, w ++ .leftParen :: (ls ++ t :: (more ++ back))⟩ = some s) :
    ∃ s', Reading.next ⟨K, mode, w ++ .leftParen :: (ls ++ .identifier l :: back)⟩ = some s' ∧
      s.rest.length ≤ back.length ∧ (s.Passes → Sim s s') := by
  cases h with
  | grouping op keeps text text' =>
    simp only [List.cons_append, List.nil_append, next_operand, Reading.nextOperand] at hnext ⊢
    split at hnext
    · next labels ts hlabels =>
      obtain ⟨labels', hlabels', hsub, -, hle⟩ := readLabels_trim hls ht hmore hlabels
      obtain ⟨s', hs', hsim⟩ :=
        sim_enter (.grouped op (carriesOver_grouping_of_subset keeps hsub)) hnext
      obtain ⟨-, v, rfl, -⟩ := enter_front hnext
      rw [hlabels']
      refine ⟨s', hs', ?_, fun _ => hsim⟩
      rw [List.length_cons, List.length_append] at hle
      omega
    · cases hnext
  | @behind K op keeps before extra e text =>
    have hclose : ∀ {us : List Token},
        Reading.next ⟨.argument (.aggregate op none) before extra :: K, .after e,
          [.rightParen, .keyword (.grouping keeps) text] ++ us⟩ =
        (readLabels us).toOption.map fun p =>
          ⟨K, .primary (.aggregate op (some ⟨keeps, p.1⟩) (before ++ [e]) extra), p.2⟩ := rfl
    rw [hclose] at hnext ⊢
    obtain ⟨⟨labels, r⟩, hlabels, rfl⟩ := toOption_map_eq_some_iff.mp hnext
    obtain ⟨labels', hlabels', hsub, -, hle⟩ := readLabels_trim hls ht hmore hlabels
    refine ⟨_, toOption_map_eq_some_iff.mpr ⟨_, hlabels', rfl⟩, hle, fun _ => ?_⟩
    refine Sim.primary (F := []) (L := []) (seam_nil K) (.alone (by simp) rfl ?_)
    exact standsIn_apply extra (.grouped op (carriesOver_grouping_of_subset keeps hsub))
      (allStandIn_refl _ _ _ _)
  | matching e hop hm =>
    obtain ⟨bool, on, hread⟩ := exists_readMatching hm
    rw [List.cons_append] at hnext ⊢
    refine exists_shift_trimmed hop (fun x r hx => ?_) hnext
    rw [hread] at hx ⊢
    exact readMatching_trim hls ht hmore hx
  | group e left text hop hm hlist =>
    obtain ⟨bool, on, hread⟩ := exists_readMatching hm
    rw [List.cons_append, List.append_assoc, List.append_assoc] at hnext ⊢
    refine exists_shift_trimmed hop (fun x r hx => ?_) hnext
    rw [hread] at hx ⊢
    exact readMatching_trim_group hlist hls ht hmore hx

end PanelLint.Promql
