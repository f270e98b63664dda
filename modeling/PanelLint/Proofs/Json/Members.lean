import PanelLint.Proofs.Dashboard.Records
/-!
# The members of JSON objects

A document may give an object a key several times, and its members in any order.  What the object is
then told by the last member of each key (`last?`): the canonical form of the object has just these
(`lookup_canonicalMembers`), and it is determined by them (`canonicalMembers_eq`), since members in
the order of their keys are determined by what is found under each key (`Ordered.eq_of_lookup`).

So the order of the members of an object is lost, and so are members that a later one of their key
overrides, at every depth (`Reordered.canonical_eq`).
-/

namespace PanelLint.Json.Value

variable {key k : String} {v v' w : Value} {ms ms' before before' : List (String × Value)}

/-! ## 1. The last member of a key -/

/-- **The member of a key**, the last one if there are several. -/
def last? (key : String) (ms : List (String × Value)) : Option Value := ms.reverse.lookup key

/-- The same of a value, if it is an object. -/
def lastMember? (key : String) : Value → Option Value
  | .object ms => last? key ms
  | _ => none

/-- The members but those of a key. -/
def erase (key : String) (ms : List (String × Value)) : List (String × Value) :=
  ms.filter (·.1 != key)

theorem lookup_cons_eq (k : String) (v : Value) (ms : List (String × Value)) (key : String) :
    List.lookup key ((k, v) :: ms) = if key = k then some v else ms.lookup key := by
  rw [List.lookup_cons]
  by_cases h : key = k
  · simp [h]
  · simp [h, beq_false_of_ne h]

theorem lookup_eq_none_iff_not_mem {β : Type} {ms : List (String × β)} :
    ms.lookup key = none ↔ key ∉ ms.map Prod.fst := by
  rw [List.lookup_eq_none_iff, List.mem_map]
  constructor
  · rintro h ⟨m, hm, rfl⟩
    simpa using h m hm
  · intro h m hm
    rw [bne_iff_ne]
    rintro rfl
    exact h ⟨m, hm, rfl⟩

theorem last?_eq_none_iff : last? key ms = none ↔ key ∉ ms.map Prod.fst := by
  rw [last?, lookup_eq_none_iff_not_mem, List.map_reverse, List.mem_reverse]

theorem last?_append (ms ms' : List (String × Value)) (key : String) :
    last? key (ms ++ ms') = (last? key ms').or (last? key ms) := by
  rw [last?, List.reverse_append, List.lookup_append]
  rfl

theorem last?_cons (k : String) (v : Value) (ms : List (String × Value)) (key : String) :
    last? key ((k, v) :: ms) = (last? key ms).or (if key = k then some v else none) := by
  rw [← List.singleton_append, last?_append]
  exact congrArg (last? key ms).or (lookup_cons_eq k v [] key)

theorem last?_cons_of_ne (h : key ≠ k) : last? key ((k, v) :: ms) = last? key ms := by
  rw [last?_cons, if_neg h, Option.or_none]

/-- The last member of a key is the one behind which the key does not come again. -/
theorem last?_of_not_mem {front back : List (String × Value)} (h : key ∉ back.map Prod.fst) :
    last? key (front ++ (key, v) :: back) = some v := by
  rw [last?_append, last?_cons, last?_eq_none_iff.mpr h, if_pos rfl]
  rfl

theorem last?_erase_self (key : String) (ms : List (String × Value)) :
    last? key (erase key ms) = none := by
  rw [last?_eq_none_iff, List.mem_map]
  rintro ⟨m, hm, rfl⟩
  simpa using (List.mem_filter.mp hm).2

theorem last?_erase_of_ne (h : key ≠ k) : last? key (erase k ms) = last? key ms := by
  induction ms with
  | nil => rfl
  | cons m ms ih =>
    obtain ⟨k', v⟩ := m
    rw [erase, List.filter_cons]
    split
    · rw [← erase, last?_cons, last?_cons, ih]
    · next hk =>
      obtain rfl : k' = k := by simpa using hk
      rw [← erase, ih, last?_cons_of_ne h]

/-- Where each key stands once, the last member of a key is the only one. -/
theorem last?_eq_lookup (h : (ms.map Prod.fst).Nodup) (key : String) :
    last? key ms = ms.lookup key := by
  have hreverse : (ms.reverse.map Prod.fst).Nodup := by
    rw [List.map_reverse]
    exact List.nodup_reverse.mpr h
  refine Option.ext fun v => ?_
  rw [last?, lookup_eq_some_iff_of_nodup hreverse, lookup_eq_some_iff_of_nodup h,
    List.mem_reverse]

/-! ## 2. What is found in a canonical form -/

theorem lookup_insert (key : String) (v : Value) (ms : List (String × Value)) (k : String) :
    (insert key v ms).lookup k = if k = key then some v else ms.lookup k := by
  induction ms with
  | nil => rw [insert, lookup_cons_eq]
  | cons m ms ih =>
    obtain ⟨k', u⟩ := m
    rw [insert, lookup_cons_eq]
    by_cases heq : key = k'
    · subst heq
      rw [if_pos rfl, lookup_cons_eq]
      split_ifs <;> rfl
    · rw [if_neg heq]
      by_cases hlt : key < k'
      · rw [if_pos hlt, lookup_cons_eq, lookup_cons_eq]
      · rw [if_neg hlt, lookup_cons_eq, ih]
        by_cases hk : k = k'
        · rw [if_pos hk, if_neg (fun h => heq (h.symm.trans hk)), if_pos hk]
        · rw [if_neg hk, if_neg hk]

/-- **Under each key a canonical form has the last member of that key.** -/
theorem lookup_canonicalMembers (ms before : List (String × Value)) (key : String) :
    (canonicalMembers before ms).lookup key =
      ((last? key ms).map canonical).or (before.lookup key) := by
  induction ms generalizing before with
  | nil =>
    rw [canonicalMembers]
    rfl
  | cons m ms ih =>
    obtain ⟨k, v⟩ := m
    rw [canonicalMembers, ih, lookup_insert, last?_cons]
    cases last? key ms with
    | some w => rfl
    | none => by_cases h : key = k <;> simp [h]

theorem ordered_canonicalMembers (ms : List (String × Value)) :
    Ordered (canonicalMembers [] ms) := by
  suffices h : ∀ before, Ordered before → Ordered (canonicalMembers before ms) from h [] .nil
  induction ms with
  | nil =>
    intro before hbefore
    rw [canonicalMembers]
    exact hbefore
  | cons m ms ih =>
    obtain ⟨k, v⟩ := m
    intro before hbefore
    rw [canonicalMembers]
    exact ih _ (hbefore.insert k v.canonical)

/-- **Ordered members are the same if the same is found under each key.** -/
theorem Ordered.eq_of_lookup (h : Ordered ms) (h' : Ordered ms')
    (hlookup : ∀ key, ms.lookup key = ms'.lookup key) : ms = ms' := by
  have hperm : ms.Perm ms' := by
    refine (List.perm_ext_iff_of_nodup h.nodup.of_map h'.nodup.of_map).mpr fun m => ?_
    rw [← lookup_eq_some_iff_of_nodup h.nodup, hlookup, lookup_eq_some_iff_of_nodup h'.nodup]
  exact hperm.eq_of_pairwise (fun m m' _ _ hlt hlt' => absurd (hlt.trans hlt') (lt_irrefl _)) h h'

/-- **A canonical form is determined by the last members.** -/
theorem canonicalMembers_eq
    (h : ∀ key, (last? key ms).map canonical = (last? key ms').map canonical) :
    canonicalMembers [] ms = canonicalMembers [] ms' := by
  refine (ordered_canonicalMembers ms).eq_of_lookup (ordered_canonicalMembers ms') fun key => ?_
  rw [lookup_canonicalMembers, lookup_canonicalMembers, h]

/-- **A member is taken out of a canonical form** where it is taken out of the members. -/
theorem exists_canonicalMembers_erase (h : last? key ms = some w) : ∃ front back,
    canonicalMembers [] ms = front ++ (key, w.canonical) :: back ∧ key ∉ front.map Prod.fst ∧
      canonicalMembers [] (erase key ms) = front ++ back := by
  have hlookup : (canonicalMembers [] ms).lookup key = some w.canonical := by
    rw [lookup_canonicalMembers, h]
    rfl
  obtain ⟨front, back, heq, hfront⟩ := List.lookup_eq_some_iff.mp hlookup
  have hfront' : key ∉ front.map Prod.fst := by
    rw [← lookup_eq_none_iff_not_mem, List.lookup_eq_none_iff]
    intro m hm
    simpa using hfront m hm
  have hordered := ordered_canonicalMembers ms
  rw [heq] at hordered
  have hsublist : (front ++ back).Sublist (front ++ (key, w.canonical) :: back) :=
    (List.sublist_cons_self _ _).append_left front
  have hback : back.lookup key = none := by
    rw [lookup_eq_none_iff_not_mem]
    have hnodup := hordered.nodup
    rw [List.map_append, List.map_cons, List.nodup_append] at hnodup
    exact (List.nodup_cons.mp hnodup.2.1).1
  refine ⟨front, back, heq, hfront', ?_⟩
  refine (ordered_canonicalMembers _).eq_of_lookup (hordered.sublist hsublist) fun k => ?_
  rw [lookup_canonicalMembers, List.lookup_append]
  by_cases hk : k = key
  · subst hk
    rw [last?_erase_self, hback, lookup_eq_none_iff_not_mem.mpr hfront']
    rfl
  · have hsame := congrArg (List.lookup k) heq
    rw [lookup_canonicalMembers, List.lookup_append, List.lookup_cons, beq_false_of_ne hk] at hsame
    rw [last?_erase_of_ne hk]
    exact hsame

/-! ## 3. Members that are alike -/

/-- Members with the same keys, whose values are related. -/
abbrev Alike (R : String → Value → Value → Prop) (ms ms' : List (String × Value)) : Prop :=
  List.Forall₂ (fun m m' => m.1 = m'.1 ∧ R m.1 m.2 m'.2) ms ms'

variable {R : String → Value → Value → Prop}

theorem alike_self (hR : ∀ key v, R key v v) (ms : List (String × Value)) : Alike R ms ms :=
  List.forall₂_same.mpr fun m _ => ⟨rfl, hR m.1 m.2⟩

/-- Members that differ in one place are alike if the values there are related. -/
theorem alike_set (hR : ∀ key v, R key v v) (hv : R key v v') (front back : List (String × Value)) :
    Alike R (front ++ (key, v) :: back) (front ++ (key, v') :: back) :=
  List.rel_append (alike_self hR front) (.cons ⟨rfl, hv⟩ (alike_self hR back))

theorem Alike.insert (h : Alike R ms ms') (hv : R key v v') :
    Alike R (insert key v ms) (insert key v' ms') := by
  induction h with
  | nil => exact .cons ⟨rfl, hv⟩ .nil
  | @cons m m' ms ms' hm hms ih =>
    obtain ⟨k, u⟩ := m
    obtain ⟨k', u'⟩ := m'
    obtain ⟨rfl, hu⟩ := hm
    rw [Value.insert, Value.insert]
    split_ifs
    · exact .cons ⟨rfl, hv⟩ hms
    · exact .cons ⟨rfl, hv⟩ (.cons ⟨rfl, hu⟩ hms)
    · exact .cons ⟨rfl, hu⟩ ih

/-- Alike members have alike canonical forms. -/
theorem Alike.canonicalMembers
    (h : Alike (fun key v v' => R key v.canonical v'.canonical) ms ms')
    (hbefore : Alike R before before') :
    Alike R (canonicalMembers before ms) (canonicalMembers before' ms') := by
  induction h generalizing before before' with
  | nil =>
    rw [Value.canonicalMembers, Value.canonicalMembers]
    exact hbefore
  | @cons m m' _ _ hm _ ih =>
    obtain ⟨k, v⟩ := m
    obtain ⟨k', v'⟩ := m'
    obtain ⟨rfl, hv⟩ := hm
    rw [Value.canonicalMembers, Value.canonicalMembers]
    exact ih (hbefore.insert hv)

theorem canonicalItems_eq (vs : List Value) : canonicalItems vs = vs.map canonical := by
  induction vs with
  | nil =>
    rw [canonicalItems]
    rfl
  | cons v vs ih => rw [canonicalItems, ih, List.map_cons]

/-! ## 4. Order and overridden members -/

/-- **Values that differ in the order of members or in overridden ones**, in one object somewhere.
The order may be any in which the last member of each key is the same, so any at all if no key
stands twice. -/
inductive Reordered : Value → Value → Prop
  | order {ms ms' : List (String × Value)} : ms.Perm ms' → (∀ key, last? key ms = last? key ms') →
      Reordered (.object ms) (.object ms')
  | overridden {front back : List (String × Value)} {key : String} {v : Value} :
      key ∈ back.map Prod.fst →
      Reordered (.object (front ++ (key, v) :: back)) (.object (front ++ back))
  | member {front back : List (String × Value)} {key : String} {v v' : Value} : Reordered v v' →
      Reordered (.object (front ++ (key, v) :: back)) (.object (front ++ (key, v') :: back))
  | item {front back : List Value} {v v' : Value} : Reordered v v' →
      Reordered (.array (front ++ v :: back)) (.array (front ++ v' :: back))

/-- Where no key stands twice, the members may stand in any order. -/
theorem reordered_of_perm (h : ms.Perm ms') (hnodup : (ms.map Prod.fst).Nodup) :
    Reordered (.object ms) (.object ms') := by
  refine .order h fun key => ?_
  have hnodup' : (ms'.map Prod.fst).Nodup := (h.map Prod.fst).nodup_iff.mp hnodup
  rw [last?_eq_lookup hnodup, last?_eq_lookup hnodup']
  refine Option.ext fun v => ?_
  rw [lookup_eq_some_iff_of_nodup hnodup, lookup_eq_some_iff_of_nodup hnodup', h.mem_iff]

/-- **The order of members and overridden ones are lost.** -/
theorem Reordered.canonical_eq (h : Reordered v v') : v.canonical = v'.canonical := by
  induction h with
  | order _ hlast =>
    rw [canonical, canonical]
    exact congrArg object (canonicalMembers_eq fun key => by rw [hlast])
  | @overridden front back key v hkey =>
    rw [canonical, canonical]
    refine congrArg object (canonicalMembers_eq fun k => ?_)
    rw [last?_append, last?_append, last?_cons]
    by_cases hk : k = key
    · subst hk
      cases hlast : last? k back with
      | none => exact absurd hkey (last?_eq_none_iff.mp hlast)
      | some w => rfl
    · rw [if_neg hk, Option.or_none]
  | @member front back key v v' _ ih =>
    rw [canonical, canonical]
    refine congrArg object (canonicalMembers_eq fun k => ?_)
    rw [last?_append, last?_append, last?_cons, last?_cons]
    by_cases hk : k = key
    · subst hk
      cases last? k back <;> simp [ih]
    · simp [hk]
  | item _ ih =>
    rw [canonical, canonical, canonicalItems_eq, canonicalItems_eq]
    simp [ih]

end PanelLint.Json.Value
