import Mathlib.Data.List.Nodup
import Mathlib.Data.String.Basic
import PanelLint.Dashboard.Schema
/-!
# Records in JSON values

An object gives a record its fields by their keys, an array by their places.  Both are looked at in
one way here: `Value.members` are the members that a value has for a record with some keys, and
`Value.get` is what it has for one key, `null` if there is nothing.  A key that stands twice in an
object would be read twice; in the canonical form of a document none does (`uniqueKeys_canonical`).

A record is read member after member, and each member that is a field of it settles one part of it.
So what the record is in the end can be told part by part (`part_of_readRecord`), and it is read if
each of its fields is (`exists_readRecord`).
-/

namespace PanelLint

open Json (Value)

/-! ## 1. What a value has for the fields of a record -/

namespace Json.Value

/-- **The members that a value has for a record with some keys**: those of an object, and the
elements of an array, each under the key whose turn it is. -/
def members (keys : List String) : Value → List (String × Value)
  | .object ms => ms
  | .array vs => keys.zip vs
  | _ => []

/-- **What a value has for a key of a record**, `null` if there is nothing. -/
def get (keys : List String) (key : String) (v : Value) : Value :=
  ((v.members keys).lookup key).getD .null

/-- **A value that can be a record**: an object, or an array with no more elements than there are
keys. -/
def IsRecord (keys : List String) : Value → Prop
  | .object _ => True
  | .array vs => vs.length ≤ keys.length
  | _ => False

/-- No key stands twice among the members of an object. -/
def Distinct : Value → Prop
  | .object ms => (ms.map Prod.fst).Nodup
  | _ => True

/-- **No key stands twice in any object**, at whatever depth. -/
inductive UniqueKeys : Value → Prop
  | object {ms : List (String × Value)} : (ms.map Prod.fst).Nodup →
      (∀ m ∈ ms, UniqueKeys m.2) → UniqueKeys (.object ms)
  | array {vs : List Value} : (∀ v ∈ vs, UniqueKeys v) → UniqueKeys (.array vs)
  | plain {v : Value} : (∀ ms, v ≠ .object ms) → (∀ vs, v ≠ .array vs) → UniqueKeys v

variable {keys : List String} {key : String} {v w : Value} {ms : List (String × Value)}

@[simp] theorem uniqueKeys_object_iff :
    (object ms).UniqueKeys ↔ (ms.map Prod.fst).Nodup ∧ ∀ m ∈ ms, m.2.UniqueKeys := by
  constructor
  · intro h
    cases h with
    | object hnodup hparts => exact ⟨hnodup, hparts⟩
    | plain hobject _ => exact absurd rfl (hobject ms)
  · rintro ⟨hnodup, hparts⟩
    exact .object hnodup hparts

@[simp] theorem uniqueKeys_array_iff {vs : List Value} :
    (array vs).UniqueKeys ↔ ∀ v ∈ vs, v.UniqueKeys := by
  constructor
  · intro h
    cases h with
    | array hparts => exact hparts
    | plain _ harray => exact absurd rfl (harray vs)
  · exact .array

@[simp] theorem uniqueKeys_null : null.UniqueKeys := .plain (by simp) (by simp)

@[simp] theorem uniqueKeys_bool (b : Bool) : (bool b).UniqueKeys := .plain (by simp) (by simp)

@[simp] theorem uniqueKeys_integer (n : Int) : (integer n).UniqueKeys := .plain (by simp) (by simp)

@[simp] theorem uniqueKeys_float (x : Number.Binary64) : (float x).UniqueKeys :=
  .plain (by simp) (by simp)

@[simp] theorem uniqueKeys_string (s : String) : (string s).UniqueKeys :=
  .plain (by simp) (by simp)

theorem UniqueKeys.distinct (h : v.UniqueKeys) : v.Distinct := by
  cases v with
  | object ms => exact (uniqueKeys_object_iff.mp h).1
  | _ => trivial

theorem map_fst_zip_sublist (keys : List String) (vs : List Value) :
    ((keys.zip vs).map Prod.fst).Sublist keys := by
  induction keys generalizing vs with
  | nil => exact .slnil
  | cons key keys ih =>
    cases vs with
    | nil => exact List.nil_sublist _
    | cons v vs => exact (ih vs).cons_cons key

theorem Distinct.nodup_members (h : v.Distinct) (hkeys : keys.Nodup) :
    ((v.members keys).map Prod.fst).Nodup := by
  cases v with
  | object ms => exact h
  | array vs => exact hkeys.sublist (map_fst_zip_sublist keys vs)
  | _ => exact List.nodup_nil

/-- What a member is called is found under its name, where no other is called so. -/
theorem lookup_eq_some_iff_of_nodup {β : Type} {ms : List (String × β)} {v : β}
    (h : (ms.map Prod.fst).Nodup) : ms.lookup key = some v ↔ (key, v) ∈ ms := by
  induction ms with
  | nil => simp
  | cons m ms ih =>
    obtain ⟨k, u⟩ := m
    rw [List.map_cons, List.nodup_cons] at h
    rw [List.lookup_cons, List.mem_cons, Prod.mk.injEq]
    by_cases hk : key = k
    · subst hk
      have hnone : (key, v) ∉ ms := fun hmem => h.1 (List.mem_map.mpr ⟨_, hmem, rfl⟩)
      simp [hnone, eq_comm]
    · rw [beq_false_of_ne hk]
      simp [hk, ih h.2]

theorem mem_members_of_lookup (h : (v.members keys).lookup key = some w) :
    (key, w) ∈ v.members keys := by
  obtain ⟨front, back, heq, -⟩ := List.lookup_eq_some_iff.mp h
  rw [heq]
  exact List.mem_append_right _ List.mem_cons_self

/-- What a value has for a key is a part of it, or `null`. -/
theorem get_cases (keys : List String) (key : String) (v : Value) :
    v.get keys key = .null ∨ (key, v.get keys key) ∈ v.members keys := by
  unfold get
  cases h : (v.members keys).lookup key with
  | none => exact Or.inl rfl
  | some w => exact Or.inr (mem_members_of_lookup h)

theorem UniqueKeys.of_mem_members (h : v.UniqueKeys) {m : String × Value}
    (hm : m ∈ v.members keys) : m.2.UniqueKeys := by
  cases v with
  | object ms => exact (uniqueKeys_object_iff.mp h).2 m hm
  | array vs => exact uniqueKeys_array_iff.mp h _ (List.of_mem_zip hm).2
  | _ => cases hm

theorem UniqueKeys.get (h : v.UniqueKeys) (keys : List String) (key : String) :
    (v.get keys key).UniqueKeys := by
  rcases get_cases keys key v with heq | hmem
  · rw [heq]
    exact uniqueKeys_null
  · exact h.of_mem_members hmem

/-! ## 2. The canonical form -/

/-- The members stand in the order of their keys, no two of which are the same. -/
abbrev Ordered (ms : List (String × Value)) : Prop := ms.Pairwise (·.1 < ·.1)

theorem Ordered.nodup (h : Ordered ms) : (ms.map Prod.fst).Nodup :=
  List.pairwise_map.mpr (h.imp fun hlt => ne_of_lt hlt)

theorem mem_insert {m : String × Value} (h : m ∈ insert key v ms) : m = (key, v) ∨ m ∈ ms := by
  induction ms with
  | nil => exact Or.inl (List.mem_singleton.mp h)
  | cons m' ms ih =>
    rw [insert] at h
    split_ifs at h
    · exact (List.mem_cons.mp h).imp_right (List.mem_cons_of_mem m')
    · exact List.mem_cons.mp h
    · rcases List.mem_cons.mp h with rfl | h
      · exact Or.inr List.mem_cons_self
      · exact (ih h).imp_right (List.mem_cons_of_mem m')

/-- A member is put where the order of the keys wants it. -/
theorem Ordered.insert (h : Ordered ms) (key : String) (v : Value) :
    Ordered (insert key v ms) := by
  induction ms with
  | nil => exact List.pairwise_singleton _ _
  | cons m ms ih =>
    obtain ⟨k, u⟩ := m
    obtain ⟨hfirst, hrest⟩ := List.pairwise_cons.mp h
    rw [Value.insert]
    split_ifs with heq hlt
    · subst heq
      exact List.pairwise_cons.mpr ⟨hfirst, hrest⟩
    · refine List.pairwise_cons.mpr ⟨fun m hm => ?_, h⟩
      rcases List.mem_cons.mp hm with rfl | hm
      · exact hlt
      · exact hlt.trans (hfirst m hm)
    · refine List.pairwise_cons.mpr ⟨fun m hm => ?_, ih hrest⟩
      rcases mem_insert hm with rfl | hm
      · exact lt_of_le_of_ne (not_lt.mp hlt) (Ne.symm heq)
      · exact hfirst m hm

mutual

/-- **No key stands twice in a canonical form.** -/
theorem uniqueKeys_canonical : ∀ v : Value, v.canonical.UniqueKeys
  | .null => by simp [canonical]
  | .bool _ => by simp [canonical]
  | .integer _ => by simp [canonical]
  | .float _ => by simp [canonical]
  | .string _ => by simp [canonical]
  | .array vs => by
    rw [canonical]
    exact .array (uniqueKeys_canonicalItems vs)
  | .object ms => by
    rw [canonical]
    obtain ⟨hordered, hparts⟩ := uniqueKeys_canonicalMembers ms [] .nil (by simp)
    exact .object hordered.nodup hparts

theorem uniqueKeys_canonicalItems : ∀ vs : List Value, ∀ v ∈ canonicalItems vs, v.UniqueKeys
  | [], v, h => by
    rw [canonicalItems] at h
    cases h
  | w :: vs, v, h => by
    rw [canonicalItems] at h
    rcases List.mem_cons.mp h with rfl | h
    · exact uniqueKeys_canonical w
    · exact uniqueKeys_canonicalItems vs v h

theorem uniqueKeys_canonicalMembers : ∀ ms before : List (String × Value), Ordered before →
    (∀ m ∈ before, m.2.UniqueKeys) →
      Ordered (canonicalMembers before ms) ∧ ∀ m ∈ canonicalMembers before ms, m.2.UniqueKeys
  | [], before, hordered, hparts => by
    rw [canonicalMembers]
    exact ⟨hordered, hparts⟩
  | (k, v) :: ms, before, hordered, hparts => by
    rw [canonicalMembers]
    refine uniqueKeys_canonicalMembers ms _ (hordered.insert k v.canonical) fun m hm => ?_
    rcases mem_insert hm with rfl | hm
    · exact uniqueKeys_canonical v
    · exact hparts m hm

end

end Json.Value

namespace Dashboard

variable {α β : Type} {name : String} {fields : List (Field α)} {r r' : α} {v : Value}
  {ms : List (String × Value)}

/-- The keys of a record with some fields. -/
abbrev keysOf (fields : List (Field α)) : List String := fields.map Prod.fst

/-! ## 3. A record is read from its members -/

theorem readMembers_cons (fields : List (Field α)) (r : α) (key : String) (v : Value)
    (ms : List (String × Value)) :
    readMembers fields r ((key, v) :: ms) =
      (fields.lookup key).elim (.ok r) (fun read => read r v) >>= fun r =>
        readMembers fields r ms := by
  simp only [readMembers, List.foldlM_cons]
  cases fields.lookup key with
  | none => rfl
  | some read => rfl

theorem lookup_eq_some_of_nodup {key : String} {read : α → Value → Except SchemaError α}
    {done rest : List (Field α)} (h : (keysOf (done ++ (key, read) :: rest)).Nodup) :
    (done ++ (key, read) :: rest).lookup key = some read := by
  rw [List.lookup_eq_some_iff]
  refine ⟨done, rest, rfl, fun p hp => ?_⟩
  rw [keysOf, List.map_append, List.map_cons, List.nodup_append] at h
  simpa using (h.2.2 p.1 (List.mem_map_of_mem hp) key List.mem_cons_self).symm

/-- The elements of an array are read like the members of an object. -/
theorem readPositions_eq_readMembers (done rest : List (Field α))
    (hnodup : (keysOf (done ++ rest)).Nodup) (r : α) (vs : List Value) :
    readPositions rest r vs = readMembers (done ++ rest) r ((keysOf rest).zip vs) := by
  induction rest generalizing done r vs with
  | nil => rfl
  | cons field rest ih =>
    obtain ⟨key, read⟩ := field
    cases vs with
    | nil => rfl
    | cons v vs =>
      have hlookup := lookup_eq_some_of_nodup hnodup
      rw [List.append_cons] at hnodup
      rw [readPositions, keysOf, List.map_cons, List.zip_cons_cons, readMembers_cons, hlookup]
      refine bind_congr fun r' => ?_
      rw [ih _ hnodup, ← List.append_cons]

/-- **A record is read from its members**, if the value can be one. -/
theorem readRecord_eq_ok_iff (hnodup : (keysOf fields).Nodup) :
    readRecord name fields r v = .ok r' ↔
      v.IsRecord (keysOf fields) ∧ readMembers fields r (v.members (keysOf fields)) = .ok r' := by
  cases v with
  | object ms => exact (true_and _).symm.to_iff
  | array vs =>
    have hread := readPositions_eq_readMembers [] fields hnodup r vs
    rw [List.nil_append] at hread
    rw [readRecord, hread, Value.IsRecord, Value.members, List.length_map]
    cases readMembers fields r ((keysOf fields).zip vs) with
    | error e =>
      constructor
      · intro h
        cases h
      · rintro ⟨-, h⟩
        cases h
    | ok r₁ =>
      by_cases hlength : fields.length < vs.length
      · constructor
        · intro h
          simp [bind, Except.bind, hlength] at h
        · rintro ⟨hle, -⟩
          omega
      · simp [bind, Except.bind, hlength, Nat.le_of_not_lt hlength]
  | _ =>
    constructor
    · intro h
      cases h
    · rintro ⟨h, -⟩
      cases h

/-- Members can be read one after another if each of them can be. -/
theorem exists_readMembers
    (h : ∀ m ∈ ms, ∀ read, fields.lookup m.1 = some read → ∀ r, ∃ r', read r m.2 = .ok r') (r : α) :
    ∃ r', readMembers fields r ms = .ok r' := by
  induction ms generalizing r with
  | nil => exact ⟨r, rfl⟩
  | cons m ms ih =>
    have htail := ih fun m' hm' => h m' (List.mem_cons_of_mem m hm')
    rw [readMembers_cons]
    cases hlookup : fields.lookup m.1 with
    | none =>
      rw [Option.elim_none]
      exact htail r
    | some read =>
      obtain ⟨r₁, hr₁⟩ := h m List.mem_cons_self read hlookup r
      rw [Option.elim_some, hr₁]
      exact htail r₁

/-! ## 4. The parts of a record -/

/-- **A field settles a part of the record**: it reads the part with some reader, and is read
wherever that reader succeeds. -/
structure Settles (read : α → Value → Except SchemaError α) (part : α → β)
    (reader : Value → Except SchemaError β) : Prop where
  of_ok : ∀ {r v r'}, read r v = .ok r' → reader v = .ok (part r')
  exists_ok : ∀ {r v x}, reader v = .ok x → ∃ r', read r v = .ok r'

/-- A field leaves a part of the record as it was. -/
def Leaves (read : α → Value → Except SchemaError α) (part : α → β) : Prop :=
  ∀ {r v r'}, read r v = .ok r' → part r' = part r

/-- **One of the fields settles a part, and all others leave it.** -/
structure IsField (fields : List (Field α)) (key : String) (part : α → β)
    (reader : Value → Except SchemaError β) : Prop where
  settles : ∃ read, fields.lookup key = some read ∧ Settles read part reader
  leaves : ∀ key' read, fields.lookup key' = some read → key' ≠ key → Leaves read part

/-- A field with a setter for the part settles it. -/
theorem settles_map {part : α → β} {reader : Value → Except SchemaError β} {set : α → β → α}
    (hset : ∀ r x, part (set r x) = x) : Settles (fun r v => set r <$> reader v) part reader := by
  constructor
  · intro r v r' h
    cases hv : reader v with
    | error e =>
      rw [hv] at h
      cases h
    | ok x =>
      rw [hv] at h
      cases h
      rw [hset]
  · intro r v x h
    exact ⟨set r x, by rw [h]; rfl⟩

/-- A field with a setter for another part leaves it. -/
theorem leaves_map {γ : Type} {part : α → β} {reader : Value → Except SchemaError γ}
    {set : α → γ → α} (hset : ∀ r x, part (set r x) = part r) :
    Leaves (fun r v => set r <$> reader v) part := by
  intro r v r' h
  dsimp only at h
  cases hv : reader v with
  | error e =>
    rw [hv] at h
    cases h
  | ok x =>
    rw [hv] at h
    cases h
    exact hset r x

variable {key : String} {part : α → β} {reader : Value → Except SchemaError β}

/-- **The field at some place**, seen as the one for its key. -/
theorem isField_of_getElem? (i : Nat) (hnodup : (keysOf fields).Nodup)
    (hsettles : ∃ read, fields[i]? = some (key, read) ∧ Settles read part reader)
    (hleaves : ∀ field ∈ fields.eraseIdx i, Leaves field.2 part) :
    IsField fields key part reader := by
  obtain ⟨read, hget, hsettles⟩ := hsettles
  obtain ⟨hi, hget⟩ := List.getElem?_eq_some_iff.mp hget
  have hfields : fields = fields.take i ++ (key, read) :: fields.drop (i + 1) := by
    rw [← hget, List.getElem_cons_drop, List.take_append_drop]
  constructor
  · refine ⟨read, ?_, hsettles⟩
    rw [hfields] at hnodup ⊢
    exact lookup_eq_some_of_nodup hnodup
  · intro key' read' hlookup hne
    refine hleaves (key', read') ?_
    obtain ⟨front, back, heq, -⟩ := List.lookup_eq_some_iff.mp hlookup
    have hmem : (key', read') ∈ fields.take i ++ (key, read) :: fields.drop (i + 1) := by
      rw [← hfields, heq]
      exact List.mem_append_right _ List.mem_cons_self
    rw [List.eraseIdx_eq_take_drop_succ]
    rcases List.mem_append.mp hmem with hmem | hmem
    · exact List.mem_append_left _ hmem
    · rcases List.mem_cons.mp hmem with hself | hmem
      · exact absurd (congrArg Prod.fst hself) hne
      · exact List.mem_append_right _ hmem

/-- Members that are called otherwise leave a part as it was. -/
theorem part_of_lookup_eq_none (hfield : IsField fields key part reader)
    (hnone : ms.lookup key = none) (h : readMembers fields r ms = .ok r') : part r' = part r := by
  induction ms generalizing r with
  | nil =>
    cases h
    rfl
  | cons m ms ih =>
    obtain ⟨k, v⟩ := m
    rw [List.lookup_cons] at hnone
    have hne : k ≠ key := by
      rintro rfl
      simp at hnone
    rw [beq_false_of_ne hne.symm] at hnone
    rw [readMembers_cons] at h
    cases hlookup : fields.lookup k with
    | none =>
      simp only [hlookup, Option.elim_none] at h
      exact ih hnone h
    | some read =>
      simp only [hlookup, Option.elim_some] at h
      cases hread : read r v with
      | error e =>
        rw [hread] at h
        cases h
      | ok r₁ =>
        rw [hread] at h
        exact (ih hnone h).trans (hfield.leaves k read hlookup hne hread)

/-- **A part is what the member of its key says**, or else it stays as it was. -/
theorem part_of_readMembers (hfield : IsField fields key part reader)
    (hnodup : (ms.map Prod.fst).Nodup) (hnull : reader .null = .ok (part r))
    (h : readMembers fields r ms = .ok r') :
    reader ((ms.lookup key).getD .null) = .ok (part r') := by
  induction ms generalizing r with
  | nil =>
    cases h
    exact hnull
  | cons m ms ih =>
    obtain ⟨k, v⟩ := m
    rw [List.map_cons, List.nodup_cons] at hnodup
    rw [readMembers_cons] at h
    rw [List.lookup_cons]
    by_cases hk : key = k
    · subst hk
      obtain ⟨read, hlookup, hsettles⟩ := hfield.settles
      simp only [hlookup, Option.elim_some] at h
      cases hread : read r v with
      | error e =>
        rw [hread] at h
        cases h
      | ok r₁ =>
        rw [hread] at h
        have hnone : ms.lookup key = none := by
          rw [List.lookup_eq_none_iff]
          intro p hp
          rw [bne_iff_ne]
          rintro rfl
          exact hnodup.1 (List.mem_map.mpr ⟨p, hp, rfl⟩)
        rw [beq_self_eq_true, part_of_lookup_eq_none hfield hnone h]
        exact hsettles.of_ok hread
    · rw [beq_false_of_ne hk]
      cases hlookup : fields.lookup k with
      | none =>
        simp only [hlookup, Option.elim_none] at h
        exact ih hnodup.2 hnull h
      | some read =>
        simp only [hlookup, Option.elim_some] at h
        cases hread : read r v with
        | error e =>
          rw [hread] at h
          cases h
        | ok r₁ =>
          rw [hread] at h
          refine ih hnodup.2 ?_ h
          rw [hfield.leaves k read hlookup (Ne.symm hk) hread]
          exact hnull

/-- The same of a record. -/
theorem part_of_readRecord (hfield : IsField fields key part reader)
    (hnodup : (keysOf fields).Nodup) (hv : v.Distinct) (hnull : reader .null = .ok (part r))
    (h : readRecord name fields r v = .ok r') :
    reader (v.get (keysOf fields) key) = .ok (part r') :=
  part_of_readMembers hfield (hv.nodup_members hnodup) hnull
    ((readRecord_eq_ok_iff hnodup).mp h).2

/-- **A record is read if each of its fields is.** -/
theorem exists_readRecord (hnodup : (keysOf fields).Nodup) (hrecord : v.IsRecord (keysOf fields))
    (hv : v.Distinct)
    (h : ∀ key read, fields.lookup key = some read →
      ∀ r, ∃ r', read r (v.get (keysOf fields) key) = .ok r') (r : α) :
    ∃ r', readRecord name fields r v = .ok r' := by
  obtain ⟨r', hr'⟩ : ∃ r', readMembers fields r (v.members (keysOf fields)) = .ok r' := by
    refine exists_readMembers (fun m hm read hlookup r => ?_) r
    have hread := h m.1 read hlookup r
    have hlookup' : (v.members (keysOf fields)).lookup m.1 = some m.2 :=
      (Value.lookup_eq_some_iff_of_nodup (hv.nodup_members hnodup)).mpr hm
    rwa [Value.get, hlookup', Option.getD_some] at hread
  exact ⟨r', (readRecord_eq_ok_iff hnodup).mpr ⟨hrecord, hr'⟩⟩

end Dashboard

end PanelLint
