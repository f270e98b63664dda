import PanelLint.Proofs.Json.Members
import PanelLint.Settings.Load
/-!
# The keys of settings

A settings file has each key once if no format has texts with a key twice, and so has an environment
whose names differ in more than the case of their letters.

A key is a path.  Most keys are one name and lead to a place of their own; `LeadsInto` names those
that lead into the value of another key.

* `keysApart_known`, `nodup_of_loadMembers`: the keys of a file;
* `last?_entries_eq_some_iff`: what an environment says of a key;
* `steps_of_not_leadsInto`: where the keys lead that lead into no other.
-/

/-! ## 1. A file has each key once -/

namespace PanelLint.Toml

open PanelLint.Json (Value)

/-- A change of members after which each key is there once, if it was before. -/
def KeepsKeysApart (f : Members → Option Members) : Prop :=
  ∀ ms ms', f ms = some ms' → (ms.map Prod.fst).Nodup → (ms'.map Prod.fst).Nodup

variable {key : String} {path : List String} {f : Members → Option Members}

theorem keys_alter? {g : Option Node → Option Node} {ms ms' : Members}
    (h : alter? key g ms = some ms') : ms'.map Prod.fst = ms.map Prod.fst ∨
      (key ∉ ms.map Prod.fst ∧ ms'.map Prod.fst = ms.map Prod.fst ++ [key]) := by
  induction ms generalizing ms' with
  | nil =>
    obtain ⟨n, -, rfl⟩ := Option.map_eq_some_iff.mp h
    exact Or.inr ⟨List.not_mem_nil, rfl⟩
  | cons m ms ih =>
    obtain ⟨k, n⟩ := m
    rw [alter?] at h
    split at h
    · obtain ⟨n', -, rfl⟩ := Option.map_eq_some_iff.mp h
      exact Or.inl rfl
    · next hk =>
      obtain ⟨ms', hrest, rfl⟩ := Option.map_eq_some_iff.mp h
      refine (ih hrest).imp (fun hkeys => ?_) fun ⟨hnew, hkeys⟩ => ⟨?_, ?_⟩
      · rw [List.map_cons, hkeys, List.map_cons]
      · rw [List.map_cons, List.mem_cons, not_or]
        exact ⟨Ne.symm hk, hnew⟩
      · rw [List.map_cons, hkeys, List.map_cons, List.cons_append]

theorem keepsKeysApart_alter? (g : Option Node → Option Node) : KeepsKeysApart (alter? key g) := by
  intro ms ms' h hnodup
  obtain hkeys | ⟨hnew, hkeys⟩ := keys_alter? h
  · rwa [hkeys]
  · rw [hkeys]
    exact hnodup.append (List.nodup_singleton key) (by simpa using hnew)

theorem KeepsKeysApart.within? (h : KeepsKeysApart f) : KeepsKeysApart (within? path f) := by
  cases path with
  | nil => exact h
  | cons key path => exact keepsKeysApart_alter? _

theorem keepsKeysApart_assign? (v : Value) : KeepsKeysApart (assign? path key v) := by
  cases path with
  | nil => exact keepsKeysApart_alter? _
  | cons k path => exact keepsKeysApart_alter? _

/-- Each statement keeps the keys of the document apart. -/
theorem nodup_of_add? {d d' : Document} {s : Statement} (h : d.add? s = some d')
    (hnodup : (d.members.map Prod.fst).Nodup) : (d'.members.map Prod.fst).Nodup := by
  cases s with
  | nothing =>
    cases h
    exact hnodup
  | table path key =>
    obtain ⟨ms, hms, rfl⟩ := Option.map_eq_some_iff.mp h
    exact (keepsKeysApart_alter? _).within? _ _ hms hnodup
  | item path key =>
    obtain ⟨ms, hms, rfl⟩ := Option.map_eq_some_iff.mp h
    exact (keepsKeysApart_alter? _).within? _ _ hms hnodup
  | assign path key v =>
    obtain ⟨ms, hms, rfl⟩ := Option.map_eq_some_iff.mp h
    exact (keepsKeysApart_assign? v).within? _ _ hms hnodup

theorem nodup_of_foldlM {ss : List Statement} {d d' : Document}
    (h : ss.foldlM Document.add? d = some d') (hnodup : (d.members.map Prod.fst).Nodup) :
    (d'.members.map Prod.fst).Nodup := by
  induction ss generalizing d with
  | nil =>
    cases h
    exact hnodup
  | cons s ss ih =>
    rw [List.foldlM_cons] at h
    obtain ⟨d₁, hadd, hrest⟩ := Option.bind_eq_some_iff.mp h
    exact ih hrest (nodup_of_add? hadd hnodup)

theorem keys_membersToValues : ∀ ms : Members, (membersToValues ms).map Prod.fst = ms.map Prod.fst
  | [] => rfl
  | (k, n) :: ms => by
    rw [membersToValues, List.map_cons, keys_membersToValues ms]
    rfl

/-- **A document has each key once.** -/
theorem nodup_of_read? {text : List Char} {ms : List (String × Value)} (h : read? text = some ms) :
    (ms.map Prod.fst).Nodup := by
  obtain ⟨ss, -, hrest⟩ := Option.bind_eq_some_iff.mp h
  obtain ⟨d, hd, hms⟩ := Option.bind_eq_some_iff.mp hrest
  cases hms
  rw [keys_membersToValues]
  exact nodup_of_foldlM hd List.nodup_nil

end PanelLint.Toml

namespace PanelLint.Settings

open PanelLint.Json (Value)
open PanelLint.Json.Value (last? last?_eq_none_iff last?_eq_lookup lookup_eq_some_iff_of_nodup
  ordered_canonicalMembers)

variable {formats : List Format} {format : Format} {text : List Char} {bytes : List UInt8}
  {file : List (String × Value)}

/-- **The keys of a format are apart**: no text has a key twice. -/
def Format.KeysApart (format : Format) : Prop :=
  ∀ text file, format.read? text = some file → (file.map Prod.fst).Nodup

theorem Format.keysApart_toml : Format.toml.KeysApart := fun _ _ h => Toml.nodup_of_read? h

theorem Format.keysApart_json : Format.json.KeysApart := by
  intro text file h
  simp only [Format.json] at h
  split at h
  · next ms hread =>
    cases h
    cases hjson : Json.read text with
    | error e =>
      rw [hjson] at hread
      cases hread
    | ok v =>
      rw [hjson] at hread
      cases v with
      | object ms =>
        cases hread
        exact (ordered_canonicalMembers ms).nodup
      | _ => cases hread
  · cases h

/-- The keys of each format that the program knows are apart. -/
theorem keysApart_known : ∀ format ∈ Format.known, format.KeysApart := by
  simp only [Format.known, List.forall_mem_cons]
  refine ⟨Format.keysApart_toml, Format.keysApart_json, ?_, fun _ h => absurd h List.not_mem_nil⟩
  intro text file h
  cases h

theorem nodup_of_readMembers (hformat : format.KeysApart) (h : readMembers format bytes = .ok file) :
    (file.map Prod.fst).Nodup := by
  unfold readMembers at h
  split at h
  · next ms hread =>
    cases h
    exact hformat _ _ hread
  · cases h

/-- What is found is in one of the formats. -/
theorem mem_of_find {files : Files} {path : String}
    (h : find formats files path = .ok (format, bytes)) : format ∈ formats := by
  unfold find at h
  split at h
  · split at h
    · next hformat =>
      cases h
      exact List.mem_of_find?_eq_some hformat
    · cases h
  · dsimp only at h
    split at h
    · next hfound =>
      cases h
      obtain ⟨⟨p, f⟩, hmem, hbytes⟩ := List.exists_of_findSome?_eq_some hfound
      obtain ⟨_, -, heq⟩ := Option.map_eq_some_iff.mp hbytes
      obtain rfl := (Prod.mk.inj heq).1
      unfold alternatives at hmem
      split at hmem
      · cases hmem
      · obtain ⟨f', hf', hmem⟩ := List.mem_flatMap.mp hmem
        obtain ⟨e, -, heq⟩ := List.mem_map.mp hmem
        exact (Prod.mk.inj heq).2 ▸ hf'
    · cases h

/-- **A settings file has each key once.** -/
theorem nodup_of_loadMembers (hformats : ∀ format ∈ formats, format.KeysApart) {files : Files}
    {path : Option String} (h : loadMembers formats files path = .ok file) :
    (file.map Prod.fst).Nodup := by
  unfold loadMembers at h
  cases path with
  | some path =>
    simp only at h
    cases hfind : find formats files path with
    | error e =>
      rw [hfind] at h
      cases h
    | ok found =>
      rw [hfind] at h
      exact nodup_of_readMembers (hformats _ (mem_of_find hfind)) h
  | none =>
    simp only at h
    split at h
    · next hfind => exact nodup_of_readMembers (hformats _ (mem_of_find hfind)) h
    · cases h
      exact List.nodup_nil

/-! ## 2. What an environment says of a key -/

variable {env : Environment} {name key known text : String} {v : Value}

/-- **A variable sets a key**: its name, in any case, is that key behind the program's prefix. -/
def Environment.Sets (env : Environment) (key text : String) : Prop :=
  ∃ name, (name, text) ∈ env ∧ name.toList.map lower = (namePrefix ++ key).toList

/-- The names of an environment differ in more than the case of their letters. -/
def Environment.Apart (env : Environment) : Prop :=
  env.Pairwise fun a b => a.1.toList.map lower ≠ b.1.toList.map lower

instance (env : Environment) : Decidable env.Apart :=
  inferInstanceAs (Decidable (env.Pairwise fun a b => a.1.toList.map lower ≠ b.1.toList.map lower))

theorem key?_eq_some_iff :
    key? name = some key ↔ name.toList.map lower = (namePrefix ++ key).toList := by
  rw [key?, String.toList_append]
  split
  · next h =>
    obtain ⟨rest, hrest⟩ := List.isPrefixOf_iff_prefix.mp h
    rw [← hrest, Option.some_inj, List.append_cancel_left_eq, String.ext_iff, String.toList_ofList,
      show namePrefix.length = namePrefix.toList.length from rfl, List.drop_left]
  · next h =>
    refine iff_of_false (by simp) fun heq => h (List.isPrefixOf_iff_prefix.mpr ?_)
    exact heq ▸ List.prefix_append _ _

theorem mem_entries_iff :
    (key, v) ∈ env.entries ↔ ∃ text, env.Sets key text ∧ v = readVariable key text := by
  simp only [Environment.entries, List.mem_filterMap, Option.map_eq_some_iff, Environment.Sets,
    ← key?_eq_some_iff]
  constructor
  · rintro ⟨⟨name, text⟩, hmem, k, hk, heq⟩
    obtain ⟨rfl, rfl⟩ := Prod.mk.inj heq
    exact ⟨text, ⟨name, hmem, hk⟩, rfl⟩
  · rintro ⟨text, ⟨name, hmem, hk⟩, rfl⟩
    exact ⟨(name, text), hmem, key, hk, rfl⟩

/-- Names that differ set different keys. -/
theorem nodup_entries (h : env.Apart) : (env.entries.map Prod.fst).Nodup := by
  refine List.pairwise_map.mpr (List.pairwise_filterMap.mpr (h.imp ?_))
  rintro ⟨name, text⟩ ⟨name', text'⟩ hne m hm m' hm'
  obtain ⟨k, hk, rfl⟩ := Option.map_eq_some_iff.mp hm
  obtain ⟨k', hk', rfl⟩ := Option.map_eq_some_iff.mp hm'
  rintro (rfl : k = k')
  exact hne ((key?_eq_some_iff.mp hk).trans (key?_eq_some_iff.mp hk').symm)

theorem last?_entries_eq_some_iff (h : env.Apart) : last? key env.entries = some v ↔
    ∃ text, env.Sets key text ∧ v = readVariable key text := by
  rw [last?_eq_lookup (nodup_entries h), lookup_eq_some_iff_of_nodup (nodup_entries h),
    mem_entries_iff]

theorem last?_entries_eq_none_iff :
    last? key env.entries = none ↔ ∀ text, ¬ env.Sets key text := by
  rw [last?_eq_none_iff, List.mem_map]
  constructor
  · intro h text hsets
    exact h ⟨(key, _), mem_entries_iff.mpr ⟨text, hsets, rfl⟩, rfl⟩
  · rintro h ⟨⟨k, v⟩, hmem, rfl⟩
    obtain ⟨text, hsets, -⟩ := mem_entries_iff.mp hmem
    exact h text hsets

/-! ## 3. Keys that are paths -/

/-- **A key leads into the value of another one**, as `exclude[0]` and `exclude.a` lead into the
value of `exclude`. -/
def LeadsInto (key known : String) : Prop :=
  (steps key).head? = some (.name known) ∧ (steps key).tail ≠ []

instance (key known : String) : Decidable (LeadsInto key known) :=
  inferInstanceAs (Decidable (_ ∧ _ ≠ _))

/-- Every path begins with a name. -/
theorem exists_steps_eq_cons (key : String) : ∃ name path, steps key = .name name :: path := by
  unfold steps
  cases h : readPath? key.toList with
  | none => exact ⟨key, [], rfl⟩
  | some path =>
    obtain ⟨⟨name, rest⟩, -, hrest⟩ := Option.bind_eq_some_iff.mp h
    obtain ⟨path, -, rfl⟩ := Option.map_eq_some_iff.mp hrest
    exact ⟨name, path, rfl⟩

theorem eq_nil_of_readSteps? {fuel : Nat} {cs : List Char} (h : readSteps? fuel cs = some []) :
    cs = [] := by
  unfold readSteps? at h
  split at h
  · rfl
  · cases h
  · obtain ⟨_, -, hrest⟩ := Option.bind_eq_some_iff.mp h
    obtain ⟨_, -, hcons⟩ := Option.map_eq_some_iff.mp hrest
    cases hcons
  · obtain ⟨_, -, hrest⟩ := Option.bind_eq_some_iff.mp h
    obtain ⟨_, -, hcons⟩ := Option.map_eq_some_iff.mp hrest
    cases hcons
  · cases h

/-- A path of one step is the name as it stands. -/
theorem eq_of_steps_eq_singleton (h : steps key = [.name name]) : key = name := by
  unfold steps at h
  cases hpath : readPath? key.toList with
  | none =>
    rw [hpath] at h
    exact Step.name.inj (List.cons.inj h).1
  | some path =>
    rw [hpath] at h
    obtain rfl : path = [.name name] := h
    obtain ⟨⟨first, rest⟩, hname, hrest⟩ := Option.bind_eq_some_iff.mp hpath
    obtain ⟨path, hsteps, hcons⟩ := Option.map_eq_some_iff.mp hrest
    obtain ⟨hfirst, rfl⟩ := List.cons.inj hcons
    obtain rfl := Step.name.inj hfirst
    obtain rfl := eq_nil_of_readSteps? hsteps
    unfold readName? at hname
    split at hname
    · cases hname
    · obtain ⟨rfl, hend⟩ := Prod.mk.inj (Option.some.inj hname)
      have hwhole := List.takeWhile_append_dropWhile (p := isNameChar) (l := key.toList)
      rw [hend, List.append_nil] at hwhole
      rw [hwhole, String.ofList_toList]

/-- The path of a key that does not lead into a value begins at another place than that value. -/
theorem steps_of_not_leadsInto (h : ¬ LeadsInto key known) (hne : key ≠ known) :
    (steps key).head? ≠ some (.name known) := by
  obtain ⟨name, path, hsteps⟩ := exists_steps_eq_cons key
  intro hhead
  refine h ⟨hhead, fun htail => hne (eq_of_steps_eq_singleton ?_)⟩
  rw [hsteps] at hhead htail ⊢
  obtain rfl : path = [] := htail
  rw [Option.some.inj hhead]

end PanelLint.Settings
