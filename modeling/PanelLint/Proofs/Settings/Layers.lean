import PanelLint.Proofs.Settings.Keys
/-!
# Settings key by key

The settings are read from one tree, in which the keys of the file are set first and those of the
environment after them.  Setting a key changes the place that it leads to and no other, and what is
read at that place does not depend on what was there before.  So each setting is told by the last
value of its own key: by the environment where that has the key, else by the file.

* `member?_set`: the place that a key changes;
* `read_setAll`: what is read after a run of keys;
* `load_key_by_key`: what this says of the file and of the environment.

A key that is a path into the value of another one is not seen to be about that other one, and has
to be left out (`path_into_exclude_matters`).
-/

namespace PanelLint.Settings

open PanelLint.Json (Value)
open PanelLint.Json.Value (insert lookup_insert last? last?_cons last?_eq_none_iff last?_eq_lookup)

variable {formats : List Format} {files files' : Files} {path path' : Option String}
  {file file' : List (String × Value)}
  {env env' : Environment} {entries : List (String × Value)} {tree : Value}
  {key known text : String}

/-! ## 1. Setting one key -/

theorem lookup_members (v : Value) (key : String) : (members v).lookup key = v.member? key := by
  cases v <;> rfl

/-- **Setting a key changes the member that its path begins with, and no other.** -/
theorem member?_set {name : String} {rest : List Step} (v : Value)
    (hsteps : steps key = .name name :: rest) : (set tree key v).member? known =
      if known = name then some (change (merge · v) rest ((tree.member? name).getD .null))
      else tree.member? known := by
  rw [set, hsteps, change]
  show (insert name _ (members tree)).lookup known = _
  rw [lookup_insert, lookup_members, lookup_members]

theorem member?_set_of_not_leadsInto (v : Value) (h : ¬ LeadsInto key known) (hne : known ≠ key) :
    (set tree key v).member? known = tree.member? known := by
  obtain ⟨name, rest, hsteps⟩ := exists_steps_eq_cons key
  have hhead := steps_of_not_leadsInto h hne.symm
  rw [hsteps] at hhead
  rw [member?_set v hsteps, if_neg]
  rintro rfl
  exact hhead rfl

/-! ## 2. Setting many keys -/

/-- **A reading that does not depend on what a value was set in the place of.** -/
def Fresh {α : Type} (read : Option Value → α) : Prop :=
  ∀ old v, read (some (merge old v)) = read (some v)

theorem fresh_readLogLevel : Fresh readLogLevel := by
  intro old v
  cases v <;> rfl

theorem fresh_readExclude : Fresh readExclude := by
  intro old v
  cases v <;> rfl

/-- **What is read after a run of keys** is the last value of the key, or what was there before. -/
theorem read_setAll {α : Type} {read : Option Value → α} (hread : Fresh read)
    (hknown : steps known = [.name known])
    (hpaths : ∀ entry ∈ entries, ¬ LeadsInto entry.1 known) :
    read ((setAll tree entries).member? known) =
      read ((last? known entries).or (tree.member? known)) := by
  induction entries generalizing tree with
  | nil => rfl
  | cons entry entries ih =>
    obtain ⟨key, v⟩ := entry
    obtain ⟨hpath, hpaths⟩ := List.forall_mem_cons.mp hpaths
    show read ((setAll (set tree key v) entries).member? known) = _
    rw [ih hpaths, last?_cons]
    cases last? known entries with
    | some w => rfl
    | none =>
      by_cases heq : known = key
      · subst heq
        rw [member?_set v hknown, if_pos rfl, if_pos rfl]
        exact hread _ v
      · rw [member?_set_of_not_leadsInto v hpath heq, if_neg heq]
        rfl

/-! ## 3. The two layers -/

/-- The environment leaves a key to the file. -/
def Environment.Leaves (env : Environment) (key : String) : Prop := ∀ text, ¬ env.Sets key text

instance (env : Environment) (key : String) : Decidable (env.Leaves key) :=
  decidable_of_iff (key ∉ env.entries.map Prod.fst)
    (last?_eq_none_iff.symm.trans last?_entries_eq_none_iff)

theorem sets_or_leaves (env : Environment) (key : String) :
    (∃ text, env.Sets key text) ∨ env.Leaves key := by
  rw [Environment.Leaves, ← not_exists]
  exact em _

theorem Environment.Sets.not_leaves (h : env.Sets key text) : ¬ env.Leaves key := fun hleaves =>
  hleaves text h

/-- **No key is a path into a setting**: none of the environment, and none of the file where the
environment leaves the setting to it. -/
def NoneLeadsIn (file : List (String × Value)) (env : Environment) : Prop :=
  ∀ known ∈ [logLevelKey, excludeKey], (∀ entry ∈ env.entries, ¬ LeadsInto entry.1 known) ∧
    (env.Leaves known → ∀ entry ∈ file, ¬ LeadsInto entry.1 known)

instance (file : List (String × Value)) (env : Environment) : Decidable (NoneLeadsIn file env) :=
  inferInstanceAs (Decidable (∀ known ∈ _, (∀ entry ∈ env.entries, ¬ LeadsInto entry.1 known) ∧
    (env.Leaves known → ∀ entry ∈ file, ¬ LeadsInto entry.1 known)))

/-- The value of a key, of the environment or else of the file. -/
def layered (file : List (String × Value)) (env : Environment) (key : String) : Option Value :=
  (last? key env.entries).or (file.lookup key)

theorem layered_of_sets (h : env.Apart) (hsets : env.Sets key text) :
    layered file env key = some (readVariable key text) := by
  rw [layered, (last?_entries_eq_some_iff h).mpr ⟨text, hsets, rfl⟩]
  rfl

theorem layered_of_leaves (h : env.Leaves key) : layered file env key = file.lookup key := by
  rw [layered, last?_entries_eq_none_iff.mpr h]
  rfl

/-- What the layers say of a key is told by the environment, and by the file where the environment
leaves the key to it. -/
theorem layered_congr (h : env.Apart) (h' : env'.Apart)
    (hsets : ∀ text, env'.Sets key text ↔ env.Sets key text)
    (hfile : env.Leaves key → file'.lookup key = file.lookup key) :
    layered file' env' key = layered file env key := by
  obtain ⟨text, htext⟩ | hleaves := sets_or_leaves env key
  · rw [layered_of_sets h htext, layered_of_sets h' ((hsets text).mpr htext)]
  · have hleaves' : env'.Leaves key := fun text ht => hleaves text ((hsets text).mp ht)
    rw [layered_of_leaves hleaves, layered_of_leaves hleaves', hfile hleaves]

/-- What is read at a setting after both layers. -/
theorem read_layers {α : Type} {read : Option Value → α} (hread : Fresh read)
    (hsteps : steps known = [.name known]) (hfile : (file.map Prod.fst).Nodup)
    (hpaths : (∀ entry ∈ env.entries, ¬ LeadsInto entry.1 known) ∧
      (env.Leaves known → ∀ entry ∈ file, ¬ LeadsInto entry.1 known)) :
    read ((setAll (setAll (.object []) file) env.entries).member? known) =
      read (layered file env known) := by
  rw [read_setAll hread hsteps hpaths.1, layered]
  cases hlast : last? known env.entries with
  | some v => rfl
  | none =>
    have hleft := hpaths.2 (last?_entries_eq_none_iff.mp hlast)
    rw [Option.none_or, Option.none_or, read_setAll hread hsteps hleft, last?_eq_lookup hfile]
    exact congrArg read Option.or_none

/-- **Each setting is read from its own key.** -/
theorem loadIn_eq (hformats : ∀ format ∈ formats, format.KeysApart)
    (hfile : loadMembers formats files path = .ok file) (hpaths : NoneLeadsIn file env) :
    loadIn formats files path env = (do
      let logLevel ← readLogLevel (layered file env logLevelKey)
      let exclude ← readExclude (layered file env excludeKey)
      .ok { logLevel, exclude }) := by
  have hnodup := nodup_of_loadMembers hformats hfile
  rw [loadIn, hfile]
  show ofLayers file env = _
  rw [ofLayers, ofTree,
    read_layers fresh_readLogLevel (by decide) hnodup (hpaths logLevelKey (by decide)),
    read_layers fresh_readExclude (by decide) hnodup (hpaths excludeKey (by decide))]

/-! ## 4. What is read of a value -/

/-- A value without parts, other than null. -/
inductive IsScalar : Value → Prop
  | bool (b : Bool) : IsScalar (.bool b)
  | integer (n : Int) : IsScalar (.integer n)
  | float (x : Number.Binary64) : IsScalar (.float x)
  | string (s : String) : IsScalar (.string s)

/-- **A value that a file may have for a setting**: for the level of the log a value without parts
or null, for the names of the rules to leave out a list of values without parts. -/
inductive Fits : String → Value → Prop
  | null : Fits logLevelKey .null
  | level {v : Value} (h : IsScalar v) : Fits logLevelKey v
  | exclude {vs : List Value} (h : ∀ v ∈ vs, IsScalar v) : Fits excludeKey (.array vs)

theorem exists_scalarText?_iff {v : Value} : (∃ s, scalarText? v = some s) ↔ IsScalar v := by
  constructor
  · rintro ⟨s, hs⟩
    cases v with
    | bool b => exact .bool b
    | integer n => exact .integer n
    | float x => exact .float x
    | string s => exact .string s
    | _ => cases hs
  · rintro (b | n | x | s) <;> exact ⟨_, rfl⟩

/-- The environment gives a value without parts, whatever its text is. -/
theorem isScalar_readText (text : String) : IsScalar (readText text) := by
  unfold readText
  dsimp only
  split
  · exact .bool true
  split
  · exact .bool false
  split
  · exact .integer _
  · exact .float _
  · exact .string _

theorem mapM_scalarText?_eq_some_iff {vs : List Value} {names : List String} :
    vs.mapM scalarText? = some names ↔
      List.Forall₂ (fun v s => scalarText? v = some s) vs names := by
  induction vs generalizing names with
  | nil => simp [eq_comm]
  | cons v vs ih =>
    rw [List.mapM_cons, List.forall₂_cons_left_iff]
    simp only [Option.bind_eq_bind, Option.bind_eq_some_iff, Option.pure_def, Option.some_inj, ih]
    constructor
    · rintro ⟨s, hs, names, hnames, rfl⟩
      exact ⟨s, names, hs, hnames, rfl⟩
    · rintro ⟨s, names, hs, hnames, rfl⟩
      exact ⟨s, hs, names, hnames, rfl⟩

theorem exists_mapM_scalarText?_iff {vs : List Value} :
    (∃ names, vs.mapM scalarText? = some names) ↔ ∀ v ∈ vs, IsScalar v := by
  simp only [mapM_scalarText?_eq_some_iff, ← exists_scalarText?_iff]
  induction vs with
  | nil => exact iff_of_true ⟨[], .nil⟩ fun _ h => absurd h List.not_mem_nil
  | cons v vs ih =>
    rw [List.forall_mem_cons, ← ih]
    constructor
    · rintro ⟨_, hs | ⟨hs, hnames⟩⟩
      exact ⟨⟨_, hs⟩, _, hnames⟩
    · rintro ⟨⟨s, hs⟩, names, hnames⟩
      exact ⟨s :: names, .cons hs hnames⟩

theorem fits_logLevel_iff {v : Value} : Fits logLevelKey v ↔ v = .null ∨ IsScalar v := by
  constructor
  · intro h
    generalize hknown : logLevelKey = known at h
    cases h with
    | null => exact Or.inl rfl
    | level h => exact Or.inr h
    | exclude _ => exact absurd hknown (by decide)
  · rintro (rfl | h)
    exacts [.null, .level h]

theorem fits_exclude_iff {v : Value} :
    Fits excludeKey v ↔ ∃ vs, v = .array vs ∧ ∀ u ∈ vs, IsScalar u := by
  constructor
  · intro h
    generalize hknown : excludeKey = known at h
    cases h with
    | exclude h => exact ⟨_, rfl, h⟩
    | _ => exact absurd hknown (by decide)
  · rintro ⟨vs, rfl, h⟩
    exact .exclude h

theorem readLogLevel_eq_ok_iff {o : Option Value} {level : Option String} :
    readLogLevel o = .ok level ↔ (o = none ∨ o = some .null) ∧ level = none ∨
      ∃ v s, o = some v ∧ scalarText? v = some s ∧ level = some s := by
  obtain _ | v := o
  · simp [readLogLevel, eq_comm]
  · cases v <;> simp [readLogLevel, scalarText?, eq_comm]

theorem exists_readLogLevel_eq_error_iff {o : Option Value} :
    (∃ e, readLogLevel o = .error e) ↔ ∃ v, o = some v ∧ ¬ Fits logLevelKey v := by
  simp only [fits_logLevel_iff, ← exists_scalarText?_iff]
  obtain _ | v := o
  · simp [readLogLevel]
  · cases v <;> simp [readLogLevel, scalarText?]

theorem readExclude_eq_ok_iff {o : Option Value} {names : List String} :
    readExclude o = .ok names ↔ o = none ∧ names = [] ∨ ∃ vs, o = some (.array vs) ∧
      List.Forall₂ (fun v s => scalarText? v = some s) vs names := by
  obtain _ | v := o
  · simp [readExclude, eq_comm]
  · cases v with
    | array vs =>
      simp only [← mapM_scalarText?_eq_some_iff, readExclude]
      cases hnames : vs.mapM scalarText? <;> simp [hnames]
    | _ => simp [readExclude]

theorem exists_readExclude_eq_error_iff {o : Option Value} :
    (∃ e, readExclude o = .error e) ↔ ∃ v, o = some v ∧ ¬ Fits excludeKey v := by
  simp only [fits_exclude_iff, ← exists_mapM_scalarText?_iff]
  obtain _ | v := o
  · simp [readExclude]
  · cases v with
    | array vs => cases hnames : vs.mapM scalarText? <;> simp [readExclude, hnames]
    | _ => simp [readExclude]

/-- The names in a text are those that were joined to it. -/
theorem splitList_intercalate {names : List String} (hne : names ≠ [])
    (hcomma : ∀ name ∈ names, ',' ∉ name.toList) :
    splitList (String.intercalate "," names) = names := by
  have hsplit : (List.intercalate [','] (names.map String.toList)).splitOn ',' =
      names.map String.toList :=
    List.splitOn_intercalate ',' (List.forall_mem_map.mpr hcomma) (by rwa [Ne, List.map_eq_nil_iff])
  have hcommaText : ",".toList = [','] := by rfl
  rw [splitList, String.toList_intercalate, hcommaText, hsplit, List.map_map]
  exact List.map_id'' (fun _ => String.ofList_toList) names

/-! ## 5. Each setting by itself -/

/-- **What the level of the log is**: a variable of the environment, as it reads, else what the file
says, else nothing. -/
inductive LevelIs (file : List (String × Value)) (env : Environment) : Option String → Prop
  | byVariable {text s : String} (h : env.Sets logLevelKey text)
      (hs : scalarText? (readText text) = some s) : LevelIs file env (some s)
  | byFile {v : Value} {s : String} (h : env.Leaves logLevelKey)
      (hv : file.lookup logLevelKey = some v) (hs : scalarText? v = some s) :
      LevelIs file env (some s)
  | byNull (h : env.Leaves logLevelKey) (hv : file.lookup logLevelKey = some .null) :
      LevelIs file env none
  | byDefault (h : env.Leaves logLevelKey) (hv : file.lookup logLevelKey = none) :
      LevelIs file env none

/-- **What the names of the rules to leave out are**: the items of a variable of the environment,
else what the file lists, else none. -/
inductive ExcludeIs (file : List (String × Value)) (env : Environment) : List String → Prop
  | byVariable {text : String} (h : env.Sets excludeKey text) : ExcludeIs file env (splitList text)
  | byFile {vs : List Value} {names : List String} (h : env.Leaves excludeKey)
      (hv : file.lookup excludeKey = some (.array vs))
      (hnames : List.Forall₂ (fun v s => scalarText? v = some s) vs names) :
      ExcludeIs file env names
  | byDefault (h : env.Leaves excludeKey) (hv : file.lookup excludeKey = none) :
      ExcludeIs file env []

theorem levelIs_iff (hapart : env.Apart) {level : Option String} :
    readLogLevel (layered file env logLevelKey) = .ok level ↔ LevelIs file env level := by
  rw [readLogLevel_eq_ok_iff]
  constructor
  · intro h
    obtain ⟨text, htext⟩ | hleaves := sets_or_leaves env logLevelKey
    · rw [layered_of_sets hapart htext] at h
      obtain ⟨hnull | hnull, -⟩ | ⟨v, s, hv, hs, rfl⟩ := h
      · cases hnull
      · have hscalar := isScalar_readText text
        rw [show readText text = .null from Option.some.inj hnull] at hscalar
        cases hscalar
      · cases hv
        exact .byVariable htext hs
    · rw [layered_of_leaves hleaves] at h
      obtain ⟨hnone | hnull, rfl⟩ | ⟨v, s, hv, hs, rfl⟩ := h
      · exact .byDefault hleaves hnone
      · exact .byNull hleaves hnull
      · exact .byFile hleaves hv hs
  · rintro (⟨htext, hs⟩ | ⟨hleaves, hv, hs⟩ | ⟨hleaves, hv⟩ | ⟨hleaves, hv⟩)
    · exact Or.inr ⟨_, _, layered_of_sets hapart htext, hs, rfl⟩
    · exact Or.inr ⟨_, _, (layered_of_leaves hleaves).trans hv, hs, rfl⟩
    · exact Or.inl ⟨Or.inr ((layered_of_leaves hleaves).trans hv), rfl⟩
    · exact Or.inl ⟨Or.inl ((layered_of_leaves hleaves).trans hv), rfl⟩

/-- The items of a variable are read as they stand, whether or not they look like other values. -/
theorem readExclude_readVariable (text : String) :
    readExclude (some (readVariable excludeKey text)) = .ok (splitList text) := by
  refine readExclude_eq_ok_iff.mpr (Or.inr ⟨_, rfl, ?_⟩)
  exact List.forall₂_map_left_iff.mpr (List.forall₂_same.mpr fun _ _ => rfl)

theorem excludeIs_iff (hapart : env.Apart) {names : List String} :
    readExclude (layered file env excludeKey) = .ok names ↔ ExcludeIs file env names := by
  constructor
  · intro h
    obtain ⟨text, htext⟩ | hleaves := sets_or_leaves env excludeKey
    · rw [layered_of_sets hapart htext, readExclude_readVariable] at h
      cases h
      exact .byVariable htext
    · rw [layered_of_leaves hleaves, readExclude_eq_ok_iff] at h
      obtain ⟨hnone, rfl⟩ | ⟨vs, hvs, hnames⟩ := h
      · exact .byDefault hleaves hnone
      · exact .byFile hleaves hvs hnames
  · rintro (htext | ⟨hleaves, hv, hnames⟩ | ⟨hleaves, hv⟩)
    · rw [layered_of_sets hapart htext, readExclude_readVariable]
    · exact readExclude_eq_ok_iff.mpr
        (Or.inr ⟨_, (layered_of_leaves hleaves).trans hv, hnames⟩)
    · exact readExclude_eq_ok_iff.mpr (Or.inl ⟨(layered_of_leaves hleaves).trans hv, rfl⟩)

/-- **A value of the file that stands and does not fit.** -/
def Unfit (file : List (String × Value)) (env : Environment) (key : String) : Prop :=
  env.Leaves key ∧ ∃ v, file.lookup key = some v ∧ ¬ Fits key v

/-- What a variable says fits. -/
theorem fits_readVariable (hknown : known ∈ [logLevelKey, excludeKey]) (text : String) :
    Fits known (readVariable known text) := by
  obtain rfl | rfl : known = logLevelKey ∨ known = excludeKey := by simpa using hknown
  · exact .level (isScalar_readText text)
  · refine .exclude fun v hv => ?_
    obtain ⟨s, -, rfl⟩ := List.mem_map.mp hv
    exact .string s

theorem unfit_iff (hapart : env.Apart) (hknown : known ∈ [logLevelKey, excludeKey]) :
    (∃ v, layered file env known = some v ∧ ¬ Fits known v) ↔ Unfit file env known := by
  obtain ⟨text, htext⟩ | hleaves := sets_or_leaves env known
  · rw [layered_of_sets hapart htext]
    refine iff_of_false ?_ fun h => htext.not_leaves h.1
    rintro ⟨v, hv, hmisfit⟩
    cases hv
    exact hmisfit (fits_readVariable hknown text)
  · rw [layered_of_leaves hleaves]
    exact (and_iff_right hleaves).symm

theorem loadIn_eq_ok_iff (hformats : ∀ format ∈ formats, format.KeysApart)
    (hfile : loadMembers formats files path = .ok file) (hapart : env.Apart)
    (hpaths : NoneLeadsIn file env) {settings : Settings} :
    loadIn formats files path env = .ok settings ↔
      LevelIs file env settings.logLevel ∧ ExcludeIs file env settings.exclude := by
  rw [loadIn_eq hformats hfile hpaths, ← levelIs_iff hapart, ← excludeIs_iff hapart]
  obtain ⟨level, exclude⟩ := settings
  cases readLogLevel (layered file env logLevelKey) with
  | error e => simp [bind, Except.bind]
  | ok l => cases readExclude (layered file env excludeKey) <;> simp [bind, Except.bind]

theorem exists_loadIn_eq_error_iff (hformats : ∀ format ∈ formats, format.KeysApart)
    (hfile : loadMembers formats files path = .ok file) (hapart : env.Apart)
    (hpaths : NoneLeadsIn file env) :
    (∃ e, loadIn formats files path env = .error e) ↔ ∃ known ∈ [logLevelKey, excludeKey],
      Unfit file env known := by
  have hunfit (known : String) (hknown : known ∈ [logLevelKey, excludeKey]) :
      Unfit file env known ↔ ∃ v, layered file env known = some v ∧ ¬ Fits known v :=
    (unfit_iff hapart hknown).symm
  rw [loadIn_eq hformats hfile hpaths]
  simp only [List.exists_mem_cons_iff, List.not_mem_nil, false_and, exists_false, or_false,
    hunfit logLevelKey (by decide), hunfit excludeKey (by decide),
    ← exists_readLogLevel_eq_error_iff, ← exists_readExclude_eq_error_iff]
  cases readLogLevel (layered file env logLevelKey) with
  | error e => simp [bind, Except.bind]
  | ok l => cases readExclude (layered file env excludeKey) <;> simp [bind, Except.bind]

/-- **The settings are resolved key by key**, whatever the formats of settings files are.  Where no
two names of the environment differ in case only and no key is a path into a setting, each setting is
what its own key says, there are none just when the file has an unfit value for a setting that the
environment leaves to it, no other key or variable matters, and names without commas are read from the
environment as they were joined. -/
theorem load_key_by_key (formats : List Format) (hformats : ∀ format ∈ formats, format.KeysApart)
    (files : Files) (path : Option String) (env : Environment)
    (file : List (String × Value)) (hfile : loadMembers formats files path = .ok file)
    (hapart : env.Apart) (hpaths : NoneLeadsIn file env) :
    (∀ settings, loadIn formats files path env = .ok settings ↔
      LevelIs file env settings.logLevel ∧ ExcludeIs file env settings.exclude) ∧
    ((∃ e, loadIn formats files path env = .error e) ↔
      ∃ known ∈ [logLevelKey, excludeKey], Unfit file env known) ∧
    (∀ formats' files' path' env' file', (∀ format ∈ formats', format.KeysApart) →
      loadMembers formats' files' path' = .ok file' → env'.Apart → NoneLeadsIn file' env' →
      (∀ known ∈ [logLevelKey, excludeKey], (∀ text, env'.Sets known text ↔ env.Sets known text) ∧
        (env.Leaves known → file'.lookup known = file.lookup known)) →
      loadIn formats' files' path' env' = loadIn formats files path env) ∧
    (∀ names ≠ [], (∀ name ∈ names, ',' ∉ name.toList) →
      env.Sets excludeKey (String.intercalate "," names) → ¬ Unfit file env logLevelKey →
      ∃ settings, loadIn formats files path env = .ok settings ∧ settings.exclude = names) := by
  have herror := exists_loadIn_eq_error_iff hformats hfile hapart hpaths
  refine ⟨fun settings => loadIn_eq_ok_iff hformats hfile hapart hpaths, herror, ?_, ?_⟩
  · intro formats' files' path' env' file' hformats' hfile' hapart' hpaths' hsame
    have heq (known : String) (hknown : known ∈ [logLevelKey, excludeKey]) :
        layered file' env' known = layered file env known :=
      layered_congr hapart hapart' (hsame known hknown).1 (hsame known hknown).2
    rw [loadIn_eq hformats' hfile' hpaths', loadIn_eq hformats hfile hpaths,
      heq logLevelKey (by decide), heq excludeKey (by decide)]
  · intro names hne hcomma hsets hfit
    cases hload : loadIn formats files path env with
    | error e =>
      obtain ⟨known, hknown, hunfit⟩ := herror.mp ⟨e, hload⟩
      obtain rfl | rfl : known = logLevelKey ∨ known = excludeKey := by simpa using hknown
      · exact absurd hunfit hfit
      · exact absurd hunfit.1 hsets.not_leaves
    | ok settings =>
      have hexclude := (excludeIs_iff hapart).mpr
        ((loadIn_eq_ok_iff hformats hfile hapart hpaths).mp hload).2
      rw [layered_of_sets hapart hsets, readExclude_readVariable,
        splitList_intercalate hne hcomma] at hexclude
      exact ⟨settings, rfl, (Except.ok.inj hexclude).symm⟩

/-- A settings file whose values for both settings are unfit. -/
def unfitFile : Folder :=
  .ofPaths [("config/dashlint.toml",
    "log_level = [1]\nexclude = true\nextra = 2\n".toList.map fun c => UInt8.ofNat c.toNat)]

/-- Where the environment stands in for both they do no harm, and its items stay as they are. -/
theorem load_key_by_key_unfitFile :
    load unfitFile.files none [("DASHLINT_LOG_LEVEL", "007"), ("PATH", "a"),
      ("dashlint_Exclude", "true,1.5")] = .ok ⟨some "7", ["true", "1.5"]⟩ ∧
    ∃ e, load unfitFile.files none [("dashlint_Exclude", "true,1.5")] = .error e := by
  have hread : (loadMembers Format.known unfitFile.files none).map (fun file => decide
      (NoneLeadsIn file [("DASHLINT_LOG_LEVEL", "007"), ("PATH", "a"),
        ("dashlint_Exclude", "true,1.5")] ∧ NoneLeadsIn file [("dashlint_Exclude", "true,1.5")] ∧
        readLogLevel (file.lookup logLevelKey) = .error (.wrongType logLevelKey))) = .ok true := by
    decide +kernel
  cases hfile : loadMembers Format.known unfitFile.files none with
  | error e =>
    rw [hfile] at hread
    cases hread
  | ok file =>
    rw [hfile] at hread
    obtain ⟨hboth, hone, hunfit⟩ := of_decide_eq_true (Except.ok.inj hread)
    constructor
    · have hkeys := load_key_by_key Format.known keysApart_known unfitFile.files none _ file hfile
        (by decide +kernel) hboth
      refine (hkeys.1 _).mpr ⟨.byVariable ⟨"DASHLINT_LOG_LEVEL", by decide, by decide⟩
          (show scalarText? (readText "007") = _ by decide +kernel), ?_⟩
      have hitems : splitList "true,1.5" = ["true", "1.5"] := by decide +kernel
      exact hitems ▸ .byVariable ⟨"dashlint_Exclude", by decide, by decide⟩
    · have hkeys := load_key_by_key Format.known keysApart_known unfitFile.files none _ file hfile
        (by decide +kernel) hone
      exact hkeys.2.1.mpr
        ⟨logLevelKey, by decide, by decide +kernel, exists_readLogLevel_eq_error_iff.mp ⟨_, hunfit⟩⟩

/-- A settings file with a path into the names of the rules to leave out. -/
def pathFile : Folder :=
  .ofPaths [("config/dashlint.toml",
    "\"exclude[0]\" = \"target-promql-rule\"\n".toList.map fun c => UInt8.ofNat c.toNat)]

/-- **A path into a setting matters**, though neither the file nor the environment has the setting
itself: nothing would be left out without it. -/
theorem path_into_exclude_matters :
    (∃ file, loadMembers Format.known pathFile.files none = .ok file ∧ file.lookup excludeKey = none) ∧
    load pathFile.files none [] = .ok { exclude := ["target-promql-rule"] } ∧
    load (Folder.files (.ofPaths [])) none [] = .ok {} := by
  have hlookup : (loadMembers Format.known pathFile.files none).map
      (fun file => (file.lookup excludeKey).isNone) = .ok true := by
    decide +kernel
  refine ⟨?_, by decide +kernel, by decide +kernel⟩
  cases hfile : loadMembers Format.known pathFile.files none with
  | error e =>
    rw [hfile] at hlookup
    cases hlookup
  | ok file =>
    rw [hfile] at hlookup
    exact ⟨file, rfl, Option.isNone_iff_eq_none.mp (Except.ok.inj hlookup)⟩

end PanelLint.Settings
