import Mathlib.Data.List.Pairwise
import PanelLint.Proofs.Dashboard.Reading
import PanelLint.Proofs.Json.Members
/-!
# What the records of a dashboard have in common

Every record of a dashboard is read in the same manner (`Regular`), whatever its fields: each field
reads `null` as what the record has before anything is read, no field disturbs another, and each
looks at its value only as far as the shape of the field does (`Shape.ReadAlike`).

So three changes to the members of a record are not noticed, neither in what is read nor in the
error: other values that are read alike (`Regular.readMembers_congr`), a member of no field
(`readMembers_unknown`), and a `null` where the key does not stand a second time
(`Regular.readMembers_null`).
-/

namespace PanelLint

open Json (Value)
open Json.Value (Alike)

namespace Dashboard

/-! ## 1. Values that are read alike -/

/-- **Values of which the same record is read**, or which are refused with the same error. -/
def Part.ReadAlike : Part → Value → Value → Prop
  | .dashboard, v, v' => ofJson v = ofJson v'
  | .row, v, v' => readRow v = readRow v'
  | .templating, v, v' => readTemplating v = readTemplating v'
  | .panel, v, v' => readPanel v = readPanel v'
  | .target, v, v' => readTarget v = readTarget v'
  | .template, v, v' => readTemplate v = readTemplate v'
  | .current, v, v' => readCurrent v = readCurrent v'

/-- The same of the values of a shape; two lists are read alike if their items are. -/
inductive Shape.ReadAlike : Shape → Value → Value → Prop
  | refl (s : Shape) (v : Value) : Shape.ReadAlike s v v
  | query {v v' : Value} : readQuery v = readQuery v' → Shape.ReadAlike .query v v'
  | part {p : Part} {v v' : Value} : p.ReadAlike v v' → Shape.ReadAlike (.part p) v v'
  | list {p : Part} {vs vs' : List Value} : List.Forall₂ p.ReadAlike vs vs' →
      Shape.ReadAlike (.list p) (.array vs) (.array vs')

/-- Values that are read alike under a key of a record, if a field has this key. -/
def Part.AlikeInFields (p : Part) (key : String) (v v' : Value) : Prop :=
  ∀ s, (key, s) ∈ p.fields → s.ReadAlike v v'

theorem Part.readAlike_refl (p : Part) (v : Value) : p.ReadAlike v v := by
  cases p <;> rfl

variable {α β γ : Type} {v v' : Value} {p : Part}

theorem mapM_eq_of_forall₂ {item : Value → Except SchemaError α} {vs vs' : List Value}
    (h : List.Forall₂ (fun v v' => item v = item v') vs vs') : vs.mapM item = vs'.mapM item := by
  induction h with
  | nil => rfl
  | cons hv _ ih => rw [List.mapM_cons, List.mapM_cons, hv, ih]

namespace Shape.ReadAlike

theorem readString_eq (h : ReadAlike .text v v') : readString v = readString v' := by
  cases h
  rfl

theorem readInteger_eq (h : ReadAlike .integer v v') : readInteger v = readInteger v' := by
  cases h
  rfl

theorem readValue_eq (h : ReadAlike .anything v v') : readValue v = readValue v' := by
  cases h
  rfl

theorem readQuery_eq (h : ReadAlike .query v v') : readQuery v = readQuery v' := by
  cases h with
  | refl => rfl
  | query h => exact h

theorem of_part (h : ReadAlike (.part p) v v') : p.ReadAlike v v' := by
  cases h with
  | refl => exact p.readAlike_refl v
  | part h => exact h

theorem readList_eq {item : Value → Except SchemaError α} (h : ReadAlike (.list p) v v')
    (hitem : ∀ w w', p.ReadAlike w w' → item w = item w') : readList item v = readList item v' := by
  cases h with
  | refl => rfl
  | list h => exact mapM_eq_of_forall₂ (h.imp hitem)

end Shape.ReadAlike

/-! ## 2. Fields that do not disturb each other -/

/-- **A field that has not been read yet**: for `null` it leaves the record as it is. -/
def Blank (field : Field α) (r : α) : Prop := field.2 r .null = .ok r

/-- After the first field is read the second is as blank as before. -/
def Keeps (field other : Field α) : Prop :=
  ∀ {r v r'}, field.2 r v = .ok r' → Blank other r → Blank other r'

/-- Neither of two fields disturbs the other. -/
def Apart (field other : Field α) : Prop := Keeps field other ∧ Keeps other field

instance : Std.Symm (@Apart α) := ⟨fun _ _ h => ⟨h.2, h.1⟩⟩

/-- Fields with setters for two parts of a record do not disturb each other. -/
theorem apart_map {key key' : String} {reader : Value → Except SchemaError β}
    {reader' : Value → Except SchemaError γ} {set : α → β → α} {set' : α → γ → α}
    (h : ∀ r x y, set' (set r x) y = set (set' r y) x) :
    Apart (key, fun r v => set r <$> reader v) (key', fun r v => set' r <$> reader' v) := by
  -- one direction, for whichever field comes first
  have hkeeps : ∀ {β γ : Type} {key key' : String} {reader : Value → Except SchemaError β}
      {reader' : Value → Except SchemaError γ} {set : α → β → α} {set' : α → γ → α},
      (∀ r x y, set' (set r x) y = set (set' r y) x) →
        Keeps (key, fun r v => set r <$> reader v) (key', fun r v => set' r <$> reader' v) := by
    intro β γ key key' reader reader' set set' hcomm r v r' hread hblank
    dsimp only [Blank] at hread hblank ⊢
    cases hx : reader v with
    | error e =>
      rw [hx] at hread
      cases hread
    | ok x =>
      rw [hx] at hread
      obtain rfl : set r x = r' := Except.ok.inj hread
      cases hy : reader' .null with
      | error e =>
        rw [hy] at hblank
        cases hblank
      | ok y =>
        rw [hy] at hblank
        have hsame : set' r y = r := Except.ok.inj hblank
        exact congrArg Except.ok ((hcomm r x y).trans (by rw [hsame]))
  exact ⟨hkeeps h, hkeeps fun r x y => (h r y x).symm⟩

/-- A field that looks at its value as far as its shape does. -/
def LooksAt (field : Field α) (shape : String × Shape) : Prop :=
  field.1 = shape.1 ∧ ∀ r v v', shape.2.ReadAlike v v' → field.2 r v = field.2 r v'

theorem looksAt_bind {key : String} {s : Shape} {reader : Value → Except SchemaError β}
    {set : α → β → Except SchemaError α} (h : ∀ v v', s.ReadAlike v v' → reader v = reader v') :
    LooksAt (key, fun r v => reader v >>= set r) (key, s) :=
  ⟨rfl, fun r v v' hv => congrArg (· >>= set r) (h v v' hv)⟩

/-- **The fields of a record are those of the schema**, blank at first, and apart. -/
structure Regular (fields : List (Field α)) (empty : α) (p : Part) : Prop where
  blank : ∀ field ∈ fields, Blank field empty
  apart : fields.Pairwise Apart
  looksAt : List.Forall₂ LooksAt fields p.fields

theorem exists_of_forall₂_of_mem {β γ : Type} {R : β → γ → Prop} {xs : List β} {ys : List γ} {x : β}
    (h : List.Forall₂ R xs ys) (hx : x ∈ xs) : ∃ y ∈ ys, R x y := by
  induction h with
  | nil => cases hx
  | cons hxy _ ih =>
    rcases List.mem_cons.mp hx with rfl | hx
    · exact ⟨_, List.mem_cons_self, hxy⟩
    · obtain ⟨y, hy, hxy⟩ := ih hx
      exact ⟨y, List.mem_cons_of_mem _ hy, hxy⟩

/-! ## 3. Changes that are not noticed -/

variable {fields : List (Field α)} {empty r : α} {key name : String}
  {ms ms' front back : List (String × Value)}

/-- A member of no field is passed over. -/
theorem readMembers_unknown (h : key ∉ keysOf fields) (r : α) (w : Value) :
    readMembers fields r (front ++ (key, w) :: back) = readMembers fields r (front ++ back) := by
  induction front generalizing r with
  | nil =>
    rw [List.nil_append, readMembers_cons, Value.lookup_eq_none_iff_not_mem.mpr h]
    rfl
  | cons m front ih =>
    obtain ⟨k, u⟩ := m
    rw [List.cons_append, List.cons_append, readMembers_cons, readMembers_cons]
    exact bind_congr ih

namespace Regular

theorem keys (h : Regular fields empty p) : keysOf fields = p.keys := by
  have hkeys : List.Forall₂ (fun x y => x = y) (keysOf fields) p.keys := by
    rw [Part.keys, List.forall₂_map_left_iff, List.forall₂_map_right_iff]
    exact h.looksAt.imp fun _ _ hlooks => hlooks.1
  exact List.forall₂_eq_eq_eq ▸ hkeys

theorem nodup (h : Regular fields empty p) : (keysOf fields).Nodup := h.keys ▸ p.nodup_keys

theorem lookup_congr (h : Regular fields empty p) {key : String} {w w' : Value}
    (hw : p.AlikeInFields key w w') (r : α) :
    (fields.lookup key).elim (.ok r) (fun read => read r w) =
      (fields.lookup key).elim (.ok r) (fun read => read r w') := by
  cases hlookup : fields.lookup key with
  | none => rfl
  | some read =>
    have hmem : (key, read) ∈ fields :=
      (Value.lookup_eq_some_iff_of_nodup h.nodup).mp hlookup
    obtain ⟨⟨key', s⟩, hs, rfl, hlooks⟩ := exists_of_forall₂_of_mem h.looksAt hmem
    exact hlooks r w w' (hw s hs)

/-- **Members that are read alike** in each field make the same record. -/
theorem readMembers_congr (h : Regular fields empty p)
    (hms : Alike p.AlikeInFields ms ms') (r : α) :
    readMembers fields r ms = readMembers fields r ms' := by
  induction hms generalizing r with
  | nil => rfl
  | @cons m m' ms ms' hm _ ih =>
    obtain ⟨key, w⟩ := m
    obtain ⟨key', w'⟩ := m'
    obtain ⟨rfl, hw⟩ := hm
    rw [readMembers_cons, readMembers_cons, h.lookup_congr hw]
    exact bind_congr ih

/-- **A `null` is not noticed** under a key that did not stand before it. -/
theorem readMembers_null (h : Regular fields empty p) (hkey : key ∉ front.map Prod.fst) :
    readMembers fields empty (front ++ (key, .null) :: back) =
      readMembers fields empty (front ++ back) := by
  by_cases hfield : key ∈ keysOf fields
  · obtain ⟨field, hmem, rfl⟩ := List.mem_map.mp hfield
    have hlookup : fields.lookup field.1 = some field.2 :=
      (Value.lookup_eq_some_iff_of_nodup h.nodup).mpr hmem
    -- the field stays blank while the members before it are read
    suffices hall : ∀ r, Blank field r →
        readMembers fields r (front ++ (field.1, .null) :: back) =
          readMembers fields r (front ++ back) from
      hall empty (h.blank field hmem)
    induction front with
    | nil =>
      intro r hblank
      rw [List.nil_append, readMembers_cons, hlookup, Option.elim_some, hblank]
      rfl
    | cons m front ih =>
      obtain ⟨k, u⟩ := m
      rw [List.map_cons, List.mem_cons, not_or] at hkey
      intro r hblank
      rw [List.cons_append, List.cons_append, readMembers_cons, readMembers_cons]
      cases hother : fields.lookup k with
      | none => exact ih hkey.2 r hblank
      | some read =>
        rw [Option.elim_some]
        cases hread : read r u with
        | error e => rfl
        | ok r' =>
          have hother' : (k, read) ∈ fields := (Value.lookup_eq_some_iff_of_nodup h.nodup).mp hother
          have hapart : Apart (k, read) field :=
            h.apart.forall hother' hmem fun heq => hkey.1 (heq ▸ rfl)
          exact ih hkey.2 r' (hapart.1 hread hblank)
  · exact readMembers_unknown hfield empty .null

/-- Arrays are read alike where each of their elements is read alike in the field of its place. -/
theorem readRecord_array_congr (h : Regular fields empty p) {vs vs' : List Value}
    (hlength : vs.length = vs'.length)
    (hvs : Alike p.AlikeInFields (p.keys.zip vs) (p.keys.zip vs')) :
    readRecord name fields empty (.array vs) = readRecord name fields empty (.array vs') := by
  have hpositions : readPositions fields empty vs = readPositions fields empty vs' := by
    rw [readPositions_eq_readMembers [] fields h.nodup,
      readPositions_eq_readMembers [] fields h.nodup, h.keys]
    exact h.readMembers_congr hvs empty
  rw [readRecord, readRecord, hpositions, hlength]

end Regular

/-! ## 4. The records of the schema -/

theorem regular_target : Regular targetFields {} .target where
  blank := by simp [targetFields, Blank, readString, readInteger]
  apart := by simp [targetFields, apart_map]
  looksAt := .cons (looksAt_bind fun _ _ h => h.readString_eq) <|
    .cons (looksAt_bind fun _ _ h => h.readInteger_eq) <|
    .cons (looksAt_bind fun _ _ h => h.readString_eq) .nil

theorem regular_current : Regular currentFields {} .current where
  blank := by simp [currentFields, Blank, readValue]
  apart := by simp [currentFields]
  looksAt := .cons ⟨rfl, fun _ _ _ h => by simp only [h.readValue_eq]⟩ .nil

theorem regular_template : Regular templateFields {} .template where
  blank := by simp [templateFields, Blank, readString, readQuery, readCurrent]
  apart := by simp [templateFields, apart_map]
  looksAt := .cons (looksAt_bind fun _ _ h => h.readString_eq) <|
    .cons (looksAt_bind fun _ _ h => h.readString_eq) <|
    .cons (looksAt_bind fun _ _ h => h.readQuery_eq) <|
    .cons (looksAt_bind fun _ _ h => h.of_part) .nil

theorem regular_templating : Regular templatingFields {} .templating where
  blank := by
    simp [templatingFields, Blank, readList, readItems, bind, Except.bind, pure, Except.pure]
  apart := by simp [templatingFields]
  looksAt := .cons (looksAt_bind fun _ _ h => h.readList_eq fun _ _ h => h) .nil

theorem regular_panel : Regular panelFields {} .panel where
  blank := by
    simp [panelFields, Blank, readString, readInteger, readList, readItems, bind, Except.bind, pure,
      Except.pure]
  apart := by simp [panelFields, apart_map]
  looksAt := .cons (looksAt_bind fun _ _ h => h.readInteger_eq) <|
    .cons (looksAt_bind fun _ _ h => h.readString_eq) <|
    .cons (looksAt_bind fun _ _ h => h.readString_eq) <|
    .cons (looksAt_bind fun _ _ h => h.readList_eq fun _ _ h => h) <|
    .cons (looksAt_bind fun _ _ h => h.readList_eq fun _ _ h => h) .nil

theorem readPanelList_congr (h : Shape.ReadAlike (.list .panel) v v') :
    readPanelList v = readPanelList v' := by
  rw [readPanelList_eq, readPanelList_eq]
  exact h.readList_eq fun _ _ h => h

theorem regular_row : Regular rowFields {} .row where
  blank := by simp [rowFields, Blank, readPanelList]
  apart := by simp [rowFields]
  looksAt := .cons (looksAt_bind fun _ _ h => readPanelList_congr h) .nil

theorem regular_dashboard : Regular dashboardFields {} .dashboard where
  blank := by
    simp [dashboardFields, Blank, readString, readPanelList, readTemplating, readList, readItems,
      bind, Except.bind, pure, Except.pure]
  apart := by simp [dashboardFields, apart_map]
  looksAt := .cons (looksAt_bind fun _ _ h => h.readString_eq) <|
    .cons (looksAt_bind fun _ _ h => readPanelList_congr h) <|
    .cons (looksAt_bind fun _ _ h => h.readList_eq fun _ _ h => h) <|
    .cons (looksAt_bind fun _ _ h => h.of_part) .nil

theorem readTemplating_of_ne_null (h : v ≠ .null) :
    readTemplating v = readRecord "Templating" templatingFields {} v := by
  cases v with
  | null => exact absurd rfl h
  | _ => rfl

theorem readCurrent_of_ne_null (h : v ≠ .null) :
    readCurrent v = (readRecord "Current" currentFields {} v).map some := by
  cases v with
  | null => exact absurd rfl h
  | _ => rfl

/-- **A part is read as a regular record**, apart from `null`. -/
structure Part.IsRead (p : Part) (name : String) (fields : List (Field α)) (empty : α) : Prop where
  regular : Regular fields empty p
  readAlike : ∀ {v v' : Value}, v ≠ .null → v' ≠ .null →
    readRecord name fields empty v = readRecord name fields empty v' → p.ReadAlike v v'

/-- **Every part of a dashboard is read as a regular record.** -/
theorem Part.exists_isRead (p : Part) : ∃ (α : Type) (name : String) (fields : List (Field α))
    (empty : α), p.IsRead name fields empty := by
  cases p with
  | dashboard => exact ⟨_, _, _, _, regular_dashboard, fun _ _ h => h⟩
  | row => exact ⟨_, _, _, _, regular_row, fun _ _ h => h⟩
  | templating =>
    refine ⟨_, "Templating", _, _, regular_templating, fun hv hv' h => ?_⟩
    rwa [Part.ReadAlike, readTemplating_of_ne_null hv, readTemplating_of_ne_null hv']
  | panel =>
    refine ⟨_, "Panel", _, _, regular_panel, fun _ _ h => ?_⟩
    rwa [Part.ReadAlike, readPanel_eq, readPanel_eq]
  | target => exact ⟨_, _, _, _, regular_target, fun _ _ h => h⟩
  | template => exact ⟨_, _, _, _, regular_template, fun _ _ h => h⟩
  | current =>
    refine ⟨_, "Current", _, _, regular_current, fun hv hv' h => ?_⟩
    rw [Part.ReadAlike, readCurrent_of_ne_null hv, readCurrent_of_ne_null hv', h]

namespace Part

/-- Objects are read alike where their members are read alike in their fields. -/
theorem readAlike_object (p : Part) (h : Alike p.AlikeInFields ms ms') :
    p.ReadAlike (.object ms) (.object ms') := by
  obtain ⟨_, _, _, _, hread⟩ := p.exists_isRead
  exact hread.readAlike (by simp) (by simp) (hread.regular.readMembers_congr h _)

theorem readAlike_array (p : Part) {vs vs' : List Value} (hlength : vs.length = vs'.length)
    (h : Alike p.AlikeInFields (p.keys.zip vs) (p.keys.zip vs')) :
    p.ReadAlike (.array vs) (.array vs') := by
  obtain ⟨_, _, _, _, hread⟩ := p.exists_isRead
  exact hread.readAlike (by simp) (by simp) (hread.regular.readRecord_array_congr hlength h)

/-- **A member of no field is not noticed.** -/
theorem readAlike_unknown (p : Part) (h : key ∉ p.keys) (w : Value) :
    p.ReadAlike (.object (front ++ (key, w) :: back)) (.object (front ++ back)) := by
  obtain ⟨_, _, _, _, hread⟩ := p.exists_isRead
  rw [← hread.regular.keys] at h
  exact hread.readAlike (by simp) (by simp) (readMembers_unknown h _ w)

/-- **A `null` is not noticed** under a key that did not stand before it. -/
theorem readAlike_null (p : Part) (h : key ∉ front.map Prod.fst) :
    p.ReadAlike (.object (front ++ (key, .null) :: back)) (.object (front ++ back)) := by
  obtain ⟨_, _, _, _, hread⟩ := p.exists_isRead
  exact hread.readAlike (by simp) (by simp) (hread.regular.readMembers_null h)

end Part

/-- In a query nothing is looked at but its text. -/
theorem readQuery_unknown (h : key ≠ "query") (w : Value) :
    readQuery (.object (front ++ (key, w) :: back)) = readQuery (.object (front ++ back)) := by
  rw [readQuery, readQuery, List.lookup_append, List.lookup_append, Value.lookup_cons_eq,
    if_neg h.symm]

end Dashboard

end PanelLint
