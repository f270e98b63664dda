import PanelLint.Proofs.Dashboard.Conformance
/-!
# The reader of dashboards

The reader agrees with the schema (`reads_exactly_schema`): it succeeds on the values that conform,
and then gives what they say.  Each record is shown to do so from its fields (`okWhen_readRecord`),
for which it is enough to say of each which part of the record it settles, and how it is read
(`Says`).  A panel holds panels again, so there the induction is on the size of the value.

What a record says depends on what it has for its keys only.  So an array that gives its fields by
position is read like the object that has the same values under the keys (`ReadsPositions`).
-/

namespace PanelLint

open Json (Value)

namespace Dashboard

variable {α β : Type} {name key : String} {fields : List (Field α)} {empty r whole : α} {p : Part}
  {v : Value} {field : String × Shape} {part : α → β} {reader : Value → Except SchemaError β}
  {value : β}

/-! ## 1. Records -/

/-- **A field says a part of a record**: a reader reads it, just where what the record has for it
fits, as some value. -/
structure Says (fields : List (Field α)) (empty : α) (p : Part) (v : Value)
    (field : String × Shape) (part : α → β) (reader : Value → Except SchemaError β) (value : β) :
    Prop where
  keys : keysOf fields = p.keys
  isField : IsField fields field.1 part reader
  null : reader .null = .ok (part empty)
  okWhen : OkWhen (Fits field.2 (p.member v field.1)) value (reader (p.member v field.1))

namespace Says

/-- The field at some place of a record says the part that it settles. -/
theorem place (i : Nat) (hkeys : keysOf fields = p.keys)
    (hsettles : ∃ read, fields[i]? = some (field.1, read) ∧ Settles read part reader)
    (hleaves : ∀ other ∈ fields.eraseIdx i, Leaves other.2 part)
    (hnull : reader .null = .ok (part empty))
    (hok : OkWhen (Fits field.2 (p.member v field.1)) value (reader (p.member v field.1))) :
    Says fields empty p v field part reader value :=
  ⟨hkeys, isField_of_getElem? i (hkeys ▸ p.nodup_keys) hsettles hleaves, hnull, hok⟩

variable (h : Says fields empty p v field part reader value) (hv : v.Distinct)
  (hread : readRecord name fields empty v = .ok r)
include h hv hread

theorem of_ok : Fits field.2 (p.member v field.1) ∧ part r = value := by
  have hpart := part_of_readRecord h.isField (h.keys ▸ p.nodup_keys) hv h.null hread
  rw [h.keys] at hpart
  exact (h.okWhen _).mp hpart

theorem fits : Fits field.2 (p.member v field.1) := (h.of_ok hv hread).1

theorem part_eq : part r = value := (h.of_ok hv hread).2

end Says

/-- **A record is read where it conforms to its schema**, if each field says a part of it. -/
theorem okWhen_readRecord (hkeys : keysOf fields = p.keys) (hv : v.Distinct)
    (hfields : ∀ field ∈ p.fields, ∃ (β : Type) (part : α → β) (reader : Value → Except SchemaError β)
      (value : β), Says fields empty p v field part reader value)
    (hwhole : ∀ r, readRecord name fields empty v = .ok r → r = whole) :
    OkWhen (Conforms (.part p) v) whole (readRecord name fields empty v) := by
  have hnodup : (keysOf fields).Nodup := hkeys ▸ p.nodup_keys
  intro r
  rw [conforms_part_iff]
  constructor
  · intro hread
    refine ⟨⟨hkeys ▸ ((readRecord_eq_ok_iff hnodup).mp hread).1, fun field hfield => ?_⟩,
      hwhole r hread⟩
    obtain ⟨_, _, _, _, hfield⟩ := hfields field hfield
    exact hfield.fits hv hread
  · rintro ⟨⟨hrecord, hfits⟩, rfl⟩
    -- something is read, and what is read can only be the whole
    suffices hread : ∃ r', readRecord name fields empty v = .ok r' by
      obtain ⟨r', hread⟩ := hread
      rwa [hwhole r' hread] at hread
    refine exists_readRecord hnodup (hkeys ▸ hrecord) hv (fun key read hlookup r => ?_) empty
    have hkey : key ∈ p.keys := by
      rw [← hkeys]
      obtain ⟨front, back, heq, -⟩ := List.lookup_eq_some_iff.mp hlookup
      simp [keysOf, heq]
    obtain ⟨field, hmem, rfl⟩ := List.mem_map.mp hkey
    obtain ⟨_, _, _, value, hfield⟩ := hfields field hmem
    obtain ⟨read', hlookup', hsettles⟩ := hfield.isField.settles
    rw [hlookup, Option.some.injEq] at hlookup'
    subst hlookup'
    rw [hkeys]
    exact hsettles.exists_ok ((hfield.okWhen value).mpr ⟨hfits field hmem, rfl⟩)

/-! ## 2. Panels as records -/

/-- The fields of a panel. -/
def panelFields : List (Field Panel) :=
  [("id", fun p v => return { p with id := ← readInteger v }),
    ("title", fun p v => return { p with title := ← readString v }),
    ("type", fun p v => return { p with kind := ← readString v }),
    ("targets", fun p v => return { p with targets := ← readList readTarget v }),
    ("panels", fun p v => return { p with panels := ← readList readPanel v })]

theorem readPanels_eq (vs : List Value) : readPanels vs = vs.mapM readPanel := by
  induction vs with
  | nil => rw [readPanels, List.mapM_nil]; rfl
  | cons v vs ih =>
    rw [readPanels, List.mapM_cons, ih]
    rfl

theorem readPanelList_eq (v : Value) : readPanelList v = readList readPanel v := by
  cases v with
  | array vs =>
    rw [readPanelList, readPanels_eq]
    rfl
  | null =>
    rw [readPanelList]
    rfl
  | _ => rfl

theorem readPanelMembers_eq (p : Panel) (ms : List (String × Value)) :
    readPanelMembers p ms = readMembers panelFields p ms := by
  induction ms generalizing p with
  | nil =>
    rw [readPanelMembers]
    rfl
  | cons m ms ih =>
    obtain ⟨key, v⟩ := m
    rw [readMembers_cons, readPanelMembers, readPanelList_eq]
    simp only [← ih]
    split_ifs with hid htitle hkind htargets hpanels
    · simp [hid, panelFields, Functor.map]
    · simp [htitle, panelFields, List.lookup_cons, Functor.map]
    · simp [hkind, panelFields, List.lookup_cons, Functor.map]
    · simp [htargets, panelFields, List.lookup_cons, Functor.map]
    · simp [hpanels, panelFields, List.lookup_cons, Functor.map]
    · simp [panelFields, List.lookup_cons, hid, htitle, hkind, htargets, hpanels, beq_false_of_ne]

theorem bind_ok_eq_map {ε : Type} (f : α → β) (x : Except ε α) :
    (x >>= fun a => .ok (f a)) = f <$> x := by
  cases x <;> rfl

theorem readPanelPositions_eq (vs : List Value) :
    readPanelPositions vs = readPositions panelFields {} vs := by
  rcases vs with _ | ⟨id, _ | ⟨title, _ | ⟨kind, _ | ⟨targets, _ | ⟨panels, vs⟩⟩⟩⟩⟩ <;>
    simp [readPanelPositions, panelFields, readPositions, readPanelList_eq, bind_ok_eq_map]

theorem readPanel_eq (v : Value) : readPanel v = readRecord "Panel" panelFields {} v := by
  cases v with
  | object ms =>
    rw [readPanel, readPanelMembers_eq]
    rfl
  | array vs =>
    rw [readPanel, readPanelPositions_eq]
    rfl
  | _ =>
    rw [readPanel]
    · rfl
    all_goals simp

/-! ## 3. The records of the schema -/

theorem okWhen_readTarget (hv : v.UniqueKeys) :
    OkWhen (Conforms (.part .target) v) (targetOf v) (readTarget v) := by
  have hexpr : Says targetFields {} .target v ("expr", .text) Target.expr readString _ :=
    .place 0 rfl (by simp [targetFields, settles_map]) (by simp [targetFields, leaves_map]) rfl
      (okWhen_readString _)
  have hpanelId : Says targetFields {} .target v ("panelId", .integer) Target.panelId
      readInteger _ :=
    .place 1 rfl (by simp [targetFields, settles_map]) (by simp [targetFields, leaves_map]) rfl
      (okWhen_readInteger _)
  have hrefId : Says targetFields {} .target v ("refId", .text) Target.refId readString _ :=
    .place 2 rfl (by simp [targetFields, settles_map]) (by simp [targetFields, leaves_map]) rfl
      (okWhen_readString _)
  refine okWhen_readRecord rfl hv.distinct ?_ fun r hr => ?_
  · simp only [Part.fields, List.forall_mem_cons]
    exact ⟨⟨_, _, _, _, hexpr⟩, ⟨_, _, _, _, hpanelId⟩, ⟨_, _, _, _, hrefId⟩, by simp⟩
  · obtain ⟨expr, panelId, refId⟩ := r
    rw [targetOf, ← hexpr.part_eq hv.distinct hr, ← hpanelId.part_eq hv.distinct hr,
      ← hrefId.part_eq hv.distinct hr]

theorem settles_value : Settles (fun c v => .ok { c with value := readValue v }) Current.value
    fun v => .ok (readValue v) := by
  constructor
  · intro c v c' h
    cases h
    rfl
  · intro c v x _
    exact ⟨_, rfl⟩

theorem okWhen_readCurrent (hv : v.UniqueKeys) :
    OkWhen (Fits (.part .current) v) (currentOf? v) (readCurrent v) := by
  have hvalue : Says currentFields {} .current v ("value", .anything) Current.value
      (fun v => .ok (readValue v)) _ :=
    .place 0 rfl ⟨_, rfl, settles_value⟩ (by simp [currentFields]) rfl
      (okWhen_ok (fun _ => .anything _) _)
  have hrecord : OkWhen (Conforms (.part .current) v) (currentOf v)
      (readRecord "Current" currentFields {} v) := by
    refine okWhen_readRecord rfl hv.distinct ?_ fun r hr => ?_
    · simp only [Part.fields, List.forall_mem_cons]
      exact ⟨⟨_, _, _, _, hvalue⟩, by simp⟩
    · obtain ⟨value⟩ := r
      rw [currentOf, ← readValue_eq, ← hvalue.part_eq hv.distinct hr]
  by_cases hnull : v = .null
  · subst hnull
    exact okWhen_ok (fits_null _) _
  · have hsome := hrecord.map some
    rw [← fits_iff_of_ne_null hnull] at hsome
    cases v with
    | null => exact absurd rfl hnull
    | _ => exact hsome

theorem okWhen_readTemplate (hv : v.UniqueKeys) :
    OkWhen (Conforms (.part .template) v) (templateOf v) (readTemplate v) := by
  have hname : Says templateFields {} .template v ("name", .text) Template.name readString _ :=
    .place 0 rfl (by simp [templateFields, settles_map]) (by simp [templateFields, leaves_map]) rfl
      (okWhen_readString _)
  have hkind : Says templateFields {} .template v ("type", .text) Template.kind readString _ :=
    .place 1 rfl (by simp [templateFields, settles_map]) (by simp [templateFields, leaves_map]) rfl
      (okWhen_readString _)
  have hquery : Says templateFields {} .template v ("query", .query) Template.query readQuery _ :=
    .place 2 rfl (by simp [templateFields, settles_map]) (by simp [templateFields, leaves_map]) rfl
      (okWhen_readQuery _)
  have hcurrent : Says templateFields {} .template v ("current", .part .current) Template.current
      readCurrent _ :=
    .place 3 rfl (by simp [templateFields, settles_map]) (by simp [templateFields, leaves_map]) rfl
      (okWhen_readCurrent (hv.get _ _))
  refine okWhen_readRecord rfl hv.distinct ?_ fun r hr => ?_
  · simp only [Part.fields, List.forall_mem_cons]
    exact ⟨⟨_, _, _, _, hname⟩, ⟨_, _, _, _, hkind⟩, ⟨_, _, _, _, hquery⟩, ⟨_, _, _, _, hcurrent⟩,
      by simp⟩
  · obtain ⟨name, kind, query, current⟩ := r
    rw [templateOf, ← hname.part_eq hv.distinct hr, ← hkind.part_eq hv.distinct hr,
      ← hquery.part_eq hv.distinct hr, ← hcurrent.part_eq hv.distinct hr]

theorem okWhen_readTemplating (hv : v.UniqueKeys) :
    OkWhen (Fits (.part .templating) v) (templatingOf v) (readTemplating v) := by
  have hlist : Says templatingFields {} .templating v ("list", .list .template) Templating.list
      (readList readTemplate) _ :=
    .place 0 rfl (by simp [templatingFields, settles_map]) (by simp [templatingFields]) rfl
      (okWhen_readList fun w hw => okWhen_readTemplate ((hv.get _ _).of_mem_items hw))
  have hrecord : OkWhen (Conforms (.part .templating) v) (templatingOf v)
      (readRecord "Templating" templatingFields {} v) := by
    refine okWhen_readRecord rfl hv.distinct ?_ fun r hr => ?_
    · simp only [Part.fields, List.forall_mem_cons]
      exact ⟨⟨_, _, _, _, hlist⟩, by simp⟩
    · obtain ⟨list⟩ := r
      rw [templatingOf, ← hlist.part_eq hv.distinct hr]
  by_cases hnull : v = .null
  · subst hnull
    exact okWhen_ok (fits_null _) _
  · rw [← fits_iff_of_ne_null hnull] at hrecord
    cases v with
    | null => exact absurd rfl hnull
    | _ => exact hrecord

theorem okWhen_readPanel {v : Value} (hv : v.UniqueKeys) :
    OkWhen (Conforms (.part .panel) v) (panelOf v) (readPanel v) := by
  rw [readPanel_eq]
  have hid : Says panelFields {} .panel v ("id", .integer) Panel.id readInteger _ :=
    .place 0 rfl (by simp [panelFields, settles_map]) (by simp [panelFields, leaves_map]) rfl
      (okWhen_readInteger _)
  have htitle : Says panelFields {} .panel v ("title", .text) Panel.title readString _ :=
    .place 1 rfl (by simp [panelFields, settles_map]) (by simp [panelFields, leaves_map]) rfl
      (okWhen_readString _)
  have hkind : Says panelFields {} .panel v ("type", .text) Panel.kind readString _ :=
    .place 2 rfl (by simp [panelFields, settles_map]) (by simp [panelFields, leaves_map]) rfl
      (okWhen_readString _)
  have htargets : Says panelFields {} .panel v ("targets", .list .target) Panel.targets
      (readList readTarget) _ :=
    .place 3 rfl (by simp [panelFields, settles_map]) (by simp [panelFields, leaves_map]) rfl
      (okWhen_readList fun w hw => okWhen_readTarget ((hv.get _ _).of_mem_items hw))
  have hpanels : Says panelFields {} .panel v ("panels", .list .panel) Panel.panels
      (readList readPanel) _ :=
    .place 4 rfl (by simp [panelFields, settles_map]) (by simp [panelFields, leaves_map]) rfl
      (okWhen_readList fun w hw => okWhen_readPanel ((hv.get _ _).of_mem_items hw))
  refine okWhen_readRecord rfl hv.distinct ?_ fun r hr => ?_
  · simp only [Part.fields, List.forall_mem_cons]
    exact ⟨⟨_, _, _, _, hid⟩, ⟨_, _, _, _, htitle⟩, ⟨_, _, _, _, hkind⟩, ⟨_, _, _, _, htargets⟩,
      ⟨_, _, _, _, hpanels⟩, by simp⟩
  · obtain ⟨id, title, kind, targets, panels⟩ := r
    rw [panelOf_eq, ← hid.part_eq hv.distinct hr, ← htitle.part_eq hv.distinct hr,
      ← hkind.part_eq hv.distinct hr, ← htargets.part_eq hv.distinct hr,
      ← hpanels.part_eq hv.distinct hr]
termination_by sizeOf v
decreasing_by exact Value.sizeOf_lt_of_mem_items_get hw

theorem okWhen_readPanelList (hv : v.UniqueKeys) :
    OkWhen (Fits (.list .panel) v) (v.items.map panelOf) (readPanelList v) := by
  rw [readPanelList_eq]
  exact okWhen_readList fun w hw => okWhen_readPanel (hv.of_mem_items hw)

theorem okWhen_readRow (hv : v.UniqueKeys) :
    OkWhen (Conforms (.part .row) v) (rowOf v) (readRow v) := by
  have hpanels : Says rowFields {} .row v ("panels", .list .panel) Row.panels readPanelList _ :=
    .place 0 rfl (by simp [rowFields, settles_map]) (by simp [rowFields]) rfl
      (okWhen_readPanelList (hv.get _ _))
  refine okWhen_readRecord rfl hv.distinct ?_ fun r hr => ?_
  · simp only [Part.fields, List.forall_mem_cons]
    exact ⟨⟨_, _, _, _, hpanels⟩, by simp⟩
  · obtain ⟨panels⟩ := r
    rw [rowOf, ← hpanels.part_eq hv.distinct hr]

theorem okWhen_ofJson (hv : v.UniqueKeys) :
    OkWhen (Conforms (.part .dashboard) v) (dashboardOf v) (ofJson v) := by
  have htitle : Says dashboardFields {} .dashboard v ("title", .text) Dashboard.title
      readString _ :=
    .place 0 rfl (by simp [dashboardFields, settles_map])
      (by simp [dashboardFields, leaves_map]) rfl (okWhen_readString _)
  have hpanels : Says dashboardFields {} .dashboard v ("panels", .list .panel) Dashboard.panels
      readPanelList _ :=
    .place 1 rfl (by simp [dashboardFields, settles_map])
      (by simp [dashboardFields, leaves_map]) rfl (okWhen_readPanelList (hv.get _ _))
  have hrows : Says dashboardFields {} .dashboard v ("rows", .list .row) Dashboard.rows
      (readList readRow) _ :=
    .place 2 rfl (by simp [dashboardFields, settles_map])
      (by simp [dashboardFields, leaves_map]) rfl
      (okWhen_readList fun w hw => okWhen_readRow ((hv.get _ _).of_mem_items hw))
  have htemplating : Says dashboardFields {} .dashboard v ("templating", .part .templating)
      Dashboard.templating readTemplating _ :=
    .place 3 rfl (by simp [dashboardFields, settles_map])
      (by simp [dashboardFields, leaves_map]) rfl (okWhen_readTemplating (hv.get _ _))
  refine okWhen_readRecord rfl hv.distinct ?_ fun r hr => ?_
  · simp only [Part.fields, List.forall_mem_cons]
    exact ⟨⟨_, _, _, _, htitle⟩, ⟨_, _, _, _, hpanels⟩, ⟨_, _, _, _, hrows⟩,
      ⟨_, _, _, _, htemplating⟩, by simp⟩
  · obtain ⟨title, panels, rows, templating⟩ := r
    rw [dashboardOf, ← htitle.part_eq hv.distinct hr, ← hpanels.part_eq hv.distinct hr,
      ← hrows.part_eq hv.distinct hr, ← htemplating.part_eq hv.distinct hr]

/-! ## 4. Records by position -/

/-- An array that gives the fields of a record by position has for each key what an object has that
has the same under the keys, in whatever order. -/
theorem member_eq_of_perm {vs : List Value} {ms : List (String × Value)}
    (h : ms.Perm (p.keys.zip vs)) (key : String) :
    p.member (.object ms) key = p.member (.array vs) key := by
  have hpositions : ((p.keys.zip vs).map Prod.fst).Nodup :=
    p.nodup_keys.sublist (Value.map_fst_zip_sublist p.keys vs)
  have hmembers : (ms.map Prod.fst).Nodup := (h.map Prod.fst).nodup_iff.mpr hpositions
  have hlookup : ms.lookup key = (p.keys.zip vs).lookup key := by
    refine Option.ext fun w => ?_
    rw [Value.lookup_eq_some_iff_of_nodup hmembers, Value.lookup_eq_some_iff_of_nodup hpositions,
      h.mem_iff]
  exact congrArg (·.getD .null) hlookup

theorem uniqueKeys_of_perm {vs : List Value} {ms : List (String × Value)}
    (hvs : (Value.array vs).UniqueKeys) (h : ms.Perm (p.keys.zip vs)) :
    (Value.object ms).UniqueKeys := by
  refine .object ((h.map Prod.fst).nodup_iff.mpr
    (p.nodup_keys.sublist (Value.map_fst_zip_sublist p.keys vs))) fun m hm => ?_
  exact hvs.of_mem_items (List.of_mem_zip (h.mem_iff.mp hm)).2

/-- **A record is read by position like by its keys**, whatever the order of the members. -/
def ReadsPositions (p : Part) (read : Value → Except SchemaError α) : Prop :=
  ∀ vs ms, (Value.array vs).UniqueKeys → vs.length ≤ p.keys.length → ms.Perm (p.keys.zip vs) →
    ∀ x, read (.array vs) = .ok x ↔ read (.object ms) = .ok x

theorem readsPositions_of_okWhen {read : Value → Except SchemaError α} {whole : Value → α}
    (hread : ∀ v, v.UniqueKeys → v ≠ .null → OkWhen (Conforms (.part p) v) (whole v) (read v))
    (hwhole : ∀ vs ms, (∀ key, p.member (.object ms) key = p.member (.array vs) key) →
      whole (.object ms) = whole (.array vs)) :
    ReadsPositions p read := by
  intro vs ms hvs hlength hperm x
  have hmember := member_eq_of_perm hperm
  have hconforms : Conforms (.part p) (.array vs) ↔ Conforms (.part p) (.object ms) := by
    simp only [conforms_part_iff, hmember]
    exact and_congr_left' (iff_of_true hlength trivial)
  rw [hread _ hvs (by simp) x, hread _ (uniqueKeys_of_perm hvs hperm) (by simp) x, hconforms,
    hwhole vs ms hmember]

/-! ## 5. The schema is what is read -/

/-- **The dashboards are the values that conform to the schema**, and each field is what the value
has for its key, at every depth.  The keys are unique in what a document is read from.  Every record
may also be an array that gives the fields in their order. -/
theorem reads_exactly_schema :
    (∀ v : Value, v.UniqueKeys → ∀ d,
      ofJson v = .ok d ↔ Conforms (.part .dashboard) v ∧ d = dashboardOf v) ∧
    (∀ v : Value, v.canonical.UniqueKeys) ∧
    ReadsPositions .dashboard ofJson ∧ ReadsPositions .row readRow ∧
    ReadsPositions .templating readTemplating ∧ ReadsPositions .panel readPanel ∧
    ReadsPositions .target readTarget ∧ ReadsPositions .template readTemplate ∧
    ReadsPositions .current readCurrent := by
  refine ⟨fun v hv => okWhen_ofJson hv, Value.uniqueKeys_canonical, ?_, ?_, ?_, ?_, ?_, ?_, ?_⟩
  · refine readsPositions_of_okWhen (fun v hv _ => okWhen_ofJson hv) fun vs ms h => ?_
    simp only [dashboardOf, h]
  · refine readsPositions_of_okWhen (fun v hv _ => okWhen_readRow hv) fun vs ms h => ?_
    simp only [rowOf, h]
  · have hread : ∀ v : Value, v.UniqueKeys → v ≠ .null →
        OkWhen (Conforms (.part .templating) v) (templatingOf v) (readTemplating v) := by
      intro v hv hnull
      rw [← fits_iff_of_ne_null hnull]
      exact okWhen_readTemplating hv
    refine readsPositions_of_okWhen hread fun vs ms h => ?_
    simp only [templatingOf, h]
  · refine readsPositions_of_okWhen (fun v hv _ => okWhen_readPanel hv) fun vs ms h => ?_
    simp only [panelOf_eq, h]
  · refine readsPositions_of_okWhen (fun v hv _ => okWhen_readTarget hv) fun vs ms h => ?_
    simp only [targetOf, h]
  · refine readsPositions_of_okWhen (fun v hv _ => okWhen_readTemplate hv) fun vs ms h => ?_
    simp only [templateOf, h]
  · have hread : ∀ v : Value, v.UniqueKeys → v ≠ .null →
        OkWhen (Conforms (.part .current) v) (currentOf? v) (readCurrent v) := by
      intro v hv hnull
      rw [← fits_iff_of_ne_null hnull]
      exact okWhen_readCurrent hv
    refine readsPositions_of_okWhen hread fun vs ms h => ?_
    simp only [currentOf?, currentOf, h]

/-- A panel inside a panel, one by its keys and one by position, and a target by both. -/
theorem reads_exactly_schema_nested :
    let target : List Value := [.string "up", .integer 3]
    let inner : Value := .array [.integer 2, .string "Load", .null, .array [.array target]]
    let v : Value := .object [("panels", .array [.object [("id", .integer 1), ("meta", .bool true),
      ("panels", .array [inner]), ("type", .string "row")]]), ("title", .null)]
    (Conforms (.part .dashboard) v ∧
      dashboardOf v = { panels := [{ id := 1, kind := "row", panels :=
        [{ id := 2, title := "Load", targets := [{ expr := "up", panelId := 3 }] }] }] }) ∧
      readTarget (.object [("panelId", .integer 3), ("expr", .string "up")]) =
        .ok { expr := "up", panelId := 3 } := by
  intro target inner v
  have hv : v.UniqueKeys := by simp [v, inner, target]
  have hd := (reads_exactly_schema.1 v hv _).mp rfl
  obtain ⟨-, -, -, -, -, -, htarget, -⟩ := reads_exactly_schema
  have hperm : [("panelId", Value.integer 3), ("expr", .string "up")].Perm
      (Part.target.keys.zip target) := .swap _ _ []
  exact ⟨⟨hd.1, hd.2.symm⟩,
    (htarget target _ (by simp [target]) (by decide) hperm _).mp rfl⟩

end Dashboard

end PanelLint
