import PanelLint.Dashboard.Document
import PanelLint.Proofs.Dashboard.Records
/-!
# The schema of a dashboard

Which fields a record has, under which keys, in which order, and what their values may be, is one
table here (`Part.fields`), and `Conforms` says by it which JSON values are dashboards.  What such a
value says is told by functions on all values (`dashboardOf`), each of which looks at the members of
its own record only and takes what is absent or `null` for nothing.

The reader agrees with both (`reads_exactly_schema`): it succeeds on the values that conform, and
then gives what they say.  Each of its parts is shown to do so by itself (`OkWhen`), from the plain
fields up to the panels, where the induction is on the size of the value.
-/

namespace PanelLint

open Json (Value)

namespace Json.Value

/-! ## 1. Plain values -/

/-- The text that a value is, if it is one. -/
def text : Value → String
  | .string s => s
  | _ => ""

/-- The integer that a value is, if it is one. -/
def int : Value → Int
  | .integer n => n
  | _ => 0

/-- The elements of an array. -/
def items : Value → List Value
  | .array vs => vs
  | _ => []

/-- Whether a value is a text. -/
def isText : Value → Bool
  | .string _ => true
  | _ => false

variable {keys : List String} {key : String} {m : String × Value} {v w : Value}

theorem UniqueKeys.of_mem_items (h : v.UniqueKeys) (hw : w ∈ v.items) : w.UniqueKeys := by
  cases v with
  | array vs => exact uniqueKeys_array_iff.mp h w hw
  | _ => cases hw

theorem sizeOf_lt_of_mem_items (h : w ∈ v.items) : sizeOf w < sizeOf v := by
  cases v with
  | array vs =>
    rw [items] at h
    have := List.sizeOf_lt_of_mem h
    rw [array.sizeOf_spec]
    omega
  | _ => cases h

theorem sizeOf_lt_of_mem_members (h : m ∈ v.members keys) : sizeOf m.2 < sizeOf v := by
  cases v with
  | object ms =>
    obtain ⟨key, w⟩ := m
    rw [members] at h
    have := List.sizeOf_lt_of_mem h
    rw [Prod.mk.sizeOf_spec] at this
    rw [object.sizeOf_spec]
    change sizeOf w < _
    omega
  | array vs =>
    have := List.sizeOf_lt_of_mem (List.of_mem_zip h).2
    rw [array.sizeOf_spec]
    omega
  | _ => cases h

/-- The items that a record has for a key are smaller than it. -/
theorem sizeOf_lt_of_mem_items_get (h : w ∈ (v.get keys key).items) : sizeOf w < sizeOf v := by
  rcases v.get_cases keys key with hnull | hmem
  · rw [hnull] at h
    cases h
  · exact (sizeOf_lt_of_mem_items h).trans (sizeOf_lt_of_mem_members hmem)

end Json.Value

namespace Dashboard

/-! ## 2. The schema -/

/-- The records of a dashboard. -/
inductive Part
  | dashboard
  | row
  | templating
  | panel
  | target
  | template
  | current
  deriving DecidableEq, Repr

/-- What the value of a field may be. -/
inductive Shape
  | text
  | integer
  /-- A text, or an object with one. -/
  | query
  | anything
  | part (part : Part)
  /-- A list of records. -/
  | list (part : Part)
  deriving DecidableEq, Repr

/-- **The fields of a record**, in their order, with what they may be. -/
def Part.fields : Part → List (String × Shape)
  | .dashboard => [("title", .text), ("panels", .list .panel), ("rows", .list .row),
      ("templating", .part .templating)]
  | .row => [("panels", .list .panel)]
  | .templating => [("list", .list .template)]
  | .panel => [("id", .integer), ("title", .text), ("type", .text), ("targets", .list .target),
      ("panels", .list .panel)]
  | .target => [("expr", .text), ("panelId", .integer), ("refId", .text)]
  | .template => [("name", .text), ("type", .text), ("query", .query), ("current", .part .current)]
  | .current => [("value", .anything)]

/-- The keys of a record, in the order of its fields. -/
def Part.keys (p : Part) : List String := p.fields.map Prod.fst

/-- What a value has for a key of a record, `null` if there is nothing. -/
abbrev Part.member (p : Part) (v : Value) (key : String) : Value := v.get p.keys key

/-- **The values of a shape.**  Whatever a record has for its fields may also be `null`, but not the
elements of a list. -/
inductive Conforms : Shape → Value → Prop
  | text (s : String) : Conforms .text (.string s)
  | integer (n : Int) : -9223372036854775808 ≤ n → n ≤ 9223372036854775807 →
      Conforms .integer (.integer n)
  | query (s : String) : Conforms .query (.string s)
  | queryObject (ms : List (String × Value)) :
      (∀ w, ms.lookup "query" = some w → ∃ s, w = .string s) → Conforms .query (.object ms)
  | anything (v : Value) : Conforms .anything v
  | part (p : Part) (v : Value) : v.IsRecord p.keys →
      (∀ field ∈ p.fields, p.member v field.1 ≠ .null → Conforms field.2 (p.member v field.1)) →
      Conforms (.part p) v
  | list (p : Part) (vs : List Value) : (∀ v ∈ vs, Conforms (.part p) v) →
      Conforms (.list p) (.array vs)

/-- **What a record may have for a field**: nothing, or a value of the shape. -/
def Fits (s : Shape) (v : Value) : Prop := v ≠ .null → Conforms s v

theorem fits_null (s : Shape) : Fits s .null := fun h => absurd rfl h

theorem fits_iff_of_ne_null {s : Shape} {v : Value} (h : v ≠ .null) : Fits s v ↔ Conforms s v :=
  ⟨fun hfits => hfits h, fun hv _ => hv⟩

theorem conforms_part_iff {p : Part} {v : Value} :
    Conforms (.part p) v ↔
      v.IsRecord p.keys ∧ ∀ field ∈ p.fields, Fits field.2 (p.member v field.1) := by
  constructor
  · rintro ⟨⟩
    exact ⟨‹_›, ‹_›⟩
  · rintro ⟨hrecord, hfields⟩
    exact .part p v hrecord hfields

theorem conforms_list_iff {p : Part} {vs : List Value} :
    Conforms (.list p) (.array vs) ↔ ∀ v ∈ vs, Conforms (.part p) v := by
  constructor
  · rintro ⟨⟩
    assumption
  · exact .list p vs

theorem Part.nodup_keys (p : Part) : p.keys.Nodup := by
  cases p <;> decide

/-! ## 3. What a value says -/

/-- The query that a value is: a text, or what an object has under the key `query`. -/
def queryOf : Value → Option TemplateQuery
  | .string s => some (.text s)
  | .object ms => some (.structured (((ms.lookup "query").getD .null).text))
  | _ => none

/-- The selected value that a value is: one text, several of them, or anything else. -/
def valueOf : Value → Option CurrentValue
  | .null => none
  | .string s => some (.single s)
  | .array vs =>
    some (if vs.all Value.isText then .multi (vs.map Value.text) else .other (.array vs))
  | v => some (.other v)

/-- The target that a value says. -/
def targetOf (v : Value) : Target where
  expr := (Part.target.member v "expr").text
  panelId := (Part.target.member v "panelId").int
  refId := (Part.target.member v "refId").text

/-- The selection that a value says. -/
def currentOf (v : Value) : Current where
  value := valueOf (Part.current.member v "value")

/-- The same, if there is one. -/
def currentOf? : Value → Option Current
  | .null => none
  | v => some (currentOf v)

/-- The template variable that a value says. -/
def templateOf (v : Value) : Template where
  name := (Part.template.member v "name").text
  kind := (Part.template.member v "type").text
  query := queryOf (Part.template.member v "query")
  current := currentOf? (Part.template.member v "current")

/-- The template variables that a value says. -/
def templatingOf (v : Value) : Templating where
  list := (Part.templating.member v "list").items.map templateOf

/-- The panel that a value says, with all panels inside it. -/
def panelOf (v : Value) : Panel :=
  { id := (Part.panel.member v "id").int
    title := (Part.panel.member v "title").text
    kind := (Part.panel.member v "type").text
    targets := (Part.panel.member v "targets").items.map targetOf
    panels := (Part.panel.member v "panels").items.attach.map fun w => panelOf w.1 }
termination_by sizeOf v
decreasing_by exact Value.sizeOf_lt_of_mem_items_get w.2

/-- The row that a value says. -/
def rowOf (v : Value) : Row where
  panels := (Part.row.member v "panels").items.map panelOf

/-- **The dashboard that a value says.** -/
def dashboardOf (v : Value) : Dashboard where
  title := (Part.dashboard.member v "title").text
  panels := (Part.dashboard.member v "panels").items.map panelOf
  rows := (Part.dashboard.member v "rows").items.map rowOf
  templating := templatingOf (Part.dashboard.member v "templating")

theorem panelOf_eq (v : Value) :
    panelOf v =
      { id := (Part.panel.member v "id").int
        title := (Part.panel.member v "title").text
        kind := (Part.panel.member v "type").text
        targets := (Part.panel.member v "targets").items.map targetOf
        panels := (Part.panel.member v "panels").items.map panelOf } := by
  rw [panelOf, List.attach_map_val]

/-! ## 4. Readers of fields -/

variable {α β : Type} {v : Value}

/-- **A result that is there just when something holds**, and then is some value. -/
def OkWhen (good : Prop) (value : α) (result : Except SchemaError α) : Prop :=
  ∀ x, result = .ok x ↔ good ∧ x = value

theorem okWhen_ok {good : Prop} (h : good) (value : α) : OkWhen good value (.ok value) := by
  intro x
  rw [Except.ok.injEq, eq_comm]
  exact (and_iff_right h).symm

theorem okWhen_error {good : Prop} (h : ¬good) (value : α) (e : SchemaError) :
    OkWhen good value (.error e) := by
  intro x
  constructor
  · intro heq
    cases heq
  · intro hx
    exact absurd hx.1 h

theorem OkWhen.map {good : Prop} {value : α} {result : Except SchemaError α}
    (h : OkWhen good value result) (f : α → β) : OkWhen good (f value) (result.map f) := by
  cases result with
  | error e =>
    refine okWhen_error (fun hgood => ?_) _ _
    cases (h value).mpr ⟨hgood, rfl⟩
  | ok x =>
    obtain ⟨hgood, rfl⟩ := (h x).mp rfl
    exact okWhen_ok hgood (f x)

theorem okWhen_readString (v : Value) : OkWhen (Fits .text v) v.text (readString v) := by
  cases v with
  | null => exact okWhen_ok (fits_null _) _
  | string s => exact okWhen_ok (fun _ => .text s) _
  | _ => exact okWhen_error (fun h => (nomatch h (by simp))) _ _

theorem okWhen_readInteger (v : Value) :
    OkWhen (Fits .integer v) v.int (readInteger v) := by
  cases v with
  | null => exact okWhen_ok (fits_null _) _
  | integer n =>
    have hsigned : Number.isSigned 64 n = true ↔
        -9223372036854775808 ≤ n ∧ n ≤ 9223372036854775807 := by
      have hbound : (Nat.pow 2 (64 - 1) : Int) = 9223372036854775808 := rfl
      rw [Number.isSigned_iff, hbound]
      omega
    rw [readInteger]
    split_ifs with h
    · obtain ⟨hlow, hhigh⟩ := hsigned.mp h
      exact okWhen_ok (fun _ => .integer n hlow hhigh) _
    · refine okWhen_error (fun hfits => h (hsigned.mpr ?_)) _ _
      cases hfits (by simp) with
      | integer _ hlow hhigh => exact ⟨hlow, hhigh⟩
  | _ => exact okWhen_error (fun h => (nomatch h (by simp))) _ _

theorem okWhen_readQuery (v : Value) : OkWhen (Fits .query v) (queryOf v) (readQuery v) := by
  cases v with
  | null => exact okWhen_ok (fits_null _) _
  | string s => exact okWhen_ok (fun _ => .query s) _
  | object ms =>
    rw [readQuery, queryOf]
    cases hlookup : ms.lookup "query" with
    | none => exact okWhen_ok (fun _ => .queryObject ms (by simp [hlookup])) _
    | some w =>
      cases w with
      | string s => exact okWhen_ok (fun _ => .queryObject ms (by simp [hlookup])) _
      | _ =>
        refine okWhen_error (fun h => ?_) _ _
        cases h (by simp) with
        | queryObject _ htext =>
          obtain ⟨s, hs⟩ := htext _ hlookup
          cases hs
  | _ => exact okWhen_error (fun h => (nomatch h (by simp))) _ _

theorem texts?_eq (vs : List Value) :
    texts? vs = if vs.all Value.isText then some (vs.map Value.text) else none := by
  induction vs with
  | nil => rfl
  | cons v vs ih =>
    cases v with
    | string s =>
      rw [texts?, ih, List.all_cons, List.map_cons]
      by_cases h : vs.all Value.isText = true
      · simp [h, Value.isText, Value.text]
      · simp [h, Value.isText]
    | _ => rfl

theorem readValue_eq (v : Value) : readValue v = valueOf v := by
  cases v with
  | array vs =>
    rw [readValue, valueOf, texts?_eq]
    by_cases h : vs.all Value.isText = true
    · simp [h]
    · simp [h]
  | _ => rfl

/-- A list is read if each of its items is. -/
theorem okWhen_mapM {good : Value → Prop} {value : Value → α} {item : Value → Except SchemaError α}
    {vs : List Value} (h : ∀ v ∈ vs, OkWhen (good v) (value v) (item v)) :
    OkWhen (∀ v ∈ vs, good v) (vs.map value) (vs.mapM item) := by
  induction vs with
  | nil => exact okWhen_ok (by simp) _
  | cons v vs ih =>
    have hrest := ih fun w hw => h w (List.mem_cons_of_mem v hw)
    have hv := h v List.mem_cons_self
    rw [List.mapM_cons, List.map_cons]
    cases hitem : item v with
    | error e =>
      refine okWhen_error (fun hgood => ?_) _ _
      have := (hv (value v)).mpr ⟨hgood v List.mem_cons_self, rfl⟩
      rw [hitem] at this
      cases this
    | ok x =>
      obtain ⟨hgood, rfl⟩ := (hv x).mp hitem
      cases hitems : vs.mapM item with
      | error e =>
        refine okWhen_error (fun hall => ?_) _ _
        have := (hrest _).mpr ⟨fun w hw => hall w (List.mem_cons_of_mem v hw), rfl⟩
        rw [hitems] at this
        cases this
      | ok xs =>
        obtain ⟨hall, rfl⟩ := (hrest xs).mp hitems
        exact okWhen_ok (List.forall_mem_cons.mpr ⟨hgood, hall⟩) _

theorem okWhen_readList {p : Part} {value : Value → α} {item : Value → Except SchemaError α}
    (h : ∀ w ∈ v.items, OkWhen (Conforms (.part p) w) (value w) (item w)) :
    OkWhen (Fits (.list p) v) (v.items.map value) (readList item v) := by
  cases v with
  | null => exact okWhen_ok (fits_null _) _
  | array vs =>
    intro x
    rw [fits_iff_of_ne_null (by simp), conforms_list_iff]
    exact okWhen_mapM h x
  | _ => exact okWhen_error (fun h => (nomatch h (by simp))) _ _

end Dashboard

end PanelLint
