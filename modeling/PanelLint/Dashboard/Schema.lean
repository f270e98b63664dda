import PanelLint.Dashboard.Basic
import PanelLint.Number.Shortest
import PanelLint.Number.Width
import PanelLint.Text.Quoted
/-!
# Reading a dashboard from JSON

Every part of a dashboard is read from a JSON value of its own kind. A record is an object, whose
members are visited in the order of their keys and of which unknown ones are passed over, or an array
that gives its fields by position, in which the last ones may be left out. A member that is missing
or `null` leaves its field as it was. The first member that does not fit is the error.
-/

namespace PanelLint

open Json (Value)

namespace Dashboard

/-! ## Errors -/

/-- What was expected of a value. -/
inductive Expected
  | string
  | integer
  | sequence
  | record (name : String)
  deriving DecidableEq, Repr

/-- The name of what was expected. -/
def Expected.text : Expected → String
  | .string => "a string"
  | .integer => "i64"
  | .sequence => "a sequence"
  | .record name => "struct " ++ name

/-- Why a JSON value is no dashboard. -/
inductive SchemaError
  | wrongType (got : Value) (expected : Expected)
  /-- An integer that is too large. -/
  | tooLarge (got : Int)
  /-- An array of that many elements for a record of fewer fields. -/
  | tooMany (count : Nat)
  /-- The query of a template variable that is neither a text nor an object with one. -/
  | badQuery
  deriving Repr

/-- A text between backticks. -/
def ticked (s : String) : String := "\x60" ++ s ++ "\x60"

/-- How a value is shown in messages. -/
def shown : Value → String
  | .null => "null"
  | .bool b => "boolean " ++ ticked (if b then "true" else "false")
  | .integer n => "integer " ++ ticked (toString n)
  | .float x => "floating point " ++ ticked x.scientific
  | .string s => "string " ++ Text.quotedString s
  | .array _ => "sequence"
  | .object _ => "map"

/-- The text of a schema error. -/
def SchemaError.message : SchemaError → String
  | .wrongType got expected =>
    "invalid type: " ++ shown got ++ ", expected " ++ expected.text
  | .tooLarge got => "invalid value: " ++ shown (.integer got) ++ ", expected i64"
  | .tooMany count =>
    "invalid length " ++ toString count ++ ", expected fewer elements in array"
  | .badQuery => "data did not match any variant of untagged enum TemplateQuery"

/-! ## Plain fields -/

/-- A text. -/
def readString : Value → Except SchemaError String
  | .null => .ok ""
  | .string s => .ok s
  | v => .error (.wrongType v .string)

/-- An integer of 64 bits. -/
def readInteger : Value → Except SchemaError Int
  | .null => .ok 0
  | .integer n => if Number.isSigned 64 n then .ok n else .error (.tooLarge n)
  | v => .error (.wrongType v .integer)

/-- The items of a list. -/
def readItems : Value → Except SchemaError (List Value)
  | .null => .ok []
  | .array vs => .ok vs
  | v => .error (.wrongType v .sequence)

/-- A list whose items a reader reads. -/
def readList {α : Type} (item : Value → Except SchemaError α) (v : Value) :
    Except SchemaError (List α) := do
  (← readItems v).mapM item

/-! ## Records -/

/-- How a field of a record is read: given its value, how it changes the record. -/
abbrev Field (α : Type) := String × (α → Value → Except SchemaError α)

/-- The fields of an object, member after member. -/
def readMembers {α : Type} (fields : List (Field α)) (record : α)
    (members : List (String × Value)) : Except SchemaError α :=
  members.foldlM (fun r (key, v) =>
    match fields.lookup key with
    | some read => read r v
    | none => .ok r) record

/-- The fields of an array, by position. -/
def readPositions {α : Type} : List (Field α) → α → List Value → Except SchemaError α
  | (_, read) :: fields, record, v :: vs => do
    let record ← read record v
    readPositions fields record vs
  | _, record, _ => .ok record

/-- A record from an object or an array. -/
def readRecord {α : Type} (name : String) (fields : List (Field α)) (empty : α) :
    Value → Except SchemaError α
  | .object members => readMembers fields empty members
  | .array vs => do
    let record ← readPositions fields empty vs
    if fields.length < vs.length then .error (.tooMany vs.length) else .ok record
  | v => .error (.wrongType v (.record name))

/-! ## Templates -/

/-- The query of a template variable. -/
def readQuery : Value → Except SchemaError (Option TemplateQuery)
  | .null => .ok none
  | .string s => .ok (some (.text s))
  | .object members =>
    match members.lookup "query" with
    | none => .ok (some (.structured ""))
    | some (.string s) => .ok (some (.structured s))
    | some _ => .error .badQuery
  | _ => .error .badQuery

/-- The texts of an array of texts. -/
def texts? : List Value → Option (List String)
  | [] => some []
  | .string s :: vs => (texts? vs).map (s :: ·)
  | _ :: _ => none

/-- The selected value of a template variable; any value will do. -/
def readValue : Value → Option CurrentValue
  | .null => none
  | .string s => some (.single s)
  | .array vs =>
    match texts? vs with
    | some ss => some (.multi ss)
    | none => some (.other (.array vs))
  | v => some (.other v)

/-- The fields of a selection. -/
def currentFields : List (Field Current) :=
  [("value", fun c v => .ok { c with value := readValue v })]

/-- The selection of a template variable. -/
def readCurrent : Value → Except SchemaError (Option Current)
  | .null => .ok none
  | v => (readRecord "Current" currentFields {} v).map some

/-- The fields of a template variable. -/
def templateFields : List (Field Template) :=
  [("name", fun t v => return { t with name := ← readString v }),
    ("type", fun t v => return { t with kind := ← readString v }),
    ("query", fun t v => return { t with query := ← readQuery v }),
    ("current", fun t v => return { t with current := ← readCurrent v })]

/-- A template variable. -/
def readTemplate (v : Value) : Except SchemaError Template :=
  readRecord "Template" templateFields {} v

/-- The fields of the template variables. -/
def templatingFields : List (Field Templating) :=
  [("list", fun t v => return { t with list := ← readList readTemplate v })]

/-- The template variables. -/
def readTemplating : Value → Except SchemaError Templating
  | .null => .ok {}
  | v => readRecord "Templating" templatingFields {} v

/-! ## Panels -/

/-- The fields of a target. -/
def targetFields : List (Field Target) :=
  [("expr", fun t v => return { t with expr := ← readString v }),
    ("panelId", fun t v => return { t with panelId := ← readInteger v }),
    ("refId", fun t v => return { t with refId := ← readString v })]

/-- A target. -/
def readTarget (v : Value) : Except SchemaError Target := readRecord "Target" targetFields {} v

mutual

/-- A panel. -/
def readPanel : Value → Except SchemaError Panel
  | .object members => readPanelMembers {} members
  | .array vs => do
    let p ← readPanelPositions vs
    if 5 < vs.length then .error (.tooMany vs.length) else .ok p
  | v => .error (.wrongType v (.record "Panel"))

/-- The panels of an array. -/
def readPanels : List Value → Except SchemaError (List Panel)
  | [] => .ok []
  | v :: vs => do
    let p ← readPanel v
    let ps ← readPanels vs
    .ok (p :: ps)

/-- A list of panels, or nothing. -/
def readPanelList : Value → Except SchemaError (List Panel)
  | .null => .ok []
  | .array vs => readPanels vs
  | v => .error (.wrongType v .sequence)

/-- The fields of a panel, member after member. -/
def readPanelMembers (p : Panel) : List (String × Value) → Except SchemaError Panel
  | [] => .ok p
  | (key, v) :: members => do
    let p ←
      if key = "id" then (readInteger v).map fun id => { p with id }
      else if key = "title" then (readString v).map fun title => { p with title }
      else if key = "type" then (readString v).map fun kind => { p with kind }
      else if key = "targets" then (readList readTarget v).map fun targets => { p with targets }
      else if key = "panels" then (readPanelList v).map fun panels => { p with panels }
      else .ok p
    readPanelMembers p members

/-- The fields of a panel, by position. -/
def readPanelPositions : List Value → Except SchemaError Panel
  | [] => .ok {}
  | [id] => return { id := ← readInteger id }
  | [id, title] => return { id := ← readInteger id, title := ← readString title }
  | [id, title, kind] =>
    return { id := ← readInteger id, title := ← readString title, kind := ← readString kind }
  | [id, title, kind, targets] =>
    return { id := ← readInteger id, title := ← readString title, kind := ← readString kind,
             targets := ← readList readTarget targets }
  | id :: title :: kind :: targets :: panels :: _ =>
    return { id := ← readInteger id, title := ← readString title, kind := ← readString kind,
             targets := ← readList readTarget targets, panels := ← readPanelList panels }

end

/-! ## Rows and dashboards -/

/-- The fields of a row. -/
def rowFields : List (Field Row) :=
  [("panels", fun r v => return { r with panels := ← readPanelList v })]

/-- A row. -/
def readRow (v : Value) : Except SchemaError Row := readRecord "Row" rowFields {} v

/-- The fields of a dashboard. -/
def dashboardFields : List (Field Dashboard) :=
  [("title", fun d v => return { d with title := ← readString v }),
    ("panels", fun d v => return { d with panels := ← readPanelList v }),
    ("rows", fun d v => return { d with rows := ← readList readRow v }),
    ("templating", fun d v => return { d with templating := ← readTemplating v })]

/-- The dashboard that a JSON value in canonical form is. -/
def ofJson (v : Value) : Except SchemaError Dashboard :=
  readRecord "Dashboard" dashboardFields {} v

end Dashboard

end PanelLint
