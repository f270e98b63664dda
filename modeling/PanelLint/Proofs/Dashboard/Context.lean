import PanelLint.Proofs.Dashboard.Omissions
/-!
# What does not matter in a document

A dashboard is often exported by one program and edited by another, and comes back with its members
in another order, with members that this reader does not know, or in the envelope of the web
interface.  Each of these is a step of `Immaterial`, and no step changes what is read of a document
nor the error found in it (`read_eq_of_immaterial`).

The order matters in one case: of two members with one key the last is read
(`order_of_same_key_matters`).
-/

namespace PanelLint

open Json (Value)
open Json.Value (last? lastMember? erase Reordered)

namespace Dashboard

variable {v v' d : Value}

/-- **A member that is not read**: of no field of its record, or in a structured query another than
its text. -/
inductive Unread : Shape → String → Value → Prop
  | record {p : Part} {key : String} (w : Value) : key ∉ p.keys → Unread (.part p) key w
  | query {key : String} (w : Value) : key ≠ "query" → Unread .query key w

theorem unnoticed_unread : Unnoticed Unread := by
  intro s key w front back hw _
  cases hw with
  | @record p _ _ hkey => exact .part (p.readAlike_unknown hkey _)
  | query _ hkey => exact .query (readQuery_unknown hkey _)

/-- **Two documents that differ in one thing that does not matter.** -/
inductive Immaterial : Value → Value → Prop
  /-- A member that is not read. -/
  | unread {v v' : Value} : InDocument Unread v v' → Immaterial v v'
  /-- The order of members, or one that a later one overrides. -/
  | reordered {v v' : Value} : Reordered v v' → Immaterial v v'
  /-- A member beside the dashboard in an envelope. -/
  | sibling {ms : List (String × Value)} {key : String} {d : Value} : key ≠ "dashboard" →
      last? "dashboard" ms = some d → d.isObject = true →
      Immaterial (.object ms) (.object (erase key ms))
  /-- An envelope around an object that is none itself, with any members beside it. -/
  | envelope {front back : List (String × Value)} {d : Value} : d.isObject = true →
      (∀ inner, d.lastMember? "dashboard" = some inner → inner.isObject = false) →
      "dashboard" ∉ back.map Prod.fst →
      Immaterial d (.object (front ++ ("dashboard", d) :: back))

/-- **No step matters to the reader.** -/
theorem Immaterial.ofDocument_eq (h : Immaterial v v') : ofDocument v = ofDocument v' := by
  cases h with
  | unread h => exact h.ofDocument_eq unnoticed_unread
  | reordered h => rw [ofDocument, ofDocument, h.canonical_eq]
  | @sibling ms key d hkey hlast hd =>
    have hsame : last? "dashboard" (erase key ms) = last? "dashboard" ms :=
      Value.last?_erase_of_ne hkey.symm
    rw [Dashboard.ofDocument_eq, Dashboard.ofDocument_eq, dashboardIn, dashboardIn, lastMember?,
      lastMember?, hsame, hlast]
    dsimp only
    rw [if_pos hd, if_pos hd]
  | envelope hd hbare hback =>
    rw [Dashboard.ofDocument_eq, Dashboard.ofDocument_eq, dashboardIn_of_bare hbare,
      dashboardIn_of_envelope hd hback]

/-- **Context that does not matter never changes what is read.**  Two JSON texts whose values differ
in nothing but members that are not read, at whatever depth, in the order of members with different
keys, in members that a later one of their key overrides, and in one envelope with whatever it has
beside the dashboard, give the same dashboard, or the same error. -/
theorem read_eq_of_immaterial {text text' : List Char} (htext : Json.read text = .ok v)
    (htext' : Json.read text' = .ok v') (h : Relation.EqvGen Immaterial v v') :
    read text = read text' := by
  rw [read_eq_ofDocument htext, read_eq_ofDocument htext']
  refine congrArg (Except.mapError DocumentError.notDashboard) ?_
  clear htext htext'
  induction h with
  | rel _ _ hstep => exact hstep.ofDocument_eq
  | refl _ => rfl
  | symm _ _ _ ih => exact ih.symm
  | trans _ _ _ _ _ ih ih' => exact ih.trans ih'

/-- A dashboard in an envelope, with other members in it and beside it and in another order. -/
theorem read_eq_of_immaterial_export :
    let plain : Value := .object [("title", .string "Load"), ("rows", .array [])]
    let exported : Value :=
      .object [("rows", .array []), ("uid", .string "x7"), ("title", .string "Load")]
    Relation.EqvGen Immaterial plain (.object [("meta", .object []), ("dashboard", exported)]) ∧
      read "\x7b\"title\":\"Load\",\"rows\":[]\x7d".toList = read
        ("\x7b\"meta\":\x7b\x7d,\"dashboard\":" ++
          "\x7b\"rows\":[],\"uid\":\"x7\",\"title\":\"Load\"\x7d\x7d").toList := by
  intro plain exported
  have horder : Immaterial plain (.object [("rows", .array []), ("title", .string "Load")]) :=
    .reordered (Value.reordered_of_perm (.swap _ _ []) (by decide))
  have huid : Immaterial exported (.object [("rows", .array []), ("title", .string "Load")]) :=
    .unread (.bare (by simp [exported, lastMember?, last?, Value.lookup_cons_eq])
      (@Omits.here _ (.part .dashboard) "uid" _
        [("rows", .array []), ("uid", .string "x7"), ("title", .string "Load")]
        (.record _ (by decide)) rfl))
  have henvelope : Immaterial exported (.object [("meta", .object []), ("dashboard", exported)]) :=
    @Immaterial.envelope [("meta", .object [])] [] exported rfl
      (by simp [exported, lastMember?, last?, Value.lookup_cons_eq]) (by simp)
  have hall : Relation.EqvGen Immaterial plain
      (.object [("meta", .object []), ("dashboard", exported)]) :=
    .trans _ _ _ (.rel _ _ horder) (.trans _ _ _ (.symm _ _ (.rel _ _ huid)) (.rel _ _ henvelope))
  exact ⟨hall, read_eq_of_immaterial (by cbv) (by cbv) hall⟩

/-- Members with one key may not change their order. -/
theorem order_of_same_key_matters :
    ∃ text text' ms ms', Json.read text = .ok (.object ms) ∧ Json.read text' = .ok (.object ms') ∧
      ms.Perm ms' ∧ read text = .ok { title := "b" } ∧ read text' = .ok { title := "a" } :=
  ⟨"\x7b\"title\":\"a\",\"title\":\"b\"\x7d".toList,
    "\x7b\"title\":\"b\",\"title\":\"a\"\x7d".toList,
    [("title", .string "a"), ("title", .string "b")],
    [("title", .string "b"), ("title", .string "a")], by cbv, by cbv, .swap _ _ [], by cbv, by cbv⟩

end Dashboard

end PanelLint
