import Mathlib
import PanelLint.Dashboard.Document
import PanelLint.Proofs.Dashboard.Fields
/-!
# Members taken out of a document

`Omits which s v v'` takes one member out of an object somewhere inside a value of a shape: `which`
says of a shape, a key and a value whether such a member may be taken out, and the place is one that
the reader of the shape comes to, through members, positions and items.  `InDocument` begins where a
document has its dashboard, which may be in an envelope.

Two things are said of it.  If no record notices the members taken out (`Unnoticed`), neither does
the reader of the document, whatever it reads or refuses (`InDocument.read_eq`).  And if the value
of a shape cannot have them, a document that has one is refused (`InDocument.exists_error`).

For `null` this makes the difference between the fields of records and the query of a structured
template query: all others mean the same as nothing, this one is an error (`null_members`).
-/

namespace PanelLint

open Json (Value)
open Json.Value (Alike last? lastMember? erase canonicalMembers canonicalItems)

namespace Dashboard

/-! ## 1. Places -/

/-- **A value of a shape without one of its members**, in the value itself or at a place in it where
the reader comes to. -/
inductive Omits (which : Shape → String → Value → Prop) : Shape → Value → Value → Prop
  /-- The member of a key, with those of the same key before it, which it overrides. -/
  | here {s : Shape} {key : String} {w : Value} {ms : List (String × Value)} :
      which s key w → last? key ms = some w → Omits which s (.object ms) (.object (erase key ms))
  /-- In the member that an object has for a field. -/
  | member {p : Part} {s : Shape} {key : String} {v v' : Value}
      {front back : List (String × Value)} :
      (key, s) ∈ p.fields → key ∉ back.map Prod.fst → Omits which s v v' →
        Omits which (.part p) (.object (front ++ (key, v) :: back))
          (.object (front ++ (key, v') :: back))
  /-- In the element that an array has for a field. -/
  | position {p : Part} {s : Shape} {key : String} {v v' : Value} {front back : List Value} :
      p.fields[front.length]? = some (key, s) → Omits which s v v' →
        Omits which (.part p) (.array (front ++ v :: back)) (.array (front ++ v' :: back))
  /-- In an item of a list. -/
  | item {p : Part} {v v' : Value} {front back : List Value} : Omits which (.part p) v v' →
      Omits which (.list p) (.array (front ++ v :: back)) (.array (front ++ v' :: back))

/-- **A document with one member less**, in the dashboard that it is or that its envelope has. -/
inductive InDocument (which : Shape → String → Value → Prop) : Value → Value → Prop
  | bare {v v' : Value} : (∀ d, v.lastMember? "dashboard" = some d → d.isObject = false) →
      Omits which (.part .dashboard) v v' → InDocument which v v'
  | envelope {d d' : Value} {front back : List (String × Value)} : d.isObject = true →
      "dashboard" ∉ back.map Prod.fst → Omits which (.part .dashboard) d d' →
      InDocument which (.object (front ++ ("dashboard", d) :: back))
        (.object (front ++ ("dashboard", d') :: back))

variable {which : Shape → String → Value → Prop} {s : Shape} {p : Part} {v v' d : Value}

/-! ## 2. Where the dashboard is -/

/-- The dashboard that a document is or that its envelope has, as it stands there. -/
def dashboardIn (v : Value) : Value :=
  match v.lastMember? "dashboard" with
  | some d => if d.isObject then d else v
  | none => v

theorem isObject_canonical (v : Value) : v.canonical.isObject = v.isObject := by
  cases v <;> simp [Value.canonical, Value.isObject]

theorem canonical_ne_null (h : v ≠ .null) : v.canonical ≠ .null := by
  cases v <;> simp_all [Value.canonical]

theorem member?_canonical (key : String) (v : Value) :
    v.canonical.member? key = (v.lastMember? key).map Value.canonical := by
  cases v with
  | object ms =>
    rw [Value.canonical, Value.member?, Value.lookup_canonicalMembers, List.lookup_nil,
      Option.or_none]
    rfl
  | _ =>
    rw [Value.canonical]
    · rfl
    all_goals simp

/-- The envelope may be taken off before or after the members are put in order. -/
theorem unwrap_canonical (v : Value) : unwrap v.canonical = (dashboardIn v).canonical := by
  rw [unwrap, dashboardIn, member?_canonical]
  cases v.lastMember? "dashboard" with
  | none => rfl
  | some d =>
    rw [Option.map_some]
    dsimp only
    rw [isObject_canonical]
    split_ifs <;> rfl

theorem ofDocument_eq (v : Value) : ofDocument v = ofJson (dashboardIn v).canonical := by
  rw [ofDocument, unwrap_canonical]

theorem dashboardIn_of_bare (h : ∀ d, v.lastMember? "dashboard" = some d → d.isObject = false) :
    dashboardIn v = v := by
  rw [dashboardIn]
  cases hlast : v.lastMember? "dashboard" with
  | none => rfl
  | some d => exact if_neg (by simp [h d hlast])

theorem dashboardIn_of_envelope {front back : List (String × Value)} (hd : d.isObject = true)
    (hback : "dashboard" ∉ back.map Prod.fst) :
    dashboardIn (.object (front ++ ("dashboard", d) :: back)) = d := by
  rw [dashboardIn, lastMember?, Value.last?_of_not_mem hback]
  exact if_pos hd

/-- In no record is there a field with the key of an envelope. -/
theorem ne_dashboard_of_mem_fields {key : String} (h : (key, s) ∈ p.fields) :
    key ≠ "dashboard" := by
  rintro rfl
  have hkeys : "dashboard" ∉ p.keys := by cases p <;> decide
  exact hkeys (List.mem_map_of_mem h)

theorem Omits.ne_null (h : Omits which s v v') : v ≠ .null := by
  cases h <;> simp

theorem Omits.isObject_eq (h : Omits which s v v') : v'.isObject = v.isObject := by
  cases h <;> rfl

/-- Without a member there is no envelope where there was none. -/
theorem Omits.bare (h : Omits which (.part p) v v')
    (hv : ∀ d, v.lastMember? "dashboard" = some d → d.isObject = false) :
    ∀ d, v'.lastMember? "dashboard" = some d → d.isObject = false := by
  intro d hd
  cases h with
  | @here _ key w ms _ _ =>
    rw [lastMember?] at hd
    by_cases hkey : "dashboard" = key
    · subst hkey
      rw [Value.last?_erase_self] at hd
      cases hd
    · rw [Value.last?_erase_of_ne hkey] at hd
      exact hv d hd
  | member hs _ _ =>
    have hne := (ne_dashboard_of_mem_fields hs).symm
    rw [lastMember?, Value.last?_append, Value.last?_cons_of_ne hne, ← Value.last?_append] at hd
    refine hv d ?_
    rwa [lastMember?, Value.last?_append, Value.last?_cons_of_ne hne, ← Value.last?_append]
  | position => cases hd

/-- What is taken out of a document is taken out of the dashboard in it. -/
theorem InDocument.dashboardIn (h : InDocument which v v') :
    Omits which (.part .dashboard) (dashboardIn v) (dashboardIn v') := by
  cases h with
  | bare hv homits =>
    rwa [dashboardIn_of_bare hv, dashboardIn_of_bare (homits.bare hv)]
  | envelope hd hback homits =>
    rwa [dashboardIn_of_envelope hd hback,
      dashboardIn_of_envelope (homits.isObject_eq.trans hd) hback]

/-! ## 3. Members that are not noticed -/

/-- **Members without which an object is read alike.** -/
def Unnoticed (which : Shape → String → Value → Prop) : Prop :=
  ∀ s key w front back, which s key w → key ∉ front.map Prod.fst →
    s.ReadAlike (.object (front ++ (key, w.canonical) :: back)) (.object (front ++ back))

theorem alikeInFields_self (p : Part) (key : String) (v : Value) : p.AlikeInFields key v v :=
  fun s _ => .refl s v

/-- A field has one shape only. -/
theorem alikeInFields_of_mem {key : String} (hs : (key, s) ∈ p.fields) (h : s.ReadAlike v v') :
    p.AlikeInFields key v v' := by
  intro s' hs'
  have heq := (Value.lookup_eq_some_iff_of_nodup p.nodup_keys).mpr hs
  rw [(Value.lookup_eq_some_iff_of_nodup p.nodup_keys).mpr hs', Option.some.injEq] at heq
  exact heq ▸ h

theorem forall₂_readAlike_set {front back : List Value} (h : p.ReadAlike v v') :
    List.Forall₂ p.ReadAlike (front ++ v :: back) (front ++ v' :: back) :=
  List.rel_append (List.forall₂_same.mpr fun w _ => p.readAlike_refl w)
    (.cons h (List.forall₂_same.mpr fun w _ => p.readAlike_refl w))

/-- A field by position stands among the keys at its place. -/
theorem exists_keys_of_getElem? {key : String} {front : List Value}
    (h : p.fields[front.length]? = some (key, s)) :
    ∃ before after, p.keys = before ++ key :: after ∧ before.length = front.length := by
  obtain ⟨hlt, hget⟩ := List.getElem?_eq_some_iff.mp h
  refine ⟨p.keys.take front.length, p.keys.drop (front.length + 1), ?_, ?_⟩
  · have hlt' : front.length < p.keys.length := by rwa [Part.keys, List.length_map]
    have hkey : key = p.keys[front.length] := by simp [Part.keys, hget]
    rw [hkey, List.getElem_cons_drop, List.take_append_drop]
  · rw [List.length_take, Part.keys, List.length_map]
    omega

theorem zip_set {before after : List String} {key : String} {front back : List Value}
    (h : before.length = front.length) (v : Value) :
    (before ++ key :: after).zip ((front ++ v :: back).map Value.canonical) =
      before.zip (front.map Value.canonical) ++
        (key, v.canonical) :: after.zip (back.map Value.canonical) := by
  rw [List.map_append, List.map_cons, List.zip_append (by simpa using h), List.zip_cons_cons]

/-- **A value is read alike without a member that is not noticed**, wherever it was. -/
theorem Omits.readAlike (hwhich : Unnoticed which) (h : Omits which s v v') :
    s.ReadAlike v.canonical v'.canonical := by
  induction h with
  | @here s key w ms hw hlast =>
    obtain ⟨front, back, heq, hfront, herase⟩ := Value.exists_canonicalMembers_erase hlast
    rw [Value.canonical, Value.canonical, heq, herase]
    exact hwhich s key w front back hw hfront
  | @member p s key v v' front back hs _ _ ih =>
    rw [Value.canonical, Value.canonical]
    refine .part (p.readAlike_object (Alike.canonicalMembers ?_ .nil))
    exact Value.alike_set (R := fun key v v' => p.AlikeInFields key v.canonical v'.canonical)
      (fun key v => alikeInFields_self p key v.canonical) (alikeInFields_of_mem hs ih) front back
  | @position p s key v v' front back hs _ ih =>
    obtain ⟨before, after, hkeys, hlength⟩ := exists_keys_of_getElem? hs
    rw [Value.canonical, Value.canonical, Value.canonicalItems_eq, Value.canonicalItems_eq]
    refine .part (p.readAlike_array (by simp) ?_)
    rw [hkeys, zip_set hlength, zip_set hlength]
    exact Value.alike_set (alikeInFields_self p)
      (alikeInFields_of_mem (List.mem_of_getElem? hs) ih) _ _
  | @item p v v' front back _ ih =>
    rw [Value.canonical, Value.canonical, Value.canonicalItems_eq, Value.canonicalItems_eq,
      List.map_append, List.map_append, List.map_cons, List.map_cons]
    exact .list (forall₂_readAlike_set ih.of_part)

/-- **A document is read alike without members that are not noticed.** -/
theorem InDocument.ofDocument_eq (hwhich : Unnoticed which) (h : InDocument which v v') :
    ofDocument v = ofDocument v' := by
  rw [Dashboard.ofDocument_eq, Dashboard.ofDocument_eq]
  exact (h.dashboardIn.readAlike hwhich).of_part

/-! ## 4. Members that cannot be -/

/-- **A value that has a member that cannot be does not conform**, wherever it is. -/
theorem Omits.not_conforms
    (hwhich : ∀ s key w ms, which s key w → ms.lookup key = some w.canonical →
      ¬Conforms s (.object ms))
    (h : Omits which s v v') : ¬Conforms s v.canonical := by
  induction h with
  | @here s key w ms hw hlast =>
    rw [Value.canonical]
    refine hwhich s key w _ hw ?_
    rw [Value.lookup_canonicalMembers, hlast]
    rfl
  | @member p s key v v' front back hs hback homits ih =>
    rw [conforms_part_iff]
    rintro ⟨-, hfits⟩
    have hmember :
        p.member (Value.object (front ++ (key, v) :: back)).canonical key = v.canonical := by
      rw [Value.canonical, Part.member, Value.get, Value.members, Value.lookup_canonicalMembers,
        Value.last?_of_not_mem hback]
      rfl
    have hfit := hfits (key, s) hs
    rw [hmember] at hfit
    exact ih (hfit (canonical_ne_null homits.ne_null))
  | @position p s key v v' front back hs homits ih =>
    rw [conforms_part_iff]
    rintro ⟨-, hfits⟩
    have hmember : p.member (Value.array (front ++ v :: back)).canonical key = v.canonical := by
      obtain ⟨before, after, hkeys, hlength⟩ := exists_keys_of_getElem? hs
      rw [Value.canonical, Value.canonicalItems_eq, Part.member, Value.get, Value.members]
      have hnodup := p.nodup_keys.sublist
        (Value.map_fst_zip_sublist p.keys ((front ++ v :: back).map Value.canonical))
      have hmem : (key, v.canonical) ∈ p.keys.zip ((front ++ v :: back).map Value.canonical) := by
        rw [hkeys, zip_set hlength]
        exact List.mem_append_right _ List.mem_cons_self
      rw [(Value.lookup_eq_some_iff_of_nodup hnodup).mpr hmem, Option.getD_some]
    have hfit := hfits (key, s) (List.mem_of_getElem? hs)
    rw [hmember] at hfit
    exact ih (hfit (canonical_ne_null homits.ne_null))
  | @item p v v' front back _ ih =>
    rw [Value.canonical, Value.canonicalItems_eq, conforms_list_iff]
    intro hall
    exact ih (hall v.canonical (by simp))

theorem InDocument.exists_error
    (hwhich : ∀ s key w ms, which s key w → ms.lookup key = some w.canonical →
      ¬Conforms s (.object ms))
    (h : InDocument which v v') : ∃ e, ofDocument v = .error e := by
  rw [Dashboard.ofDocument_eq]
  have hread := okWhen_ofJson (Value.uniqueKeys_canonical (Dashboard.dashboardIn v))
  cases hresult : ofJson (Dashboard.dashboardIn v).canonical with
  | error e => exact ⟨e, rfl⟩
  | ok d => exact absurd ((hread d).mp hresult).1 (h.dashboardIn.not_conforms hwhich)

/-- A text is read as the document that its value is. -/
theorem read_eq_ofDocument {text : List Char} (h : Json.read text = .ok v) :
    read text = (ofDocument v).mapError .notDashboard := by
  rw [read, h]

/-! ## 5. Members that are `null` -/

/-- **A `null` in a record or in a structured query**, the text of the query left out. -/
inductive NullMember : Shape → String → Value → Prop
  | record (p : Part) (key : String) : NullMember (.part p) key .null
  | query {key : String} : key ≠ "query" → NullMember .query key .null

/-- A structured query whose text is `null`. -/
inductive NullQuery : Shape → String → Value → Prop
  | query : NullQuery .query "query" .null

theorem unnoticed_nullMember : Unnoticed NullMember := by
  intro s key w front back hw hfront
  cases hw with
  | record p key => exact .part (p.readAlike_null hfront)
  | query hkey => exact .query (readQuery_unknown hkey _)

theorem not_conforms_of_nullQuery {key : String} {w : Value} {ms : List (String × Value)}
    (hw : NullQuery s key w) (hlookup : ms.lookup key = some w.canonical) :
    ¬Conforms s (.object ms) := by
  cases hw
  intro hconforms
  cases hconforms with
  | queryObject _ htext =>
    obtain ⟨t, ht⟩ := htext _ hlookup
    rw [Value.canonical] at ht
    · cases ht
    all_goals simp

/-- **A `null` means the same as nothing, but in the query of a structured template query.**  With
and without members that are `null`, in whatever records and structured queries, the same dashboard
is read of two texts, or the same error is found.  A text in which the query of a structured query is
`null` is refused. -/
theorem null_members {text : List Char} {v : Value} (htext : Json.read text = .ok v) :
    (∀ text' v', Json.read text' = .ok v' → Relation.ReflTransGen (InDocument NullMember) v v' →
      read text = read text') ∧
    (∀ v', InDocument NullQuery v v' → ∃ e, read text = .error (.notDashboard e)) := by
  rw [read_eq_ofDocument htext]
  constructor
  · intro text' v' htext' hnulls
    rw [read_eq_ofDocument htext']
    refine congrArg (Except.mapError DocumentError.notDashboard) ?_
    clear htext htext'
    induction hnulls with
    | refl => rfl
    | tail _ hstep ih => rw [ih, hstep.ofDocument_eq unnoticed_nullMember]
  · intro v' hnull
    obtain ⟨e, he⟩ := hnull.exists_error fun _ _ _ _ hw => not_conforms_of_nullQuery hw
    rw [he]
    exact ⟨e, rfl⟩

/-- A title that is `null`, and a template variable with `null` for its query. -/
theorem null_members_template :
    let front := "\x7b\"templating\":\x7b\"list\":[\x7b\"query\":\x7b"
    let back := "\x7d\x7d]\x7d\x7d"
    read "\x7b\"title\":null\x7d".toList = read "\x7b\x7d".toList ∧
      (∃ e, read (front ++ "\"query\":null" ++ back).toList = .error (.notDashboard e)) ∧
      read (front ++ back).toList =
        .ok { templating := { list := [{ query := some (.structured "") }] } } := by
  intro front back
  have htitle : InDocument NullMember (.object [("title", .null)]) (.object []) :=
    .bare (by simp [lastMember?, last?, Value.lookup_cons_eq])
      (@Omits.here _ _ "title" .null [("title", .null)] (.record .dashboard _) rfl)
  have hquery : Omits NullQuery (.part .template)
      (.object [("query", .object [("query", .null)])]) (.object [("query", .object [])]) :=
    @Omits.member _ _ _ _ _ _ [] [] (by decide) (by simp)
      (@Omits.here _ _ "query" .null [("query", .null)] .query rfl)
  have htemplating : Omits NullQuery (.part .templating)
      (.object [("list", .array [.object [("query", .object [("query", .null)])]])])
      (.object [("list", .array [.object [("query", .object [])]])]) :=
    @Omits.member _ _ _ _ _ _ [] [] (by decide) (by simp)
      (@Omits.item _ .template _ _ [] [] hquery)
  have hdocument := @Omits.member NullQuery .dashboard _ "templating" _ _ [] [] (by decide) (by simp)
    htemplating
  exact ⟨(null_members (by cbv)).1 _ _ (by cbv) (.single htitle),
    (null_members (by cbv)).2 _ (.bare (by simp [lastMember?, last?, Value.lookup_cons_eq]) hdocument),
    by cbv⟩

end Dashboard

end PanelLint
