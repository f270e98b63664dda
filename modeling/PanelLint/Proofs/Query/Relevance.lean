import Mathlib.Data.List.Nodup
import Mathlib.Logic.Relation
import PanelLint.Proofs.Query.Failures
import PanelLint.Query.Parse
/-!
# The relevant part of the template variables

Of the variables that a dashboard declares, expansion looks at the first one of each name that the
query refers to, and of that one at its selected value only.  Names of Grafana's own are not looked
up at all.

* `selection?`: what expansion can see of a name;
* `expand_congr`: lists that look the same to a query give it the same expansion, or the same error;
* `Immaterial`: the changes of a list that a query does not notice;
* `expand_sees_selections`: both together, for the expansion and for the verdict of the parser.
-/

namespace PanelLint.Query

variable {templates templates' : List Template} {query name : List Char}

/-! ## 1. What a query sees of the variables -/

/-- **What expansion can see of a name**: whether it is declared, and the value that the first
variable of that name has. -/
def selection? (templates : List Template) (name : List Char) : Option (Option String) :=
  (findTemplate? templates name).map Template.currentValue

/-- **Lists of variables that look the same to a query**: they select the same for every name that
it refers to outside its literals, Grafana's own names apart. -/
def Agree (query : List Char) (templates templates' : List Template) : Prop :=
  ∀ ps, Factored query ps → ∀ r, .reference r ∈ ps → ¬ globalPrefix <+: r.name →
    selection? templates r.name = selection? templates' r.name

theorem agree_iff : Agree query templates templates' ↔
    ∀ r, .reference r ∈ pieces query → ¬ globalPrefix <+: r.name →
      selection? templates r.name = selection? templates' r.name := by
  simp only [Agree, factored_iff, forall_eq]

/-- Whether two lists select the same for a piece of a query. -/
def Piece.selectsAlike (templates templates' : List Template) : Piece → Bool
  | .reference r =>
    globalPrefix.isPrefixOf r.name || selection? templates r.name == selection? templates' r.name
  | _ => true

instance (query : List Char) (templates templates' : List Template) :
    Decidable (Agree query templates templates') :=
  decidable_of_iff ((pieces query).all (·.selectsAlike templates templates') = true) <| by
    rw [agree_iff, List.all_eq_true]
    constructor
    · intro h r hr hglobal
      have hpiece := h _ hr
      rw [Piece.selectsAlike, Bool.or_eq_true, List.isPrefixOf_iff_prefix, beq_iff_eq] at hpiece
      exact hpiece.resolve_left hglobal
    · intro h piece hpiece
      cases piece with
      | kept c => rfl
      | literal l => rfl
      | reference r =>
        rw [Piece.selectsAlike, Bool.or_eq_true, List.isPrefixOf_iff_prefix, beq_iff_eq]
        exact Classical.or_iff_not_imp_left.mpr (h r hpiece)

theorem Agree.refl (query : List Char) (templates : List Template) :
    Agree query templates templates := fun _ _ _ _ _ => rfl

theorem Agree.symm (h : Agree query templates templates') : Agree query templates' templates :=
  fun ps hps r hr hglobal => (h ps hps r hr hglobal).symm

theorem Agree.trans {templates'' : List Template} (h : Agree query templates templates')
    (h' : Agree query templates' templates'') : Agree query templates templates'' :=
  fun ps hps r hr hglobal => (h ps hps r hr hglobal).trans (h' ps hps r hr hglobal)

/-- **A reference becomes what its name selects**, at every position. -/
theorem substitute_congr
    (h : ¬ globalPrefix <+: name → selection? templates name = selection? templates' name)
    (p : Position) : substitute templates name p = substitute templates' name p := by
  simp only [substitute, List.isPrefixOf_iff_prefix]
  by_cases hauto : autoIntervalPrefix <+: name
  · rw [if_pos hauto, if_pos hauto]
  by_cases hglobal : globalPrefix <+: name
  · rw [if_neg hauto, if_neg hauto, if_pos hglobal, if_pos hglobal]
  have hselection := h hglobal
  simp only [selection?] at hselection
  rw [if_neg hauto, if_neg hauto, if_neg hglobal, if_neg hglobal]
  cases hfind : findTemplate? templates name with
  | none =>
    rw [hfind, Option.map_none, eq_comm, Option.map_eq_none_iff] at hselection
    rw [hselection]
  | some t =>
    rw [hfind, Option.map_some, eq_comm, Option.map_eq_some_iff] at hselection
    obtain ⟨t', hfind', hvalue⟩ := hselection
    simp only [hfind', hvalue]

/-- One step writes the same under both lists. -/
theorem write_congr {piece : Piece}
    (h : ∀ r, piece = .reference r → ¬ globalPrefix <+: r.name →
      selection? templates r.name = selection? templates' r.name) (p : Progress) :
    p.write templates piece = p.write templates' piece := by
  cases piece with
  | kept c => rfl
  | literal l => rfl
  | reference r => simp only [Progress.write, substitute_congr (h r rfl)]

/-- So does a run, since each step goes on from the same place. -/
theorem foldlM_write_congr {ps : List Piece}
    (h : ∀ r, .reference r ∈ ps → ¬ globalPrefix <+: r.name →
      selection? templates r.name = selection? templates' r.name) (p : Progress) :
    ps.foldlM (Progress.write templates) p = ps.foldlM (Progress.write templates') p := by
  induction ps generalizing p with
  | nil => rfl
  | cons piece ps ih =>
    have hpiece := write_congr (fun r hr => h r (hr ▸ List.mem_cons_self)) p
    rw [List.foldlM_cons, List.foldlM_cons, hpiece]
    exact bind_congr fun p' => ih (fun r hr => h r (List.mem_cons_of_mem piece hr)) p'

/-- **A query has the same expansion under lists that look the same to it.** -/
theorem expand_congr (h : Agree query templates templates') :
    expand templates query = expand templates' query := by
  rw [expand, expand, foldlM_write_congr (agree_iff.mp h)]

theorem parse_congr (h : Agree query templates templates') :
    parse templates query = parse templates' query := by
  rw [parse, parse, expand_congr h]

/-! ## 2. Changes that a query does not notice -/

/-- A query refers to a name, outside its literals. -/
def RefersTo (query : List Char) (name : String) : Prop :=
  ∃ ps, Factored query ps ∧ ∃ r, .reference r ∈ ps ∧ r.name = name.toList

/-- **A change of the variables that a query does not notice.** -/
inductive Immaterial (query : List Char) : List Template → List Template → Prop
  /-- Variables with different names stand in another order. -/
  | order {ts ts' : List Template} : (ts.map Template.name).Nodup → ts.Perm ts' →
      Immaterial query ts ts'
  /-- Two neighbours with different names change places, whatever stands around them. -/
  | swap (before after : List Template) {s t : Template} : s.name ≠ t.name →
      Immaterial query (before ++ s :: t :: after) (before ++ t :: s :: after)
  /-- A variable is new that the query does not refer to. -/
  | unused (before after : List Template) {t : Template} : ¬ RefersTo query t.name →
      Immaterial query (before ++ after) (before ++ t :: after)
  /-- A variable is new whose name begins like those of Grafana's own. -/
  | global (before after : List Template) {t : Template} : globalPrefix <+: t.name.toList →
      Immaterial query (before ++ after) (before ++ t :: after)
  /-- A variable is new whose name stands before it already. -/
  | later (before after : List Template) {s t : Template} : s ∈ before → s.name = t.name →
      Immaterial query (before ++ after) (before ++ t :: after)
  /-- A variable is of another kind. -/
  | kind (before after : List Template) (t : Template) (kind : String) :
      Immaterial query (before ++ t :: after) (before ++ { t with kind := kind } :: after)
  /-- A variable asks its data source for something else. -/
  | query (before after : List Template) (t : Template) (text : Option TemplateQuery) :
      Immaterial query (before ++ t :: after) (before ++ { t with query := text } :: after)
  /-- The selected value is written as the only one of a list. -/
  | listed (before after : List Template) {t : Template} {v : String} :
      t.current = some ⟨some (.single v)⟩ →
      Immaterial query (before ++ t :: after)
        (before ++ { t with current := some ⟨some (.multi [v])⟩ } :: after)

theorem findTemplate?_append (before after : List Template) :
    findTemplate? (before ++ after) name =
      (findTemplate? before name).or (findTemplate? after name) := List.find?_append

theorem findTemplate?_cons_of_ne {t : Template} (h : t.name.toList ≠ name) :
    findTemplate? (t :: templates) name = findTemplate? templates name := by
  simp [findTemplate?, h]

/-- Among variables with different names there is one of a name at most. -/
theorem findTemplate?_eq_some_iff_of_nodup (h : (templates.map Template.name).Nodup)
    {t : Template} :
    findTemplate? templates name = some t ↔ t ∈ templates ∧ t.name.toList = name := by
  constructor
  · intro hfind
    exact ⟨List.mem_of_find?_eq_some hfind, by simpa using List.find?_some hfind⟩
  · rintro ⟨hmem, hname⟩
    cases hfind : findTemplate? templates name with
    | none => simpa [hname] using List.find?_eq_none.mp hfind t hmem
    | some s =>
      have hs : s.name.toList = name := by simpa using List.find?_some hfind
      rw [List.inj_on_of_nodup_map h (List.mem_of_find?_eq_some hfind) hmem
        (String.toList_inj.mp (hs.trans hname.symm))]

theorem findTemplate?_perm (h : (templates.map Template.name).Nodup)
    (hperm : templates.Perm templates') :
    findTemplate? templates name = findTemplate? templates' name := by
  have h' : (templates'.map Template.name).Nodup := (hperm.map Template.name).nodup_iff.mp h
  refine Option.ext fun t => ?_
  rw [findTemplate?_eq_some_iff_of_nodup h, findTemplate?_eq_some_iff_of_nodup h', hperm.mem_iff]

theorem findTemplate?_swap {s t : Template} (h : s.name ≠ t.name) :
    findTemplate? (s :: t :: templates) name = findTemplate? (t :: s :: templates) name := by
  by_cases hs : s.name.toList = name
  · have ht : t.name.toList ≠ name := fun ht => h (String.toList_inj.mp (hs.trans ht.symm))
    rw [findTemplate?_cons_of_ne ht]
    simp [findTemplate?, hs]
  · rw [findTemplate?_cons_of_ne hs]
    by_cases ht : t.name.toList = name
    · simp [findTemplate?, ht]
    · rw [findTemplate?_cons_of_ne ht, findTemplate?_cons_of_ne ht, findTemplate?_cons_of_ne hs]

/-- A variable may be changed in everything but its name and its selected value. -/
theorem selection?_of_changed {before after : List Template} {t t' : Template}
    (hname : t'.name = t.name) (hvalue : t'.currentValue = t.currentValue) :
    selection? (before ++ t :: after) name = selection? (before ++ t' :: after) name := by
  simp only [selection?, findTemplate?_append]
  cases findTemplate? before name with
  | some s => rfl
  | none =>
    simp only [Option.none_or]
    by_cases ht : t.name.toList = name
    · simp [findTemplate?, ht, hname, hvalue]
    · rw [findTemplate?_cons_of_ne ht, findTemplate?_cons_of_ne (hname ▸ ht)]

/-- A variable of another name may come in anywhere. -/
theorem selection?_of_new {before after : List Template} {t : Template}
    (h : t.name.toList ≠ name) :
    selection? (before ++ after) name = selection? (before ++ t :: after) name := by
  simp only [selection?, findTemplate?_append, findTemplate?_cons_of_ne h]

/-- A variable whose name was declared before has no part in any selection. -/
theorem selection?_of_later {before after : List Template} {s t : Template} (hs : s ∈ before)
    (hname : s.name = t.name) :
    selection? (before ++ after) name = selection? (before ++ t :: after) name := by
  by_cases ht : t.name.toList = name
  · simp only [selection?, findTemplate?_append]
    cases hfind : findTemplate? before name with
    | some _ => rfl
    | none => simpa [hname, ht] using List.find?_eq_none.mp hfind s hs
  · exact selection?_of_new ht

/-- **What a query does not notice looks the same to it.** -/
theorem Immaterial.agree (h : Immaterial query templates templates') :
    Agree query templates templates' := by
  intro ps hps r hr hglobal
  cases h with
  | order hnodup hperm => rw [selection?, selection?, findTemplate?_perm hnodup hperm]
  | swap before after hne =>
    simp only [selection?, findTemplate?_append, findTemplate?_swap hne]
  | unused before after hunused =>
    exact selection?_of_new fun hname => hunused ⟨ps, hps, r, hr, hname.symm⟩
  | global before after hprefix =>
    exact selection?_of_new fun hname => hglobal (hname ▸ hprefix)
  | later before after hs hname => exact selection?_of_later hs hname
  | kind before after t kind => exact selection?_of_changed rfl rfl
  | query before after t text => exact selection?_of_changed rfl rfl
  | listed before after hcurrent =>
    exact selection?_of_changed rfl (by simp [Template.currentValue, hcurrent])

theorem agree_of_eqvGen (h : Relation.EqvGen (Immaterial query) templates templates') :
    Agree query templates templates' := by
  induction h with
  | rel _ _ hchange => exact hchange.agree
  | refl templates => exact Agree.refl query templates
  | symm _ _ _ ih => exact ih.symm
  | trans _ _ _ _ _ ih ih' => exact ih.trans ih'

/-! ## 3. Further variables -/

/-- **Where a query has an expansion, further variables do not change it**: all the names it needs
are declared before them. -/
theorem agree_append_of_expand {out : List Char} (h : expand templates query = .ok out)
    (more : List Template) : Agree query templates (templates ++ more) := by
  refine agree_iff.mpr fun r hr hglobal => ?_
  have hres : Resolvable templates r.name := exists_expand_eq_ok_iff.mp ⟨out, h⟩ r hr
  cases hfind : findTemplate? templates r.name with
  | none =>
    exact absurd ((resolvable_declared_iff hglobal).mp hres) (findTemplate?_eq_none_iff.mp hfind)
  | some t => rw [selection?, selection?, findTemplate?_append, hfind, Option.some_or]

/-! ## 4. The relevant part -/

/-- **Only the relevant part of the variables matters.**  Lists that select the same for the names a
query refers to give it the same expansion or the same error, and the same verdict; so do lists that
differ by any number of changes the query does not notice.  Where a query has an expansion, it keeps
it when further variables are declared. -/
theorem expand_sees_selections (query : List Char) (templates templates' : List Template) :
    (Agree query templates templates' →
      expand templates query = expand templates' query ∧
        parse templates query = parse templates' query) ∧
    (Relation.EqvGen (Immaterial query) templates templates' →
      expand templates query = expand templates' query ∧
        parse templates query = parse templates' query) ∧
    ∀ out, expand templates query = .ok out → expand (templates ++ templates') query = .ok out := by
  refine ⟨fun h => ⟨expand_congr h, parse_congr h⟩, fun h => ?_, fun out h => ?_⟩
  · exact ⟨expand_congr (agree_of_eqvGen h), parse_congr (agree_of_eqvGen h)⟩
  · rw [← expand_congr (agree_append_of_expand h templates'), h]

/-- A window and a limit. -/
def windowAndLimit : List Template :=
  [{ name := "w", kind := "interval", current := some ⟨some (.single "10m")⟩ },
    { name := "n", current := some ⟨some (.single "3")⟩ }]

/-- The same in another order, each in another way, and with another window behind. -/
def limitAndWindows : List Template :=
  [{ name := "n", kind := "custom", current := some ⟨some (.multi ["3"])⟩ },
    { name := "w", query := some (.text "10m,1h"), current := some ⟨some (.single "10m")⟩ },
    { name := "w", current := some ⟨some (.single "1h")⟩ }]

/-- The second window has no part in the query, and the order of the first one and the limit has
none either. -/
theorem expand_sees_selections_window :
    Agree "rate(up\x7bjob=\"$job\"\x7d[$w]) > $n".toList windowAndLimit limitAndWindows ∧
    expand windowAndLimit "rate(up\x7bjob=\"$job\"\x7d[$w]) > $n".toList =
      expand limitAndWindows "rate(up\x7bjob=\"$job\"\x7d[$w]) > $n".toList ∧
    Relation.EqvGen (Immaterial "rate(up[$w])".toList) windowAndLimit windowAndLimit.reverse ∧
    parse windowAndLimit "rate(up[$w])".toList =
      parse windowAndLimit.reverse "rate(up[$w])".toList ∧
    expand windowAndLimit "rate(up[$w])".toList = .ok "rate(up[10m])".toList ∧
    expand (windowAndLimit ++ limitAndWindows) "rate(up[$w])".toList =
      .ok "rate(up[10m])".toList := by
  have hagree : Agree "rate(up\x7bjob=\"$job\"\x7d[$w]) > $n".toList windowAndLimit
      limitAndWindows := by
    decide +kernel
  have hchange : Relation.EqvGen (Immaterial "rate(up[$w])".toList) windowAndLimit
      windowAndLimit.reverse :=
    .rel _ _ (.order (by decide) (List.reverse_perm _).symm)
  have hout : expand windowAndLimit "rate(up[$w])".toList = .ok "rate(up[10m])".toList := by
    decide +kernel
  exact ⟨hagree, ((expand_sees_selections _ _ _).1 hagree).1, hchange,
    ((expand_sees_selections _ _ _).2.1 hchange).2, hout,
    (expand_sees_selections _ _ _).2.2 _ hout⟩

end PanelLint.Query
