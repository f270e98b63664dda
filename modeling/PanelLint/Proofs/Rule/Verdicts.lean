import PanelLint.Proofs.Dashboard.Trees
import PanelLint.Proofs.Query.Failures
import PanelLint.Rule.ValidQuery
/-!
# The verdicts on targets

`Judged` lists what the rule on queries can say of a target, each time with all that has to be the
case; `judged_of_check` and `Judged.check_eq` say that it says just that.  The conditions are put in terms of the
dashboard and of the query: which variable is the first to choose a data source, which panels stand
anywhere in the trees, which references mean something, what the parser says of the expansion.

* `check_isError_exactly`: when the verdict is an error, and what its message mentions.

The rule gives no verdict where the parser gives up on the expansion of the query; `ParserReturns`
says that it does not.
-/

namespace PanelLint

/-! ## 1. Blank texts -/

namespace Text

/-- A text without the white space at both its ends. -/
def trim (cs : List Char) : List Char := (dropBlanks (dropBlanks cs).reverse).reverse

theorem allBlank_iff {cs : List Char} : allBlank cs = true ↔ trim cs = [] := by
  simp only [allBlank, trim, dropBlanks, List.reverse_eq_nil_iff, List.dropWhile_eq_nil_iff,
    List.mem_reverse, List.all_eq_true]
  constructor
  · exact fun h c hc => h c ((List.dropWhile_sublist _).mem hc)
  · intro h c hc
    rw [← List.takeWhile_append_dropWhile (p := isBlank) (l := cs)] at hc
    rcases List.mem_append.mp hc with hc | hc
    · exact List.mem_takeWhile_imp hc
    · exact h c hc

end Text

/-! ## 2. Queries that are not valid -/

namespace Query

variable {templates : List Template} {query : List Char}

/-- The parser does not give up on the expansion of a query. -/
def ParserReturns (templates : List Template) (query : List Char) : Prop :=
  ∀ text, expand templates query = .ok text → Promql.parse text ≠ .error .aborted

/-- **A query that is not valid**: some reference means nothing, or the parser rejects the
expansion. -/
def Invalid (templates : List Template) (query : List Char) : Prop :=
  HasUnresolvable templates query ∨
    ∃ text e, expand templates query = .ok text ∧ Promql.parse text = .error (.rejected e)

/-- In terms of the parser on queries: it is not that one of the two failures. -/
theorem parserReturns_iff :
    ParserReturns templates query ↔ parse templates query ≠ .error .aborted := by
  unfold ParserReturns parse
  cases expand templates query with
  | error e => simp
  | ok text =>
    simp only [Except.ok.injEq, forall_eq']
    rcases Promql.parse text with (e | _) | e <;> simp

/-- A query is not valid if the parser on queries fails in some other way. -/
theorem invalid_iff :
    Invalid templates query ↔ ∃ e, parse templates query = .error (.invalid e) := by
  unfold Invalid parse
  rw [← exists_expand_eq_error_iff]
  cases expand templates query with
  | error e => simp
  | ok text =>
    simp only [reduceCtorEq, exists_false, false_or, Except.ok.injEq, exists_and_left,
      exists_eq_left']
    rcases Promql.parse text with (e | _) | e <;> simp

instance (templates : List Template) (query : List Char) :
    Decidable (ParserReturns templates query) :=
  match h : parse templates query with
  | .ok _ => isTrue (parserReturns_iff.mpr (by simp [h]))
  | .error (.invalid _) => isTrue (parserReturns_iff.mpr (by simp [h]))
  | .error .aborted => isFalse fun hreturns => parserReturns_iff.mp hreturns h

instance (templates : List Template) (query : List Char) : Decidable (Invalid templates query) :=
  match h : parse templates query with
  | .ok _ => isFalse fun hinvalid => by simpa [h] using invalid_iff.mp hinvalid
  | .error (.invalid e) => isTrue (invalid_iff.mpr ⟨e, h⟩)
  | .error .aborted => isFalse fun hinvalid => by simpa [h] using invalid_iff.mp hinvalid

end Query

/-! ## 3. Dashboards and panels that the rule is for -/

/-- **A dashboard for Prometheus**: the first variable that chooses a data source asks for it. -/
def Dashboard.ForPrometheus (d : Dashboard) : Prop :=
  ∃ before t after, d.templating.list = before ++ t :: after ∧
    (∀ s ∈ before, s.kind ≠ "datasource") ∧ t.kind = "datasource" ∧ t.queryText = "prometheus"

/-- **The parser gives up on no query of a dashboard.** -/
def Dashboard.ParserReturns (d : Dashboard) : Prop :=
  ∀ p, d.Holds p → ∀ t ∈ p.targets, Query.ParserReturns d.templating.list t.expr.toList

namespace ValidQuery

variable {d : Dashboard} {p : Panel} {t : Target} {v : Verdict}

/-- The rule applies to the dashboards for Prometheus. -/
theorem applies_iff : applies d = true ↔ d.ForPrometheus := by
  have hdatasource (t : Template) : t.isDatasource = true ↔ t.kind = "datasource" := by
    simp [Template.isDatasource]
  simp only [applies, Dashboard.datasource?, Dashboard.ForPrometheus, Option.any_eq_true,
    List.find?_eq_some_iff_append, Template.isPrometheusDatasource, Bool.and_eq_true,
    Bool.not_eq_true', ← Bool.not_eq_true, hdatasource, beq_iff_eq]
  constructor
  · rintro ⟨t, ⟨-, before, after, hlist, hbefore⟩, hkind, hquery⟩
    exact ⟨before, t, after, hlist, hbefore, hkind, hquery⟩
  · rintro ⟨before, t, after, hlist, hbefore, hkind, hquery⟩
    exact ⟨t, ⟨hkind, before, after, hlist, hbefore⟩, hkind, hquery⟩

/-- The rule has something to say of the targets of a panel. -/
def Concerns (d : Dashboard) (p : Panel) : Prop := d.ForPrometheus ∧ p.kind ∈ queryKinds

/-- Both of its guards together. -/
theorem concerns_iff : (applies d && p.hasQueries) = true ↔ Concerns d p := by
  rw [Bool.and_eq_true, applies_iff, Panel.hasQueries, List.contains_iff_mem, Concerns]

/-! ## 4. What is said of a target -/

/-- **The verdicts on a target.**  Without a query, it has to name a panel that is on the
dashboard. -/
inductive Judged (d : Dashboard) (p : Panel) (t : Target) : Verdict → Prop
  | unconcerned : ¬ Concerns d p → Judged d p t .success
  | empty : Concerns d p → Text.trim t.expr.toList = [] → t.panelId ≤ 0 →
      Judged d p t (.error (emptyQuery d p t))
  | referring {q : Panel} : Concerns d p → Text.trim t.expr.toList = [] → 0 < t.panelId →
      d.Holds q → q.id = t.panelId → Judged d p t .success
  | dangling : Concerns d p → Text.trim t.expr.toList = [] → 0 < t.panelId →
      (∀ q, d.Holds q → q.id ≠ t.panelId) → Judged d p t (.error (danglingReference d p t))
  | valid {e : Promql.Expr} : Concerns d p → Text.trim t.expr.toList ≠ [] →
      Query.parse d.templating.list t.expr.toList = .ok e → Judged d p t .success
  | invalid {e : Query.QueryError} : Concerns d p → Text.trim t.expr.toList ≠ [] →
      Query.parse d.templating.list t.expr.toList = .error (.invalid e) →
      Judged d p t (.error (invalidQuery d p t e))

/-- Elsewhere every target is fine. -/
theorem check_of_not_concerns (h : ¬ Concerns d p) : check d p t = .ok .success := by
  rw [← concerns_iff, Bool.not_eq_true] at h
  rw [check, ← Bool.not_and, h]
  rfl

/-- Where it has something to say, it goes by whether the query is blank. -/
theorem check_of_concerns (h : Concerns d p) :
    check d p t = if Text.trim t.expr.toList = [] then .ok (checkReference d p t)
      else checkQuery d p t := by
  rw [← concerns_iff] at h
  rw [check, ← Bool.not_and, h]
  simp only [← Text.allBlank_iff]
  rfl

theorem judged_checkReference (hc : Concerns d p) (hblank : Text.trim t.expr.toList = []) :
    Judged d p t (checkReference d p t) := by
  unfold checkReference
  split
  · next hid => exact .empty hc hblank hid
  split
  · next hid hfound =>
    obtain ⟨q, hq, hqid⟩ := isSome_findPanel?_iff.mp hfound
    exact .referring hc hblank (by omega) (mem_allPanels_iff.mp hq) hqid
  · next hid hfound =>
    refine .dangling hc hblank (by omega) fun q hq hqid => hfound ?_
    exact isSome_findPanel?_iff.mpr ⟨q, mem_allPanels_iff.mpr hq, hqid⟩

/-- **Every verdict that is given is listed.** -/
theorem judged_of_check (h : check d p t = .ok v) : Judged d p t v := by
  by_cases hc : Concerns d p
  · rw [check_of_concerns hc] at h
    split at h
    · next hblank =>
      cases h
      exact judged_checkReference hc hblank
    · next hblank =>
      unfold checkQuery at h
      split at h
      · next e hparse =>
        cases h
        exact .valid hc hblank hparse
      · next e hparse =>
        cases h
        exact .invalid hc hblank hparse
      · cases h
  · rw [check_of_not_concerns hc] at h
    cases h
    exact .unconcerned hc

/-- **Every verdict that is listed is given.** -/
theorem Judged.check_eq (h : Judged d p t v) : check d p t = .ok v := by
  cases h with
  | unconcerned hc => exact check_of_not_concerns hc
  | empty hc hblank hid =>
    rw [check_of_concerns hc, if_pos hblank, checkReference, if_pos hid]
  | referring hc hblank hid hq hqid =>
    have hfound := isSome_findPanel?_iff.mpr ⟨_, mem_allPanels_iff.mpr hq, hqid⟩
    rw [check_of_concerns hc, if_pos hblank, checkReference, if_neg (by omega), if_pos hfound]
  | dangling hc hblank hid hnone =>
    have hfound : ¬ (d.findPanel? t.panelId).isSome = true := by
      rw [isSome_findPanel?_iff]
      rintro ⟨q, hq, hqid⟩
      exact hnone q (mem_allPanels_iff.mp hq) hqid
    rw [check_of_concerns hc, if_pos hblank, checkReference, if_neg (by omega), if_neg hfound]
  | valid hc hblank hparse =>
    rw [check_of_concerns hc, if_neg hblank, checkQuery, hparse]
  | invalid hc hblank hparse =>
    rw [check_of_concerns hc, if_neg hblank, checkQuery, hparse]

/-- There is a verdict where the parser returns. -/
theorem exists_check (h : Query.ParserReturns d.templating.list t.expr.toList) :
    ∃ v, check d p t = .ok v := by
  by_cases hc : Concerns d p
  · rw [check_of_concerns hc]
    split
    · exact ⟨_, rfl⟩
    · unfold checkQuery
      split
      · exact ⟨_, rfl⟩
      · exact ⟨_, rfl⟩
      · next hparse => exact absurd hparse (Query.parserReturns_iff.mp h)
  · exact ⟨_, check_of_not_concerns hc⟩

/-! ## 5. What the messages mention -/

/-- A text holds another one. -/
def Mentions (text part : String) : Prop := ∃ before after, text = before ++ part ++ after

theorem mentions_append (a b : String) : Mentions (a ++ b) b := ⟨a, "", by simp⟩

theorem Mentions.append {a part : String} (h : Mentions a part) (b : String) :
    Mentions (a ++ b) part := by
  obtain ⟨before, after, rfl⟩ := h
  exact ⟨before, after ++ b, by simp only [String.append_assoc]⟩

/-- A text that is not empty and names the dashboard and the panel. -/
def NamesPlace (d : Dashboard) (p : Panel) (text : String) : Prop :=
  text ≠ "" ∧ Mentions text d.title ∧ Mentions text p.title

/-- The place that messages begin with names both. -/
theorem namesPlace_place (d : Dashboard) (p : Panel) : NamesPlace d p (place d p) := by
  refine ⟨by simp [place], ?_, ?_⟩
  · exact (((mentions_append _ _).append _).append _).append _
  · exact (mentions_append _ _).append _

theorem NamesPlace.append {text : String} (h : NamesPlace d p text) (rest : String) :
    NamesPlace d p (text ++ rest) :=
  ⟨by simp [h.1], h.2.1.append rest, h.2.2.append rest⟩

/-- The message on a query that is not valid has the query in it, as it was typed. -/
theorem mentions_invalidQuery (e : Query.QueryError) : Mentions (invalidQuery d p t e) t.expr :=
  ((mentions_append _ _).append _).append _

/-- The message on a reference has the id in it. -/
theorem mentions_danglingReference :
    Mentions (danglingReference d p t) (toString t.panelId) :=
  (mentions_append _ _).append _

/-- Every message names the dashboard and the panel, and either the query or the id. -/
theorem Judged.mentions (h : Judged d p t v) (herror : v.isError = true) :
    NamesPlace d p v.message ∧
      (Text.trim t.expr.toList ≠ [] → Mentions v.message t.expr) ∧
      (Text.trim t.expr.toList = [] → 0 < t.panelId → Mentions v.message (toString t.panelId)) := by
  have hplace := namesPlace_place d p
  cases h with
  | unconcerned _ => cases herror
  | referring _ _ _ _ _ => cases herror
  | valid _ _ _ => cases herror
  | empty _ hblank hid =>
    exact ⟨((hplace.append _).append _).append _, fun hne => absurd hblank hne,
      fun _ hpos => absurd hid (by omega)⟩
  | dangling _ hblank _ _ =>
    exact ⟨((hplace.append _).append _).append _, fun hne => absurd hblank hne,
      fun _ _ => mentions_danglingReference⟩
  | invalid _ hblank _ =>
    exact ⟨(((hplace.append _).append _).append _).append _, fun _ => mentions_invalidQuery _,
      fun h => absurd h hblank⟩

/-! ## 6. When there is an error -/

/-- **What is wrong with a target**: it has neither a query nor a panel instead, or its query is not
valid. -/
def Faulty (d : Dashboard) (t : Target) : Prop :=
  (Text.trim t.expr.toList = [] ∧ (t.panelId ≤ 0 ∨ ∀ q, d.Holds q → q.id ≠ t.panelId)) ∨
    (Text.trim t.expr.toList ≠ [] ∧ Query.Invalid d.templating.list t.expr.toList)

theorem Judged.isError_iff (h : Judged d p t v) :
    v.isError = true ↔ Concerns d p ∧ Faulty d t := by
  cases h with
  | unconcerned hc => exact iff_of_false (by decide) fun h => hc h.1
  | empty hc hblank hid => exact iff_of_true rfl ⟨hc, Or.inl ⟨hblank, Or.inl hid⟩⟩
  | referring hc hblank hid hq hqid =>
    refine iff_of_false (by decide) ?_
    rintro ⟨-, ⟨-, hle | hnone⟩ | ⟨hne, -⟩⟩
    · omega
    · exact hnone _ hq hqid
    · exact hne hblank
  | dangling hc hblank hid hnone => exact iff_of_true rfl ⟨hc, Or.inl ⟨hblank, Or.inr hnone⟩⟩
  | valid hc hblank hparse =>
    refine iff_of_false (by decide) ?_
    rintro ⟨-, ⟨hempty, -⟩ | ⟨-, hinvalid⟩⟩
    · exact hblank hempty
    · obtain ⟨e, he⟩ := Query.invalid_iff.mp hinvalid
      rw [hparse] at he
      cases he
  | invalid hc hblank hparse =>
    exact iff_of_true rfl ⟨hc, Or.inr ⟨hblank, Query.invalid_iff.mpr ⟨_, hparse⟩⟩⟩

/-- A verdict that is no error is the one that says nothing. -/
theorem Judged.eq_success (h : Judged d p t v) (hv : v.isError = false) : v = .success := by
  cases h with
  | unconcerned _ => rfl
  | referring _ _ _ _ _ => rfl
  | valid _ _ _ => rfl
  | empty _ _ _ => cases hv
  | dangling _ _ _ _ => cases hv
  | invalid _ _ _ => cases hv

/-- **The verdict is exact.**  Where the parser returns, the rule reports an error just when the
dashboard is for Prometheus, the panel is one that shows queries, and the target is faulty; else it
has nothing to say.  The message of an error names the dashboard, the panel, and the query as it was
typed or the id of the panel that is missing. -/
theorem check_isError_exactly (d : Dashboard) (p : Panel) (t : Target)
    (hreturns : Query.ParserReturns d.templating.list t.expr.toList) :
    ∃ v, check d p t = .ok v ∧
      (v.isError = true ↔ d.ForPrometheus ∧ p.kind ∈ queryKinds ∧
        ((Text.trim t.expr.toList = [] ∧
            (t.panelId ≤ 0 ∨ ∀ q, d.Holds q → q.id ≠ t.panelId)) ∨
          (Text.trim t.expr.toList ≠ [] ∧
            Query.Invalid d.templating.list t.expr.toList))) ∧
      (v.isError = false → v = ⟨.success, ""⟩) ∧
      (v.isError = true →
        v.message ≠ "" ∧ Mentions v.message d.title ∧ Mentions v.message p.title ∧
        (Text.trim t.expr.toList ≠ [] → Mentions v.message t.expr) ∧
        (Text.trim t.expr.toList = [] → 0 < t.panelId →
          Mentions v.message (toString t.panelId))) := by
  obtain ⟨v, hv⟩ := exists_check (p := p) hreturns
  have hjudged := judged_of_check hv
  refine ⟨v, hv, hjudged.isError_iff.trans and_assoc, hjudged.eq_success, fun herror => ?_⟩
  obtain ⟨⟨hne, hdashboard, hpanel⟩, hexpr, hid⟩ := hjudged.mentions herror
  exact ⟨hne, hdashboard, hpanel, hexpr, hid⟩

/-- The variables of a dashboard for Prometheus, one of them a length of time. -/
def windowTemplates : List Template :=
  [{ name := "w", kind := "interval", current := some ⟨some (.single "5m")⟩ },
    { name := "ds", kind := "datasource", query := some (.text "prometheus") }]

/-- A parenthesis that is not closed, as the expansion of `$w` shows.  The query is reported with
the blank before it and with its variable. -/
theorem check_isError_exactly_unclosed :
    Query.ParserReturns windowTemplates " sum(rate(up[$w])".toList ∧
    ∃ v, check { title := "API Health", templating := ⟨windowTemplates⟩ }
        { title := "Latency", kind := "graph" } { expr := " sum(rate(up[$w])" } = .ok v ∧
      v.isError = true ∧ Mentions v.message "API Health" ∧ Mentions v.message "Latency" ∧
        Mentions v.message " sum(rate(up[$w])" := by
  have hreturns : Query.ParserReturns windowTemplates " sum(rate(up[$w])".toList := by
    decide +kernel
  obtain ⟨v, hv, hiff, -, hmessage⟩ := check_isError_exactly
    { title := "API Health", templating := ⟨windowTemplates⟩ }
    { title := "Latency", kind := "graph" } { expr := " sum(rate(up[$w])" } hreturns
  have hquery : Text.trim " sum(rate(up[$w])".toList ≠ [] := by decide +kernel
  have hinvalid : Query.Invalid windowTemplates " sum(rate(up[$w])".toList := by decide +kernel
  have herror := hiff.mpr ⟨⟨[_], _, [], rfl, by simp, rfl, rfl⟩, by decide,
    Or.inr ⟨hquery, hinvalid⟩⟩
  obtain ⟨-, hdashboard, hpanel, hexpr, -⟩ := hmessage herror
  exact ⟨hreturns, v, hv, herror, hdashboard, hpanel, hexpr hquery⟩

end ValidQuery

end PanelLint
