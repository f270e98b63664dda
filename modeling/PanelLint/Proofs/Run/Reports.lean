import PanelLint.Proofs.Promql.Messages
import PanelLint.Proofs.Query.Seams
import PanelLint.Proofs.Run.BrokenOff
/-!
# The lines of a report

The report on a dashboard has an entry for each error and one with the numbers, under each other.
An entry shows the titles of the dashboard and the panel, and the query or the name of the target,
as they stand.  So the entries are the lines of the report only where none of these texts has a line
break; what the parser says of a query adds no line break of its own.

* `oneLine_of_invalid`: what is said of a query without line breaks has none;
* `Judged.oneLine_iff`: when the entry for an error is one line;
* `forall_oneLine_entries_iff`, `mem_lines_of_shows`: what this makes of the report;
* `report_line_by_line`: all of it, and that any line can be brought into a report.
-/

namespace PanelLint

open Text

/-! ## 1. What is said of a query -/

namespace Query

variable {templates : List Template} {query text : List Char}

/-- What a query becomes has no line break if the query has none. -/
theorem not_mem_expand (hquery : '\n' ∉ query) (h : expand templates query = .ok text) :
    '\n' ∉ text := by
  obtain ⟨record, hps, rfl, hplaced⟩ := expand_eq_ok_iff.mp h
  intro hmem
  obtain ⟨⟨piece, t⟩, hw, hmem⟩ := List.mem_flatMap.mp hmem
  have hpiece : piece ∈ pieces query := hps ▸ List.mem_map_of_mem hw
  obtain ⟨q, hq⟩ := exists_placed_of_mem hplaced _ hw
  have hkept (heq : t = piece.text) : False := by
    refine hquery (pieces_texts query ▸ List.mem_flatMap.mpr ⟨piece, hpiece, ?_⟩)
    exact heq ▸ hmem
  cases piece with
  | kept c => exact hkept hq
  | literal l => exact hkept hq
  | reference r =>
    have hvalue := (isValue_substitute (name_isRun_of_mem_pieces hpiece).2 hq).2 '\n' hmem
    exact absurd hvalue (by decide)

/-- A name has no line break. -/
theorem oneLine_ofName {name : List Char} (h : ∀ c ∈ name, isWord c = true) :
    OneLine (ExpansionError.ofName name).message := by
  have hname : OneLine (String.ofList name) :=
    oneLine_ofList.mpr fun hmem => absurd (h '\n' hmem) (by decide)
  have hbetween {a b : String} (ha : OneLine a) (hb : OneLine b) :
      OneLine (a ++ String.ofList name ++ b) :=
    oneLine_append.mpr ⟨oneLine_append.mpr ⟨ha, hname⟩, hb⟩
  unfold ExpansionError.ofName
  split
  · exact hbetween (oneLine_ofList.mpr (by decide)) (oneLine_ofList.mpr (by decide))
  · exact hbetween (oneLine_ofList.mpr (by decide)) (oneLine_ofList.mpr (by decide))

/-- **What is said of a query without line breaks has none.** -/
theorem oneLine_of_invalid {e : QueryError} (hquery : '\n' ∉ query)
    (h : parse templates query = .error (.invalid e)) : OneLine e.message := by
  unfold parse at h
  split at h
  · next e' hexpand =>
    cases h
    obtain ⟨r, ⟨front, back, hpieces, -, -⟩, rfl⟩ := expand_eq_error_iff.mp hexpand
    have hr : .reference r ∈ pieces query := by simp [hpieces]
    have hname := oneLine_ofName (name_isRun_of_mem_pieces hr).2
    exact oneLine_append.mpr ⟨oneLine_ofList.mpr (by decide), hname⟩
  · next text hexpand =>
    split at h
    · cases h
    · next e' hparse =>
      cases h
      exact Promql.oneLine_of_rejected (not_mem_expand hquery hexpand) hparse
    · cases h

end Query

/-! ## 2. Entries -/

namespace Report

/-- **The entry for a finding**: its line without the line break. -/
def entry (f : Finding) : String :=
  "[" ++ f.verdict.severity.text ++ "] " ++ f.rule ++ " (" ++ f.panel ++ "): " ++ f.verdict.message

/-- The entry with the numbers of some findings. -/
def summary (path : String) (fs : List Finding) : String :=
  path ++ ": " ++ toString fs.length ++ " checks, " ++
    toString (Summary.ofFindings fs).errors ++ " errors"

/-- The entries of a report. -/
def entries (path : String) (fs : List Finding) : List String :=
  (fs.filter (·.verdict.isError)).map entry ++ [summary path fs]

variable {path : String} {fs : List Finding} {f : Finding}

/-- **A report has its entries under each other.** -/
theorem findings_eq_unlines : findings path fs = unlines (entries path fs) := by
  have hbreak : " errors\n" = " errors" ++ "\n" := by rfl
  have hsummary : summaryLine path (Summary.ofFindings fs) = unlines [summary path fs] := by
    rw [summaryLine, hbreak, ← String.append_assoc, unlines_cons]
    exact (String.append_empty).symm
  have herrors (errors : List Finding) :
      String.join (errors.map findingLine) = unlines (errors.map entry) := by
    rw [unlines, List.map_map]
    rfl
  rw [findings, entries, unlines_append, hsummary, herrors]

theorem length_entries : (entries path fs).length = (Summary.ofFindings fs).errors + 1 := by
  simp [entries, Summary.ofFindings, List.countP_eq_length_filter]

theorem oneLine_entry_iff :
    OneLine (entry f) ↔ OneLine f.rule ∧ OneLine f.panel ∧ OneLine f.verdict.message := by
  have hseverity : OneLine f.verdict.severity.text := by
    cases f.verdict.severity <;> exact oneLine_ofList.mpr (by decide)
  have hmarks : ∀ s ∈ ["[", "] ", " (", "): "], OneLine s := by decide +kernel
  simp only [List.forall_mem_cons] at hmarks
  simp [entry, hseverity, hmarks, and_assoc]

theorem oneLine_summary (h : OneLine path) : OneLine (summary path fs) := by
  have hmarks : ∀ s ∈ [": ", " checks, ", " errors"], OneLine s := by decide +kernel
  simp only [List.forall_mem_cons] at hmarks
  simp only [summary, oneLine_append, h, hmarks, oneLine_toString_nat, and_self]

end Report

/-! ## 3. What an entry shows -/

namespace ValidQuery

variable {d : Dashboard} {p : Panel} {t : Target} {v : Verdict} {s : String}

/-- **The texts that the entry for an error shows**: the titles of the dashboard and the panel, and
the query as it was typed, or the name of a target with neither a query nor a panel. -/
def shown (d : Dashboard) (p : Panel) (t : Target) : List String :=
  d.title :: p.title ::
    if Text.trim t.expr.toList ≠ [] then [t.expr] else if t.panelId ≤ 0 then [t.refId] else []

theorem oneLine_place : OneLine (place d p) ↔ OneLine d.title ∧ OneLine p.title := by
  have hmarks : ∀ s ∈ ["Dashboard '", "', panel '", "' "], OneLine s := by decide +kernel
  simp only [List.forall_mem_cons] at hmarks
  simp [place, hmarks]

theorem shown_of_empty (hblank : Text.trim t.expr.toList = []) (hid : t.panelId ≤ 0) :
    shown d p t = [d.title, p.title, t.refId] := by
  rw [shown, if_neg (not_not.mpr hblank), if_pos hid]

theorem shown_of_reference (hblank : Text.trim t.expr.toList = []) (hid : 0 < t.panelId) :
    shown d p t = [d.title, p.title] := by
  rw [shown, if_neg (not_not.mpr hblank), if_neg (by omega)]

theorem shown_of_query (hquery : Text.trim t.expr.toList ≠ []) :
    shown d p t = [d.title, p.title, t.expr] := by
  rw [shown, if_pos hquery]

/-- **The entry for an error is one line** just when the texts that it shows are. -/
theorem Judged.oneLine_iff (h : Judged d p t v) (herror : v.isError = true) :
    OneLine p.title ∧ OneLine v.message ↔ ∀ s ∈ shown d p t, OneLine s := by
  cases h with
  | unconcerned _ => cases herror
  | referring _ _ _ _ _ => cases herror
  | valid _ _ _ => cases herror
  | empty _ hblank hid =>
    have hmarks : OneLine "empty PromQL query in target '" ∧ OneLine "'" := by decide +kernel
    rw [shown_of_empty hblank hid]
    simp only [Verdict.error, emptyQuery, oneLine_append, oneLine_place, hmarks,
      List.forall_mem_cons, and_true]
    tauto
  | dangling _ hblank hid _ =>
    have hmarks : OneLine "invalid panel reference in target, reference panel id '" ∧
        OneLine "'" := by
      decide +kernel
    rw [shown_of_reference hblank hid]
    simp only [Verdict.error, danglingReference, oneLine_append, oneLine_place, hmarks,
      oneLine_toString_int, List.forall_mem_cons, and_true]
    tauto
  | @invalid e _ hquery hparse =>
    have hmarks : OneLine "invalid PromQL query '" ∧ OneLine "': " := by decide +kernel
    -- what the parser says adds no condition, since it has no line break but one of the query
    have hmessage (hexpr : OneLine t.expr) : OneLine e.message :=
      Query.oneLine_of_invalid hexpr hparse
    rw [shown_of_query hquery]
    simp only [Verdict.error, invalidQuery, oneLine_append, oneLine_place, hmarks,
      List.forall_mem_cons, and_true]
    tauto

/-- **The message of an error shows these texts** as they stand. -/
theorem Judged.mentions_shown (h : Judged d p t v) (herror : v.isError = true)
    (hs : s ∈ shown d p t) : Mentions v.message s := by
  obtain ⟨⟨-, hdashboard, hpanel⟩, hquery, -⟩ := h.mentions herror
  cases h with
  | unconcerned _ => cases herror
  | referring _ _ _ _ _ => cases herror
  | valid _ _ _ => cases herror
  | empty _ hblank hid =>
    rw [shown_of_empty hblank hid] at hs
    obtain rfl | rfl | rfl : s = d.title ∨ s = p.title ∨ s = t.refId := by simpa using hs
    · exact hdashboard
    · exact hpanel
    · exact (mentions_append _ _).append _
  | dangling _ hblank hid _ =>
    rw [shown_of_reference hblank hid] at hs
    obtain rfl | rfl : s = d.title ∨ s = p.title := by simpa using hs
    · exact hdashboard
    · exact hpanel
  | invalid _ hexpr _ =>
    rw [shown_of_query hexpr] at hs
    obtain rfl | rfl | rfl : s = d.title ∨ s = p.title ∨ s = t.expr := by simpa using hs
    · exact hdashboard
    · exact hpanel
    · exact hquery hexpr

theorem Mentions.trans {a b c : String} (hab : Mentions a b) (hbc : Mentions b c) :
    Mentions a c := by
  obtain ⟨before, after, rfl⟩ := hbc
  obtain ⟨front, back, rfl⟩ := hab
  exact ⟨front ++ before, after ++ back, by simp only [String.append_assoc]⟩

/-- A line that stands between line breaks in a text is a line of it. -/
theorem Mentions.mem_lines {text line : String} (h : Mentions text ("\n" ++ line ++ "\n"))
    (hline : OneLine line) : line ∈ lines text := by
  obtain ⟨before, after, rfl⟩ := h
  simpa only [String.append_assoc] using Text.mem_lines hline before after

end ValidQuery

/-! ## 4. The findings of a dashboard -/

open ValidQuery

variable {excluded : List String} {d : Dashboard} {p : Panel} {t : Target} {fs : List Finding}
  {f : Finding} {path line s : String}

/-- **A text that the report on a dashboard shows**, in the entry for a target in which the rule
finds an error. -/
inductive Dashboard.Shows (d : Dashboard) (s : String) : Prop
  | entry {p : Panel} {t : Target} : d.Holds p → t ∈ p.targets → Concerns d p → Faulty d t →
      s ∈ ValidQuery.shown d p t → Shows d s

theorem Job.Finds.reported (h : Job.Finds d ⟨p, t, validQueryRule⟩ f) :
    Reported d ⟨p, t, validQueryRule⟩ f :=
  ⟨h.rule_eq, h.panel_eq, judged_of_check h.check_eq⟩

/-- At each target something is found. -/
theorem exists_finds (hlint : (Rules.all.without excluded).lint d = .ok fs)
    (hname : validQueryRule.name ∉ excluded) (hp : d.Holds p) (ht : t ∈ p.targets) :
    ∃ f ∈ fs, Job.Finds d ⟨p, t, validQueryRule⟩ f := by
  have hjob : ⟨p, t, validQueryRule⟩ ∈ (Rules.all.without excluded).jobs d :=
    mem_jobs_iff.mpr ⟨hp, ht, mem_without_all.mpr ⟨rfl, hname⟩⟩
  exact exists_related (lint_eq_ok_iff.mp hlint) hjob

/-- A dashboard has findings where the parser gives up on none of its texts. -/
theorem exists_findings_iff : (∃ fs, (Rules.all.without excluded).lint d = .ok fs) ↔
    (validQueryRule.name ∉ excluded →
      ∀ text, d.Asks text → Promql.parse text ≠ .error .aborted) := by
  constructor
  · rintro ⟨fs, hlint⟩ hname text ⟨hp, ht, hc, hblank, htext⟩
    obtain ⟨f, -, hf⟩ := exists_finds hlint hname hp ht
    exact exists_check_iff.mp ⟨_, hf.check_eq⟩ hc hblank text htext
  · intro h
    refine exists_lint fun p hp t ht r hr => ?_
    obtain ⟨rfl, hname⟩ := mem_without_all.mp hr
    exact exists_check_iff.mpr fun hc hblank text htext =>
      h hname text (.query hp ht hc hblank htext)

/-- What is found is found at a target. -/
theorem reported_of_mem (hlint : (Rules.all.without excluded).lint d = .ok fs) (hf : f ∈ fs) :
    validQueryRule.name ∉ excluded ∧
      ∃ p t, d.Holds p ∧ t ∈ p.targets ∧ Reported d ⟨p, t, validQueryRule⟩ f := by
  obtain ⟨⟨p, t, r⟩, hjob, hfinds⟩ := exists_related (lint_eq_ok_iff.mp hlint).flip hf
  obtain ⟨hp, ht, hr⟩ := mem_jobs_iff.mp hjob
  obtain ⟨rfl, hname⟩ := mem_without_all.mp hr
  exact ⟨hname, p, t, hp, ht, hfinds.reported⟩

/-- The error for a faulty target. -/
theorem exists_error (hlint : (Rules.all.without excluded).lint d = .ok fs)
    (hname : validQueryRule.name ∉ excluded) (hp : d.Holds p) (ht : t ∈ p.targets)
    (hc : Concerns d p) (hfaulty : Faulty d t) :
    ∃ f ∈ fs, f.verdict.isError = true ∧ Reported d ⟨p, t, validQueryRule⟩ f := by
  obtain ⟨f, hf, hfinds⟩ := exists_finds hlint hname hp ht
  exact ⟨f, hf, hfinds.reported.judged.isError_iff.mpr ⟨hc, hfaulty⟩, hfinds.reported⟩

/-- The entry for an error that is reported is one line just when the texts that it shows are. -/
theorem Reported.oneLine_entry_iff (h : Reported d ⟨p, t, validQueryRule⟩ f)
    (herror : f.verdict.isError = true) :
    OneLine (Report.entry f) ↔ ∀ s ∈ shown d p t, OneLine s := by
  have hrule : OneLine f.rule := by
    rw [h.rule_eq]
    exact oneLine_ofList.mpr (by decide)
  rw [Report.oneLine_entry_iff, ← h.judged.oneLine_iff herror, h.panel_eq]
  exact and_iff_right hrule

/-- **The entries of a report are lines** just when the texts shown in it are. -/
theorem forall_oneLine_entries_iff (hpath : OneLine path)
    (hlint : (Rules.all.without excluded).lint d = .ok fs) :
    (∀ a ∈ Report.entries path fs, OneLine a) ↔
      (validQueryRule.name ∉ excluded → ∀ s, d.Shows s → OneLine s) := by
  have hentries : (∀ a ∈ Report.entries path fs, OneLine a) ↔
      ∀ f ∈ fs, f.verdict.isError = true → OneLine (Report.entry f) := by
    simp only [Report.entries, List.forall_mem_append, List.forall_mem_singleton,
      List.forall_mem_map, List.mem_filter, and_imp, Report.oneLine_summary hpath, and_true]
  rw [hentries]
  constructor
  · rintro h hname s ⟨hp, ht, hc, hfaulty, hs⟩
    obtain ⟨f, hf, herror, hreported⟩ := exists_error hlint hname hp ht hc hfaulty
    exact (hreported.oneLine_entry_iff herror).mp (h f hf herror) s hs
  · intro h f hf herror
    obtain ⟨hname, p, t, hp, ht, hreported⟩ := reported_of_mem hlint hf
    obtain ⟨hc, hfaulty⟩ := hreported.judged.isError_iff.mp herror
    exact (hreported.oneLine_entry_iff herror).mpr fun s hs =>
      h hname s (.entry hp ht hc hfaulty hs)

/-- The entry for an error begins with its severity and the rule. -/
theorem entry_of_isError (hlint : (Rules.all.without excluded).lint d = .ok fs) (hf : f ∈ fs)
    (herror : f.verdict.isError = true) :
    ∃ rest, Report.entry f = "[error] " ++ validQueryRule.name ++ rest := by
  obtain ⟨-, p, t, -, -, hreported⟩ := reported_of_mem hlint hf
  have hseverity : f.verdict.severity = .error := by simpa [Verdict.isError] using herror
  refine ⟨" (" ++ f.panel ++ "): " ++ f.verdict.message, ?_⟩
  have hmarks : "[" ++ "error" ++ "] " = "[error] " := by rfl
  rw [Report.entry, hseverity, Severity.text, hreported.rule_eq, hmarks]
  simp only [String.append_assoc]

/-- **A line inside a text that is shown** is a line of the report. -/
theorem mem_lines_of_shows (hlint : (Rules.all.without excluded).lint d = .ok fs)
    (hname : validQueryRule.name ∉ excluded) (hs : d.Shows s)
    (hmentions : Mentions s ("\n" ++ line ++ "\n")) (hline : OneLine line) :
    line ∈ lines (Report.findings path fs) := by
  obtain ⟨hp, ht, hc, hfaulty, hs⟩ := hs
  obtain ⟨f, hf, herror, hreported⟩ := exists_error hlint hname hp ht hc hfaulty
  have hentry : Mentions (Report.entry f) f.verdict.message := mentions_append _ _
  have hreport : Mentions (Report.findings path fs) (Report.entry f) := by
    have hmem : Report.entry f ∈ Report.entries path fs :=
      List.mem_append_left _ (List.mem_map_of_mem (List.mem_filter.mpr ⟨hf, herror⟩))
    obtain ⟨front, back, hsplit⟩ := List.append_of_mem hmem
    rw [Report.findings_eq_unlines, hsplit, unlines_append, unlines_cons]
    exact ⟨unlines front, "\n" ++ unlines back, by simp only [String.append_assoc]⟩
  have hmessage := hreported.judged.mentions_shown herror hs
  exact (hreport.trans (hentry.trans (hmessage.trans hmentions))).mem_lines hline

/-! ## 5. Lines brought into a report -/

section Stray

variable {templates : List Template} {query text : List Char}

theorem exists_expand_stray (h : Query.expand templates (')' :: query) = .ok text) :
    ∃ rest, text = ')' :: rest := by
  obtain ⟨record, hps, rfl, hplaced⟩ := Query.expand_eq_ok_iff.mp h
  have hpieces : Query.pieces (')' :: query) = .kept ')' :: Query.pieces query :=
    Query.pieces_kept (w := [')']) (by decide) query
  obtain ⟨⟨piece, t⟩, ws, rfl, rfl, -⟩ := List.map_eq_cons_iff.mp (hps.trans hpieces)
  obtain rfl : t = [')'] := (Query.placedAll_cons.mp hplaced).1
  exact ⟨ws.flatMap Prod.snd, rfl⟩

theorem parse_stray :
    Promql.parse (')' :: text) = .error (.rejected (.lexical .strayRightParen)) := by
  have htokens : Promql.Lexer.tokens (')' :: text) = .error .strayRightParen :=
    Promql.Lexer.tokensFrom_error rfl
  rw [Promql.parse, htokens]

theorem parserReturns_stray : Query.ParserReturns templates (')' :: query) := by
  intro text htext haborted
  obtain ⟨rest, rfl⟩ := exists_expand_stray htext
  rw [parse_stray] at haborted
  cases haborted

/-- **A query that begins with a closing parenthesis** is not valid, whatever its variables are. -/
theorem invalid_stray : Query.Invalid templates (')' :: query) := by
  cases hexpand : Query.expand templates (')' :: query) with
  | error e => exact Or.inl (Query.exists_expand_eq_error_iff.mp ⟨e, hexpand⟩)
  | ok text =>
    obtain ⟨rest, rfl⟩ := exists_expand_stray hexpand
    exact Or.inr ⟨_, _, hexpand, parse_stray⟩

theorem trim_stray : Text.trim (')' :: query) ≠ [] := by
  rw [Ne, ← Text.allBlank_iff, Text.allBlank, List.all_cons]
  simp [show Text.isBlank ')' = false by decide]

end Stray

/-- A graph with one query. -/
def Panel.lone (title query : String) : Panel where
  title := title
  kind := "graph"
  targets := [{ expr := query }]

/-- A dashboard for Prometheus with such a graph. -/
def Dashboard.lone (title panelTitle query : String) : Dashboard where
  title := title
  panels := [.lone panelTitle query]
  templating := ⟨[{ kind := "datasource", query := some (.text "prometheus") }]⟩

/-- Dashboards that bring a line into their reports: by the title of the dashboard, by that of the
panel, and by the query, which is none. -/
def Dashboard.bringing (line : String) : List Dashboard :=
  [.lone ("\n" ++ line ++ "\n") "" "", .lone "" ("\n" ++ line ++ "\n") "",
    .lone "" "" (")\n" ++ line ++ "\n")]

section Lone

variable {title panelTitle query : String}

theorem concerns_lone : Concerns (.lone title panelTitle query) (.lone panelTitle query) := by
  have hkind : "graph" ∈ queryKinds := by decide
  exact ⟨⟨[], _, [], rfl, by simp, rfl, rfl⟩, hkind⟩

theorem holds_lone : (Dashboard.lone title panelTitle query).Holds (.lone panelTitle query) :=
  Or.inl (.root List.mem_cons_self)

/-- Where its target is faulty, such a dashboard has one error. -/
theorem exists_lint_lone (hname : validQueryRule.name ∉ excluded)
    (hfaulty : Faulty (.lone title panelTitle query) { expr := query })
    (hreturns : Text.trim query.toList ≠ [] → Query.ParserReturns
      (Dashboard.lone title panelTitle query).templating.list query.toList) :
    ∃ fs, (Rules.all.without excluded).lint (.lone title panelTitle query) = .ok fs ∧
      (Summary.ofFindings fs).errors = 1 := by
  have hrules : Rules.all.without excluded = [validQueryRule] := by
    simp [Rules.without, Rules.all, hname]
  have hcheck : ∃ v, check (.lone title panelTitle query) (.lone panelTitle query)
      { expr := query } = .ok v :=
    exists_check_iff.mpr fun _ => hreturns
  obtain ⟨v, hv⟩ := hcheck
  have herror := (judged_of_check hv).isError_iff.mpr ⟨concerns_lone, hfaulty⟩
  refine ⟨[⟨validQueryRule.name, panelTitle, v⟩], ?_, ?_⟩
  · rw [hrules, lint_eq_ok_iff]
    exact .cons ⟨rfl, rfl, hv⟩ .nil
  · simp [Summary.ofFindings, herror]

/-- It brings a line that it shows into its report. -/
theorem exists_lint_of_mentions (hname : validQueryRule.name ∉ excluded)
    (hfaulty : Faulty (.lone title panelTitle query) { expr := query })
    (hreturns : Text.trim query.toList ≠ [] → Query.ParserReturns
      (Dashboard.lone title panelTitle query).templating.list query.toList)
    (hs : s ∈ shown (.lone title panelTitle query) (.lone panelTitle query) { expr := query })
    (hmentions : Mentions s ("\n" ++ line ++ "\n")) (hline : OneLine line) :
    ∃ fs, (Rules.all.without excluded).lint (.lone title panelTitle query) = .ok fs ∧
      (Summary.ofFindings fs).errors = 1 ∧ line ∈ lines (Report.findings path fs) := by
  obtain ⟨fs, hlint, herrors⟩ := exists_lint_lone hname hfaulty hreturns
  have hshows : Dashboard.Shows (.lone title panelTitle query) s :=
    .entry holds_lone List.mem_cons_self concerns_lone hfaulty hs
  exact ⟨fs, hlint, herrors, mem_lines_of_shows hlint hname hshows hmentions hline⟩

/-- A target without a query is faulty. -/
theorem faulty_empty : Faulty (.lone title panelTitle "") { expr := "" } :=
  Or.inl ⟨rfl, Or.inl (Int.le_refl 0)⟩

/-- **Any line can be brought into a report** in each of these ways, beside a single error. -/
theorem exists_lint_bringing (hname : validQueryRule.name ∉ excluded) (hline : OneLine line)
    (hd : d ∈ Dashboard.bringing line) :
    ∃ fs, (Rules.all.without excluded).lint d = .ok fs ∧ (Summary.ofFindings fs).errors = 1 ∧
      line ∈ lines (Report.findings path fs) := by
  have hself (s : String) : Mentions s s := ⟨"", "", by simp⟩
  rw [Dashboard.bringing, List.mem_cons, List.mem_cons, List.mem_singleton] at hd
  obtain rfl | rfl | rfl := hd
  · refine exists_lint_of_mentions hname faulty_empty (fun h => absurd rfl h) ?_ (hself _) hline
    exact List.mem_cons_self
  · refine exists_lint_of_mentions hname faulty_empty (fun h => absurd rfl h) ?_ (hself _) hline
    exact List.mem_cons_of_mem _ List.mem_cons_self
  · have hquery : (")\n" ++ line ++ "\n").toList = ')' :: ("\n" ++ line ++ "\n").toList := by
      simp
    have hmentions : Mentions (")\n" ++ line ++ "\n") ("\n" ++ line ++ "\n") :=
      ⟨")", "", String.toList_inj.mp (by simp)⟩
    refine exists_lint_of_mentions hname ?_ (fun _ => hquery ▸ parserReturns_stray) ?_ hmentions
      hline
    · exact Or.inr ⟨hquery ▸ trim_stray, hquery ▸ invalid_stray⟩
    · rw [shown_of_query (hquery ▸ trim_stray)]
      exact List.mem_cons_of_mem _ (List.mem_cons_of_mem _ List.mem_cons_self)

end Lone

/-! ## 6. The lines of a report -/

/-- **The report line by line.**  A dashboard has findings where the parser gives up on none of its
texts.  The report on them has an entry for each error, in order, which begins with its severity and
the rule, and then the one with the numbers.  It has as many lines at least; it has just as many,
and the entries are its lines, where no text that it shows has a line break, and only there.  A line
that stands between line breaks in such a text is a line of the report, so that the title of a
dashboard, the title of a panel and a query can bring in any line whatever. -/
theorem report_line_by_line (path : String) (hpath : OneLine path) (excluded : List String) :
    (∀ d : Dashboard,
      ((∃ fs, (Rules.all.without excluded).lint d = .ok fs) ↔
        (validQueryRule.name ∉ excluded →
          ∀ text, d.Asks text → Promql.parse text ≠ .error .aborted)) ∧
      ∀ fs, (Rules.all.without excluded).lint d = .ok fs →
        Report.findings path fs = unlines
          ((fs.filter (·.verdict.isError)).map Report.entry ++ [Report.summary path fs]) ∧
        (∀ f ∈ fs, f.verdict.isError = true →
          ∃ rest, Report.entry f = "[error] " ++ validQueryRule.name ++ rest) ∧
        (Summary.ofFindings fs).errors + 1 ≤ (lines (Report.findings path fs)).length ∧
        ((lines (Report.findings path fs)).length = (Summary.ofFindings fs).errors + 1 ↔
          (validQueryRule.name ∉ excluded → ∀ s, d.Shows s → OneLine s)) ∧
        (lines (Report.findings path fs) =
            (fs.filter (·.verdict.isError)).map Report.entry ++ [Report.summary path fs] ↔
          (validQueryRule.name ∉ excluded → ∀ s, d.Shows s → OneLine s)) ∧
        (validQueryRule.name ∉ excluded → ∀ line, OneLine line → ∀ s, d.Shows s →
          Mentions s ("\n" ++ line ++ "\n") → line ∈ lines (Report.findings path fs))) ∧
    (validQueryRule.name ∉ excluded → ∀ line, OneLine line → ∀ d ∈ Dashboard.bringing line,
      ∃ fs, (Rules.all.without excluded).lint d = .ok fs ∧ (Summary.ofFindings fs).errors = 1 ∧
        line ∈ lines (Report.findings path fs)) := by
  refine ⟨fun d => ⟨exists_findings_iff, fun fs hlint => ?_⟩, ?_⟩
  · have hreport : Report.findings path fs = unlines (Report.entries path fs) :=
      Report.findings_eq_unlines
    have hlength : (Report.entries path fs).length = (Summary.ofFindings fs).errors + 1 :=
      Report.length_entries
    have hlines := forall_oneLine_entries_iff hpath hlint
    refine ⟨hreport, fun f hf herror => entry_of_isError hlint hf herror, ?_, ?_, ?_, ?_⟩
    · rw [hreport, ← hlength]
      exact le_length_lines_unlines _
    · rw [hreport, ← hlength, length_lines_unlines_eq_iff, hlines]
    · rw [hreport]
      exact lines_unlines_eq_iff.trans hlines
    · exact fun hname line hline s hs hmentions =>
        mem_lines_of_shows hlint hname hs hmentions hline
  · exact fun hname line hline d hd => exists_lint_bringing hname hline hd

/-- A panel whose title says that nothing is wrong.  The report has one error, and more than the two
lines that are due, one of them with numbers that are not those of the dashboard. -/
theorem report_line_by_line_imitated :
    OneLine "d.json" ∧ OneLine "d.json: 0 checks, 0 errors" ∧
    ∃ fs, (Rules.all.without []).lint (.lone "" ("\n" ++ "d.json: 0 checks, 0 errors" ++ "\n") "") =
        .ok fs ∧
      (Summary.ofFindings fs).errors = 1 ∧ 2 < (lines (Report.findings "d.json" fs)).length ∧
      "d.json: 0 checks, 0 errors" ∈ lines (Report.findings "d.json" fs) := by
  have hpath : OneLine "d.json" := by decide +kernel
  have hline : OneLine "d.json: 0 checks, 0 errors" := by decide +kernel
  have hname : validQueryRule.name ∉ ([] : List String) := List.not_mem_nil
  obtain ⟨hall, hbringing⟩ := report_line_by_line "d.json" hpath []
  obtain ⟨fs, hlint, herrors, hmem⟩ := hbringing hname _ hline _
    (List.mem_cons_of_mem _ List.mem_cons_self)
  obtain ⟨-, -, hle, hiff, -⟩ := (hall _).2 fs hlint
  have hshows : Dashboard.Shows (.lone "" ("\n" ++ "d.json: 0 checks, 0 errors" ++ "\n") "")
      ("\n" ++ "d.json: 0 checks, 0 errors" ++ "\n") :=
    .entry holds_lone List.mem_cons_self concerns_lone faulty_empty
      (List.mem_cons_of_mem _ List.mem_cons_self)
  have hbroken : ¬ OneLine ("\n" ++ "d.json: 0 checks, 0 errors" ++ "\n") := by decide +kernel
  have hne : (lines (Report.findings "d.json" fs)).length ≠ (Summary.ofFindings fs).errors + 1 :=
    fun h => hbroken (hiff.mp h hname _ hshows)
  exact ⟨hpath, hline, fs, hlint, herrors, by omega, hmem⟩

end PanelLint
