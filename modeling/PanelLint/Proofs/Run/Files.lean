import PanelLint.Proofs.Rule.Findings
import PanelLint.Proofs.Rule.Verdicts
import PanelLint.Proofs.Text.Utf8
import PanelLint.Run
/-!
# Runs over several files

A run puts its files together from outcomes that have nothing to do with each other: the report is
made of one block for each file, in the order of the command line, and the run fails if it fails at
one of the files.  What a file brings to the run is settled by its path, by what it holds and by the
rules.  No file is passed over in silence: each block names its file.

* `Fails`: what makes a run fail at a file;
* `IsBlock`, `isBlock_block`: what stands in the report for a file;
* `lintFile_eq`: the outcome at one file;
* `lintFiles_append`, `lintFiles_eq`: the outcome at several files;
* `lintFiles_block_by_block`: both, and with them the output of the program.
-/

namespace PanelLint

variable {rules : Rules} {files : Files} {path : String} {paths : List String}

/-! ## 1. What a file holds -/

/-- What is found at a path. -/
abbrev Contents := Except ReadError (List UInt8)

variable {contents : Contents} {d : Dashboard} {e : LoadError}

/-- **Contents that are a dashboard**: the bytes of a text, which is a document, which has the
structure of a dashboard. -/
inductive Contents.IsDashboard : Contents → Dashboard → Prop
  | document {text : List Char} {v : Json.Value} {d : Dashboard} :
      Json.read text = .ok v → Dashboard.ofDocument v = .ok d →
      IsDashboard (.ok (Text.encode text)) d

/-- **Contents that are no dashboard**, because one of these steps fails. -/
inductive Contents.NoDashboard : Contents → Prop
  | unreadable (e : ReadError) : NoDashboard (.error e)
  | notText {bytes : List UInt8} : (∀ text, Text.encode text ≠ bytes) → NoDashboard (.ok bytes)
  | notJson {text : List Char} {e : Json.SyntaxError} :
      Json.read text = .error e → NoDashboard (.ok (Text.encode text))
  | notDashboard {text : List Char} {v : Json.Value} {e : Dashboard.SchemaError} :
      Json.read text = .ok v → Dashboard.ofDocument v = .error e →
      NoDashboard (.ok (Text.encode text))

/-- What is loaded is the dashboard that the contents are. -/
theorem load_eq_ok_iff :
    Dashboard.load files path = .ok d ↔ Contents.IsDashboard (files path) d := by
  unfold Dashboard.load
  generalize files path = contents
  constructor
  · intro h
    split at h
    next => cases h
    split at h
    next => cases h
    next htext =>
    obtain rfl := Text.decode?_eq_some_iff.mp htext
    unfold Dashboard.read at h
    split at h
    next => cases h
    next v hv =>
    cases hd : Dashboard.ofDocument v with
    | error e => rw [hd] at h; cases h
    | ok d' =>
      rw [hd] at h
      cases h
      exact .document hv hd
  · rintro ⟨hv, hd⟩
    simp only [Text.decode?_eq_some_iff.mpr rfl, Dashboard.read, hv, hd, Except.mapError]

/-- **Why contents are no dashboard**, from the outermost cause on. -/
inductive Contents.Causes (path : String) : Contents → List String → Prop
  | unreadable (e : ReadError) :
      Causes path (.error e) ["Failed to read dashboard " ++ path, e.message]
  | notText {bytes : List UInt8} (h : ∀ text, Text.encode text ≠ bytes) :
      Causes path (.ok bytes)
        ["Failed to read dashboard " ++ path, "stream did not contain valid UTF-8"]
  | notJson {text : List Char} {e : Json.SyntaxError} (h : Json.read text = .error e) :
      Causes path (.ok (Text.encode text))
        ["Failed to parse dashboard " ++ path, "Dashboard is not valid JSON", e.message]
  | notDashboard {text : List Char} {v : Json.Value} {e : Dashboard.SchemaError}
      (hv : Json.read text = .ok v) (h : Dashboard.ofDocument v = .error e) :
      Causes path (.ok (Text.encode text))
        ["Failed to parse dashboard " ++ path, "Unexpected dashboard structure", e.message]

theorem Contents.Causes.noDashboard {causes : List String} (h : contents.Causes path causes) :
    contents.NoDashboard := by
  cases h with
  | unreadable e => exact .unreadable e
  | notText h => exact .notText h
  | notJson h => exact .notJson h
  | notDashboard hv h => exact .notDashboard hv h

/-- Where nothing is loaded, the causes are told. -/
theorem causes_of_load (h : Dashboard.load files path = .error e) :
    Contents.Causes path (files path) (e.messages path) := by
  unfold Dashboard.load at h
  generalize files path = contents at h ⊢
  split at h
  next e' =>
    cases h
    exact .unreadable e'
  split at h
  next htext =>
    cases h
    exact .notText (Text.decode?_eq_none_iff.mp htext)
  next htext =>
  obtain rfl := Text.decode?_eq_some_iff.mp htext
  unfold Dashboard.read at h
  split at h
  next hread =>
    cases h
    exact .notJson hread
  next v hv =>
  cases hd : Dashboard.ofDocument v with
  | error e' =>
    rw [hd] at h
    cases h
    exact .notDashboard hv hd
  | ok d' =>
    rw [hd] at h
    cases h

/-- Nothing is loaded where the contents are none. -/
theorem exists_load_eq_error_iff :
    (∃ e, Dashboard.load files path = .error e) ↔ Contents.NoDashboard (files path) := by
  constructor
  · rintro ⟨e, h⟩
    exact (causes_of_load h).noDashboard
  · unfold Dashboard.load
    generalize files path = contents
    intro h
    cases h with
    | unreadable e => exact ⟨_, rfl⟩
    | notText htext => exact ⟨.notText, by simp only [Text.decode?_eq_none_iff.mpr htext]⟩
    | @notJson text e he =>
      refine ⟨.badDocument (.notJson e), ?_⟩
      simp only [Text.decode?_eq_some_iff.mpr rfl, Dashboard.read, he, Except.mapError]
    | @notDashboard text v e hv he =>
      refine ⟨.badDocument (.notDashboard e), ?_⟩
      simp only [Text.decode?_eq_some_iff.mpr rfl, Dashboard.read, hv, he, Except.mapError]

/-! ## 2. The outcome at one file -/

/-- **What makes a run fail at a file**: it is no dashboard, or a rule finds an error in it. -/
inductive Fails (rules : Rules) : Contents → Prop
  | noDashboard {contents : Contents} : contents.NoDashboard → Fails rules contents
  | faulty {contents : Contents} {d : Dashboard} {p : Panel} {t : Target} {r : Rule} {v : Verdict} :
      contents.IsDashboard d → d.Holds p → t ∈ p.targets → r ∈ rules → r.check d p t = .ok v →
      v.isError = true → Fails rules contents

/-- If the contents are a dashboard, every rule gives a verdict on every target there. -/
def ChecksReturn (rules : Rules) (contents : Contents) : Prop :=
  ∀ d, contents.IsDashboard d → ∀ p, d.Holds p → ∀ t ∈ p.targets, ∀ r ∈ rules,
    ∃ v, r.check d p t = .ok v

/-- **The block of a file in the report**: the line for a file without a dashboard, or else the
errors and the numbers. -/
def Rules.block (rules : Rules) (path : String) (contents : Contents) : String :=
  match Dashboard.load (fun _ => contents) path with
  | .error e => Report.loadError path (e.messages path)
  | .ok d =>
    match rules.lint d with
    | .ok fs => Report.findings path fs
    | .error _ => ""

/-- **What stands in the report for a file**: where it is no dashboard, one line that says why; else
an entry for each error that is found, in the order of the findings, and a line with the numbers. -/
inductive IsBlock (rules : Rules) (path : String) : Contents → String → Prop
  | noDashboard {contents : Contents} {causes : List String} (h : contents.Causes path causes) :
      IsBlock rules path contents
        ("[error] " ++ path ++ ": " ++ String.intercalate ": " causes ++ "\n")
  | dashboard {contents : Contents} {d : Dashboard} {fs : List Finding}
      (hd : contents.IsDashboard d) (hfs : rules.lint d = .ok fs) :
      IsBlock rules path contents
        (String.join ((fs.filter (·.verdict.isError)).map fun f =>
            "[error] " ++ f.rule ++ " (" ++ f.panel ++ "): " ++ f.verdict.message ++ "\n") ++
          (path ++ ": " ++ toString fs.length ++ " checks, " ++
            toString (fs.filter (·.verdict.isError)).length ++ " errors\n"))

/-- A block names its file, and it ends a line. -/
theorem IsBlock.exists_eq {block : String} (h : IsBlock rules path contents block) :
    ∃ front back, block = front ++ path ++ ": " ++ back ++ "\n" := by
  cases h with
  | noDashboard h => exact ⟨_, _, rfl⟩
  | @dashboard d fs hd hfs =>
    generalize String.join _ = entries
    refine ⟨entries, toString fs.length ++ " checks, " ++
      toString (fs.filter (·.verdict.isError)).length ++ " errors", ?_⟩
    have hbreak : " errors\n" = " errors" ++ "\n" := by rfl
    simp only [hbreak, String.append_assoc]

/-- **The block of a file** is what has to stand in the report for it. -/
theorem isBlock_block (h : ChecksReturn rules contents) :
    IsBlock rules path contents (rules.block path contents) := by
  unfold Rules.block
  cases hload : Dashboard.load (fun _ => contents) path with
  | error e => exact .noDashboard (causes_of_load hload)
  | ok d =>
    have hd : contents.IsDashboard d := load_eq_ok_iff.mp hload
    obtain ⟨fs, hfs⟩ := exists_lint (h d hd)
    have hentries : (fs.filter (·.verdict.isError)).map Report.findingLine =
        (fs.filter (·.verdict.isError)).map fun f =>
          "[error] " ++ f.rule ++ " (" ++ f.panel ++ "): " ++ f.verdict.message ++ "\n" := by
      refine List.map_congr_left fun f hf => ?_
      have herror : f.verdict.severity = .error := by
        simpa [Verdict.isError] using (List.mem_filter.mp hf).2
      rw [Report.findingLine, herror]
      rfl
    have hblock : IsBlock rules path contents _ := .dashboard hd hfs
    rw [← hentries, ← List.countP_eq_length_filter] at hblock
    simp only [hfs]
    exact hblock

theorem load_eq_load_const :
    Dashboard.load files path = Dashboard.load (fun _ => files path) path := rfl

/-- **The outcome at one file** is its block, and whether the run fails there. -/
theorem lintFile_eq (h : ChecksReturn rules (files path)) :
    ∃ failed, lintFile rules files path = .ok ⟨rules.block path (files path), failed⟩ ∧
      (failed = true ↔ Fails rules (files path)) := by
  unfold lintFile Rules.block
  rw [← load_eq_load_const]
  cases hload : Dashboard.load files path with
  | error e =>
    have hno := exists_load_eq_error_iff.mp ⟨e, hload⟩
    exact ⟨true, rfl, iff_of_true rfl (.noDashboard hno)⟩
  | ok d =>
    have hd := load_eq_ok_iff.mp hload
    obtain ⟨fs, hfs⟩ := exists_lint (h d hd)
    refine ⟨decide (0 < (Summary.ofFindings fs).errors), by simp only [hfs]; rfl, ?_⟩
    rw [decide_eq_true_iff, errors_pos_iff hfs]
    constructor
    · rintro ⟨p, t, r, v, hp, ht, hr, hv, herror⟩
      exact .faulty hd hp ht hr hv herror
    · intro hfails
      cases hfails with
      | noDashboard hno =>
        obtain ⟨e, he⟩ := exists_load_eq_error_iff.mpr hno
        cases hload.symm.trans he
      | faulty hd' hp ht hr hv herror =>
        cases Except.ok.inj (hload.symm.trans (load_eq_ok_iff.mpr hd'))
        exact ⟨_, _, _, _, hp, ht, hr, hv, herror⟩

/-! ## 3. The outcome at several files -/

theorem Outcome.empty_append (a : Outcome) : ({} : Outcome) ++ a = a := by
  change Outcome.append {} a = a
  simp [Outcome.append]

theorem Outcome.append_assoc (a b c : Outcome) : a ++ b ++ c = a ++ (b ++ c) := by
  change Outcome.append (Outcome.append a b) c = Outcome.append a (Outcome.append b c)
  simp [Outcome.append, String.append_assoc, Bool.or_assoc]

/-- **One list of files after another.** -/
theorem lintFiles_append (rules : Rules) (files : Files) (p q : List String) :
    lintFiles rules files (p ++ q) =
      (lintFiles rules files p).bind fun a => (lintFiles rules files q).map fun b => a ++ b := by
  induction p with
  | nil =>
    rw [List.nil_append, lintFiles]
    cases lintFiles rules files q with
    | error e => rfl
    | ok b => exact congrArg Except.ok (Outcome.empty_append b).symm
  | cons path p ih =>
    -- where a file breaks off the run, both sides stop at the first such file
    rw [List.cons_append, lintFiles, lintFiles, ih]
    cases lintFile rules files path with
    | error e => rfl
    | ok a =>
      cases lintFiles rules files p with
      | error e => rfl
      | ok others =>
        cases lintFiles rules files q with
        | error e => rfl
        | ok b => exact congrArg Except.ok (Outcome.append_assoc a others b).symm

/-- **The outcome at several files** is made of their blocks; it is a failure if one of them is. -/
theorem lintFiles_eq (h : ∀ path ∈ paths, ChecksReturn rules (files path)) :
    ∃ failed, lintFiles rules files paths =
        .ok ⟨String.join (paths.map fun path => rules.block path (files path)), failed⟩ ∧
      (failed = true ↔ ∃ path ∈ paths, Fails rules (files path)) := by
  induction paths with
  | nil => exact ⟨false, rfl, by simp⟩
  | cons path paths ih =>
    obtain ⟨hpath, hpaths⟩ := List.forall_mem_cons.mp h
    obtain ⟨failed, hfirst, hfailed⟩ := lintFile_eq hpath
    obtain ⟨failed', hothers, hfailed'⟩ := ih hpaths
    refine ⟨failed || failed', ?_, ?_⟩
    · rw [lintFiles, hfirst, hothers, List.map_cons, String.join_cons]
      rfl
    · rw [Bool.or_eq_true, hfailed, hfailed', List.exists_mem_cons_iff]

/-! ## 4. The output of the program -/

/-- The rules there are give a verdict where the parser returns. -/
theorem checksReturn_of_parserReturns (names : List String)
    (h : ∀ d, contents.IsDashboard d → d.ParserReturns) :
    ChecksReturn (Rules.all.without names) contents := by
  intro d hd p hp t ht r hr
  cases List.mem_singleton.mp (List.mem_of_mem_filter hr)
  exact ValidQuery.exists_check (h d hd p hp t ht)

theorem runIn_eq {formats : List Settings.Format} {env : Settings.Environment}
    {commandLine : List String} {args : Arguments} {settings : Settings}
    (hread : CommandLine.read commandLine = .ok args)
    (hload : Settings.loadIn formats files args.config env = .ok settings)
    (hlist : args.listRules = false) :
    runIn formats files env commandLine =
      Output.ofOutcome (lintFiles (Rules.all.without settings.exclude) files args.files) := by
  simp [runIn, hread, hload, runWith, hlist]

/-- **A run is made of its files.**  Where every check returns, one list of files after another
gives one report after the other and fails if one of them does; the report has one block for each
file, which is what has to stand there and names the file, and the run fails just when it fails at a
file.  The exit code says so, whatever the formats of settings files are. -/
theorem lintFiles_block_by_block :
    (∀ (rules : Rules) (files : Files) (p q : List String),
      (∀ path ∈ p ++ q, ChecksReturn rules (files path)) →
      ∃ a b, lintFiles rules files p = .ok a ∧ lintFiles rules files q = .ok b ∧
        lintFiles rules files (p ++ q) = .ok ⟨a.report ++ b.report, a.failed || b.failed⟩ ∧
        a.report ++ b.report =
          String.join ((p ++ q).map fun path => rules.block path (files path)) ∧
        (∀ path ∈ p ++ q, IsBlock rules path (files path) (rules.block path (files path)) ∧
          ∃ front back, rules.block path (files path) = front ++ path ++ ": " ++ back ++ "\n") ∧
        ((a.failed || b.failed) = true ↔ ∃ path ∈ p ++ q, Fails rules (files path))) ∧
    ∀ (formats : List Settings.Format) (files : Files) (env : Settings.Environment)
      (commandLine : List String) (args : Arguments) (settings : Settings),
      CommandLine.read commandLine = .ok args →
      Settings.loadIn formats files args.config env = .ok settings → args.listRules = false →
      (∀ path ∈ args.files, ∀ d, Contents.IsDashboard (files path) d → d.ParserReturns) →
      ∃ o, lintFiles (Rules.all.without settings.exclude) files args.files = .ok o ∧
        (o.failed = true ↔
          ∃ path ∈ args.files, Fails (Rules.all.without settings.exclude) (files path)) ∧
        runIn formats files env commandLine = ⟨if o.failed then 1 else 0, o.report⟩ := by
  constructor
  · intro rules files p q h
    obtain ⟨failed, ha, -⟩ := lintFiles_eq fun path hp => h path (List.mem_append_left q hp)
    obtain ⟨failed', hb, -⟩ := lintFiles_eq fun path hq => h path (List.mem_append_right p hq)
    obtain ⟨failed'', hab, hiff⟩ := lintFiles_eq h
    have happend := lintFiles_append rules files p q
    rw [ha, hb] at happend
    have hsame := Except.ok.inj (hab.symm.trans happend)
    have hfailed : failed'' = (failed || failed') := congrArg Outcome.failed hsame
    refine ⟨_, _, ha, hb, happend, (congrArg Outcome.report hsame).symm, ?_, hfailed ▸ hiff⟩
    intro path hpath
    have hblock : IsBlock rules path (files path) _ := isBlock_block (h path hpath)
    exact ⟨hblock, hblock.exists_eq⟩
  · intro formats files env commandLine args settings hread hload hlist h
    obtain ⟨failed, ho, hiff⟩ :=
      lintFiles_eq fun path hpath => checksReturn_of_parserReturns _ (h path hpath)
    refine ⟨_, ho, hiff, ?_⟩
    rw [runIn_eq hread hload hlist, ho, Output.ofOutcome]

/-- A graph for Prometheus with a target that has neither a query nor a panel. -/
def faultyFile : List Char :=
  ("\x7b\"panels\":[\x7b\"type\":\"graph\",\"targets\":[\x7b\x7d]\x7d]," ++
    "\"templating\":\x7b\"list\":[\x7b\"type\":\"datasource\"," ++
    "\"query\":\"prometheus\"\x7d]\x7d\x7d").toList

/-- A folder with that file and one that holds an empty dashboard. -/
def twoFiles : Folder :=
  .ofPaths [("faulty.json", faultyFile.map fun c => UInt8.ofNat c.toNat),
    ("clean.json", [0x7B, 0x7D])]

/-- The failure at the first file is kept at the second one. -/
theorem lintFiles_block_by_block_faulty_first :
    (∀ path ∈ ["faulty.json", "clean.json"], ∀ d,
      Contents.IsDashboard (twoFiles.files path) d → d.ParserReturns) ∧
    (∃ a b, lintFiles Rules.all twoFiles.files ["faulty.json"] = .ok a ∧
      lintFiles Rules.all twoFiles.files ["clean.json"] = .ok b ∧
      a.failed = true ∧ b.failed = false ∧
      lintFiles Rules.all twoFiles.files ["faulty.json", "clean.json"] =
        .ok ⟨a.report ++ b.report, true⟩) ∧
    (run twoFiles.files [] ["faulty.json", "clean.json"]).code = 1 := by
  have hreturns : ∀ path ∈ ["faulty.json", "clean.json"], ∀ d,
      Contents.IsDashboard (twoFiles.files path) d → d.ParserReturns := by
    have hall : ∀ path ∈ ["faulty.json", "clean.json"],
        (Dashboard.load twoFiles.files path).toOption.all fun d => decide (∀ p ∈ d.allPanels,
          ∀ t ∈ p.targets, Query.ParserReturns d.templating.list t.expr.toList) := by
      decide +kernel
    intro path hpath d hd p hp
    have hload := hall path hpath
    rw [load_eq_ok_iff.mpr hd] at hload
    exact of_decide_eq_true hload p (mem_allPanels_iff.mpr hp)
  have hread : CommandLine.read ["faulty.json", "clean.json"] =
      .ok { files := ["faulty.json", "clean.json"] } := by
    decide +kernel
  have hsettings : Settings.load twoFiles.files none [] = .ok {} := by decide +kernel
  obtain ⟨a, b, ha, hb, hab, -⟩ :=
    lintFiles_block_by_block.1 Rules.all twoFiles.files ["faulty.json"] ["clean.json"]
      fun path hpath => checksReturn_of_parserReturns [] (hreturns path hpath)
  obtain ⟨o, ho, -, hrun⟩ :=
    lintFiles_block_by_block.2 Settings.Format.known twoFiles.files [] _ _ _ hread hsettings rfl
      hreturns
  have hafailed : (lintFiles Rules.all twoFiles.files ["faulty.json"]).map Outcome.failed =
      .ok true := by
    decide +kernel
  have hbfailed : (lintFiles Rules.all twoFiles.files ["clean.json"]).map Outcome.failed =
      .ok false := by
    decide +kernel
  rw [ha] at hafailed
  rw [hb] at hbfailed
  replace hafailed := Except.ok.inj hafailed
  replace hbfailed := Except.ok.inj hbfailed
  rw [hafailed, Bool.true_or] at hab
  refine ⟨hreturns, ⟨a, b, ha, hb, hafailed, hbfailed, hab⟩, ?_⟩
  rw [run, hrun, Except.ok.inj (ho.symm.trans hab)]
  rfl

end PanelLint
