import PanelLint.Proofs.Query.Fillings
/-!
# Queries that are accepted before expansion

Two fillings of a query are accepted in their own right: the one that Grafana sends, with the
selected value of each variable, and, where nothing is selected, any that a user may find.  Whether
the query is accepted then, with the texts that expansion puts in, is settled by what the values are.

* `parse_of_sent`: a query is accepted if what is sent for it is and the values fit;
* `parse_of_unset`: a query without selected values is accepted if some filling is and its texts fit;
* `sent_accepted_query_refused`, `unset_accepted_query_refused`: texts that do not fit.
-/

namespace PanelLint.Query

open PanelLint.Text PanelLint.Promql PanelLint.Promql.Lexer

variable {templates : List Template} {query name t : List Char} {p : Position}
  {record : List (Piece × List Char)}

/-! ## 1. A value, or what stands in for it -/

theorem filter_getD_cases {α : Type} (v : α) (shape : α → Bool) (other : α) :
    ((some v).filter shape).getD other = v ∨
      ((some v).filter shape).getD other = ((none : Option α).filter shape).getD other := by
  cases hv : shape v with
  | true => exact Or.inl (by simp [Option.filter, hv])
  | false => exact Or.inr (by simp [Option.filter, hv])

/-- What stands in for a variable is its value or what stands in without one. -/
theorem standIn_cases (name v : List Char) (p : Position) :
    standIn name (some v) p = v ∨ standIn name (some v) p = standIn name none p := by
  cases p <;> exact filter_getD_cases v _ _

/-! ## 2. The query that is sent -/

/-- **What is sent for a reference**: the text of a variable of Grafana's own, or the value that is
selected, if it is a single one. -/
def sentText? (templates : List Template) (name : List Char) : Option (List Char) :=
  if globalPrefix.isPrefixOf name then (substitute templates name .expression).toOption
  else (findTemplate? templates name).bind fun t => t.currentValue.map String.toList

/-- A piece of a query with what is sent for it. -/
def sentPiece? (templates : List Template) (piece : Piece) : Option (Piece × List Char) :=
  match piece with
  | .reference r => (sentText? templates r.name).map fun t => (piece, t)
  | _ => some (piece, piece.text)

/-- **The query that is sent**, if every reference has something to send. -/
def sent? (templates : List Template) (query : List Char) : Option (List (Piece × List Char)) :=
  (pieces query).mapM (sentPiece? templates)

theorem sentPiece?_eq_some {piece : Piece} {w : Piece × List Char}
    (h : sentPiece? templates piece = some w) : w.1 = piece ∧
      ((∀ r, w.1 ≠ .reference r) → w.2 = w.1.text) ∧
        ∀ r, w.1 = .reference r → sentText? templates r.name = some w.2 := by
  unfold sentPiece? at h
  split at h
  · next r =>
    obtain ⟨t, ht, rfl⟩ := Option.map_eq_some_iff.mp h
    refine ⟨rfl, fun hr => absurd rfl (hr r), fun r' hr' => ?_⟩
    obtain rfl := Piece.reference.inj hr'
    exact ht
  · next hr =>
    cases h
    exact ⟨rfl, fun _ => rfl, fun r hr' => absurd hr' (hr r)⟩

/-- The query that is sent is a filling with what is sent for each reference. -/
theorem filling_of_sent (h : sent? templates query = some record) : Filling query record ∧
    ∀ r u, (.reference r, u) ∈ record → sentText? templates r.name = some u := by
  have hall : ∀ (ps : List Piece) (record : List (Piece × List Char)),
      ps.mapM (sentPiece? templates) = some record →
        record.map Prod.fst = ps ∧ ∀ w ∈ record, ((∀ r, w.1 ≠ .reference r) → w.2 = w.1.text) ∧
          ∀ r, w.1 = .reference r → sentText? templates r.name = some w.2 := by
    intro ps
    induction ps with
    | nil =>
      intro record hrecord
      cases hrecord
      exact ⟨rfl, by simp⟩
    | cons piece ps ih =>
      intro record hrecord
      rw [List.mapM_cons] at hrecord
      obtain ⟨w, hw, hrecord⟩ := Option.bind_eq_some_iff.mp hrecord
      obtain ⟨record', hrecord', heq⟩ := Option.bind_eq_some_iff.mp hrecord
      cases heq
      obtain ⟨hfst, hw⟩ := sentPiece?_eq_some hw
      obtain ⟨hps, hws⟩ := ih record' hrecord'
      refine ⟨by rw [List.map_cons, hfst, hps], fun v hv => ?_⟩
      rcases List.mem_cons.mp hv with rfl | hv
      · exact hw
      · exact hws v hv
  obtain ⟨hps, hws⟩ := hall _ _ h
  exact ⟨⟨hps, fun w hw => (hws w hw).1⟩, fun r u hw => (hws _ hw).2 r rfl⟩

/-- Expansion writes what is sent, or else a stand-in. -/
theorem writes_of_sent
    (h : ∀ r u, (.reference r, u) ∈ record → sentText? templates r.name = some u) :
    Writes templates record := by
  intro r u hw p
  have hsent := h r u hw
  unfold sentText? at hsent
  split at hsent
  · next hglobal =>
    left
    rw [substitute_of_global hglobal p .expression]
    cases hsub : substitute templates r.name .expression with
    | error e => rw [hsub] at hsent; cases hsent
    | ok t => rw [hsub] at hsent; cases hsent; rfl
  · next hglobal =>
    obtain ⟨template, hfind, hvalue⟩ := Option.bind_eq_some_iff.mp hsent
    have hsub := substitute_of_template (Bool.eq_false_iff.mpr hglobal) hfind p
    rw [hvalue] at hsub
    rw [hsub]
    rcases standIn_cases r.name u p with heq | heq
    · exact Or.inl (by rw [heq])
    · exact Or.inr (by rw [heq])

/-- **A query is accepted if what is sent for it is.**  The values have to fit: part by part, what is
sent gives way to what expansion writes, or stands in a comment.  If other names may come for names, no
label may stand on both sides of a match then. -/
theorem parse_of_sent (renamed : Prop) (templates : List Template) (query : List Char)
    (record : List (Piece × List Char)) (e : Expr) (hsent : sent? templates query = some record)
    (hparse : Promql.parse (filled record) = .ok e)
    (hfits : FitsAll renamed templates (filled record) {} record)
    (hlabels : renamed → ∀ out ts, expand templates query = .ok out → tokens out = .ok ts →
      LabelsApart ts) : ∃ e', parse templates query = .ok e' := by
  obtain ⟨hfilling, htexts⟩ := filling_of_sent hsent
  exact parse_of_filling hfilling (writes_of_sent htexts) hfits hlabels hparse

theorem exists_of_isOk {ε α : Type} {x : Except ε α} (h : x.isOk = true) : ∃ a, x = .ok a := by
  cases x with
  | error e => cases h
  | ok a => exact ⟨a, rfl⟩

/-- A variable with a selected value. -/
def selected (name value : String) : Template := { name, current := some ⟨some (.single value)⟩ }

/-- That no label stands on both sides of a match, computed for one query. -/
theorem labelsApart_expand (out : List Char) (ts : List Token) (hout : expand templates query = .ok out)
    (hts : tokens out = .ok ts) (h : ts.tails.all (fun us => !sharesLabel us) = true) :
    ∀ out ts, expand templates query = .ok out → tokens out = .ok ts → LabelsApart ts := by
  intro out' ts' hout' hts'
  obtain rfl := Except.ok.inj (hout.symm.trans hout')
  obtain rfl := Except.ok.inj (hts.symm.trans hts')
  exact labelsApart_of_all h

/-- A number is sent where expansion writes a duration, before a comment; a selector with a matcher where
it writes a name; a matcher behind a name where it writes another name; and two labels where it writes
one. -/
theorem parse_of_sent_fragments :
    (∃ record e, sent? [selected "n" "5"] "rate(up[$n]) # note".toList = some record ∧
      filled record = "rate(up[5]) # note".toList ∧ Promql.parse (filled record) = .ok e ∧
      FitsAll False [selected "n" "5"] (filled record) {} record ∧
      ∃ e', parse [selected "n" "5"] "rate(up[$n]) # note".toList = .ok e') ∧
    (∃ record e, sent? [selected "m" "up\x7bjob='api'\x7d"] "sum($m)".toList = some record ∧
      filled record = "sum(up\x7bjob='api'\x7d)".toList ∧ Promql.parse (filled record) = .ok e ∧
      FitsAll False [selected "m" "up\x7bjob='api'\x7d"] (filled record) {} record ∧
      ∃ e', parse [selected "m" "up\x7bjob='api'\x7d"] "sum($m)".toList = .ok e') ∧
    (∃ record e, sent? [selected "f" "\x7bjob='api'\x7d"] "-up$f".toList = some record ∧
      filled record = "-up\x7bjob='api'\x7d".toList ∧ Promql.parse (filled record) = .ok e ∧
      FitsAll False [selected "f" "\x7bjob='api'\x7d"] (filled record) {} record ∧
      ∃ e', parse [selected "f" "\x7bjob='api'\x7d"] "-up$f".toList = .ok e') ∧
    ∃ record e, sent? [selected "g" "job, end"] "sum by ($g) (up)".toList = some record ∧
      filled record = "sum by (job, end) (up)".toList ∧ Promql.parse (filled record) = .ok e ∧
      FitsAll True [selected "g" "job, end"] (filled record) {} record ∧
      ∃ e', parse [selected "g" "job, end"] "sum by ($g) (up)".toList = .ok e' := by
  refine ⟨?_, ?_, ?_, ?_⟩
  · have hsent : sent? [selected "n" "5"] "rate(up[$n]) # note".toList =
        some (keptAll "rate(up[".toList ++ (single [] ⟨"$n".toList, "n".toList⟩
          "5".toList [] ++ keptAll "]) # note".toList)) := by decide +kernel
    have hlexed : Lexed "rate(up[5]) # note".toList "rate(up[".toList.reverse
        "5".toList "5m".toList "]) # note".toList
        [.identifier "rate", .leftParen, .identifier "up", .leftBracket]
        [.number "5"]
        [.rightBracket, .rightParen, .finish] (.duration "5m") ⟨.brackets false true, 1⟩
        ⟨.brackets false false, 1⟩ :=
      lexed_of_steps "rate(up[".toList 4 1 rfl (by decide +kernel) (by decide +kernel)
        (by decide +kernel) rfl (by decide) (by decide) (by decide) (.duration rfl (by simp) rfl)
    obtain ⟨e, he⟩ := exists_of_isOk (x := Promql.parse "rate(up[5]) # note".toList)
      (by decide +kernel)
    have hfits := fitsAll_single False [selected "n" "5"] "rate(up[".toList [] "5".toList []
      "]) # note".toList "5m".toList ⟨"$n".toList, "n".toList⟩ (by decide +kernel)
      (GivesWay.token hlexed (Swap.span rfl rfl isSound_five_minutes))
    exact ⟨_, e, hsent, rfl, he, hfits, parse_of_sent False _ _ _ e hsent he hfits False.elim⟩
  · have hsent : sent? [selected "m" "up\x7bjob='api'\x7d"] "sum($m)".toList =
        some (keptAll "sum(".toList ++ (single [] ⟨"$m".toList, "m".toList⟩
          "up\x7bjob='api'\x7d".toList [] ++ keptAll ")".toList)) := by decide +kernel
    have hlexed : Lexed "sum(up\x7bjob='api'\x7d)".toList "sum(".toList.reverse
        "up\x7bjob='api'\x7d".toList "m".toList ")".toList
        [.keyword (.aggregation .sum) "sum", .leftParen]
        [.identifier "up", .leftBrace, .identifier "job", .equal, .string "api", .rightBrace]
        [.rightParen, .finish] (.identifier "m") ⟨.plain, 1⟩ ⟨.plain, 1⟩ :=
      lexed_of_steps "sum(".toList 2 6 rfl (by decide +kernel) (by decide +kernel)
        (by decide +kernel) rfl (by decide) (by decide) (by decide)
        (.word rfl rfl (List.all_eq_true.mp (by decide)))
    obtain ⟨e, he⟩ := exists_of_isOk (x := Promql.parse "sum(up\x7bjob='api'\x7d)".toList)
      (by decide +kernel)
    have hfits := fitsAll_single False [selected "m" "up\x7bjob='api'\x7d"] "sum(".toList []
      "up\x7bjob='api'\x7d".toList [] ")".toList "m".toList ⟨"$m".toList, "m".toList⟩ (by decide +kernel)
      (GivesWay.run hlexed rfl (.operand (isOperandAt_of_operandAt (n := 1) (m := 1) (by decide +kernel))
        (.name (.identifier "m" (by decide) (by decide)))) (Swap.same _ _))
    exact ⟨_, e, hsent, rfl, he, hfits, parse_of_sent False _ _ _ e hsent he hfits False.elim⟩
  · have hsent : sent? [selected "f" "\x7bjob='api'\x7d"] "-up$f".toList =
        some (keptAll "-".toList ++ (single "up".toList ⟨"$f".toList, "f".toList⟩
          "\x7bjob='api'\x7d".toList [] ++ keptAll [])) := by decide +kernel
    have hlexed : Lexed "-up\x7bjob='api'\x7d".toList "-".toList.reverse
        "up\x7bjob='api'\x7d".toList "upf".toList []
        [.operator .sub]
        [.identifier "up", .leftBrace, .identifier "job", .equal, .string "api", .rightBrace]
        [.finish] (.identifier "upf") {} {} :=
      lexed_of_steps "-".toList 1 6 rfl (by decide +kernel) (by decide +kernel)
        (by decide +kernel) rfl (by decide) (by decide) (by decide)
        (.word rfl rfl (List.all_eq_true.mp (by decide)))
    obtain ⟨e, he⟩ := exists_of_isOk (x := Promql.parse "-up\x7bjob='api'\x7d".toList)
      (by decide +kernel)
    have hfits := fitsAll_single False [selected "f" "\x7bjob='api'\x7d"] "-".toList "up".toList
      "\x7bjob='api'\x7d".toList [] [] "upf".toList ⟨"$f".toList, "f".toList⟩ (by decide +kernel)
      (GivesWay.run hlexed rfl (.operand (isOperandAt_of_operandAt (n := 1) (m := 1) (by decide +kernel))
        (.name (.identifier "upf" (by decide) (by decide)))) (Swap.same _ _))
    exact ⟨_, e, hsent, rfl, he, hfits, parse_of_sent False _ _ _ e hsent he hfits False.elim⟩
  · have hsent : sent? [selected "g" "job, end"] "sum by ($g) (up)".toList =
        some (keptAll "sum by (".toList ++ (single [] ⟨"$g".toList, "g".toList⟩
          "job, end".toList [] ++ keptAll ") (up)".toList)) := by decide +kernel
    have hlexed : Lexed "sum by (job, end) (up)".toList "sum by (".toList.reverse
        "job, end".toList "g".toList ") (up)".toList
        [.keyword (.aggregation .sum) "sum", .keyword (.grouping true) "by", .leftParen]
        [.identifier "job", .comma, .keyword (.edge false) "end"]
        [.rightParen, .leftParen, .identifier "up", .rightParen, .finish] (.identifier "g")
        ⟨.plain, 1⟩ ⟨.plain, 1⟩ :=
      lexed_of_steps "sum by (".toList 5 4 rfl (by decide +kernel) (by decide +kernel)
        (by decide +kernel) rfl (by decide) (by decide) (by decide)
        (.word rfl rfl (List.all_eq_true.mp (by decide)))
    obtain ⟨e, he⟩ := exists_of_isOk (x := Promql.parse "sum by (job, end) (up)".toList)
      (by decide +kernel)
    have hfits := fitsAll_single True [selected "g" "job, end"] "sum by (".toList []
      "job, end".toList [] ") (up)".toList "g".toList ⟨"$g".toList, "g".toList⟩ (by decide +kernel)
      (GivesWay.run hlexed rfl (.labels (l := "job") ⟨[], .operand, _, [], _, _,
        .grouping .sum true "sum" "by", rfl, rfl, rfl, rfl, .refl⟩ (Or.inr rfl))
        (Swap.renamed trivial rfl (.identifier "g" (by decide) (by decide)) rfl rfl))
    have hlabels : ∀ out ts, expand [selected "g" "job, end"] "sum by ($g) (up)".toList = .ok out →
        tokens out = .ok ts → LabelsApart ts :=
      labelsApart_expand "sum by (g) (up)".toList [.keyword (.aggregation .sum) "sum",
        .keyword (.grouping true) "by", .leftParen, .identifier "g", .rightParen, .leftParen,
        .identifier "up", .rightParen, .finish] (by decide +kernel) (by decide +kernel)
        (by decide +kernel)
    exact ⟨_, e, hsent, rfl, he, hfits, parse_of_sent True _ _ _ e hsent he hfits fun _ => hlabels⟩

/-- Whether the query is refused although what is sent for it, with this value of the variable, is
accepted. -/
def refusedThoughSent (name query value : String) : Bool :=
  (sent? [selected name value] query.toList).any (fun record =>
    (Promql.parse (filled record)).isOk) && !(parse [selected name value] query.toList).isOk

/-- Variables, queries and values that are refused though what is sent is accepted. -/
def unfitValues : List (String × String × String) :=
  -- a part of a token, and what runs into a word
  [("n", "up[[[n]]m]", "5"), ("n", "up atan2[[n]]", "(up)"), ("n", "[[n]]or up", "(up)"),
    -- more tokens than one in brackets, and a matcher or a part of one
    ("n", "(up)[$n]", "5m:1m"), ("n", "up\x7b$n\x7d", "job='api'"), ("n", "up\x7bjob=$n\x7d", "'api'"),
    -- a part of the query that is no operand: an operator, arguments, and less than a call
    ("n", "up $n up", "+"), ("n", "clamp($n)", "up, 1, 2"), ("n", "$n up)", "sum("),
    ("n", "$n(up)", "sum by (job) "), ("n", "$n by (job)", "sum(up)"),
    -- an operand of another type, a scalar where one is due, and numbers outside a domain
    ("n", "rate($n)", "up[5m]"), ("n", "clamp_max(up, $n)", "0x1F"), ("n", "up # [\n and ln($n)", "0"),
    ("n", "ln( # topk(\n $n)", "0x0"),
    -- a length of time and a time behind a sign
    ("n", "up offset +$n", "5m"), ("n", "up @ -$n", "0x1F"),
    -- nothing, behind a number, before braces, as arguments and in a list of labels
    ("n", "up > 5$n", ""), ("n", "$n\x7b__name__='up'\x7d", ""), ("n", "time($n)", ""),
    ("n", "up * on($n) 5", ""),
    -- labels on one side of a match, with the name on the other
    ("n", "up * on($n) group_left(n) up", "job, a"),
    -- the beginning and the end of a comment
    ("n", "$n )", "up #"), ("n", "(up # $n", "\n)"),
    -- no names
    ("inf", "up and $inf", "(up)"), ("é", "up > $é", "0x1F"),
    -- brackets that count for expansion alone
    ("n", "up # [\n and $n", "job"), ("n", "up\x7ba=\x60\\\x60[\\\x60\x60\x7d and $n", "job")]

/-- **What is sent may be accepted and the query refused.**  A value may be part of a token or run into
one; more tokens than one in brackets or braces; a part of the query that is no operand, or an operand of
a type that no name has; a number written in another way where a scalar is due, or one that is accepted
because it is outside a domain; a length of time or a time behind a sign; nothing at all; or it may begin
or end a comment.  A name need not be one for the lexer, and may stand on both sides of a match; and a
bracket in a comment counts for expansion, as does one in a literal that ends elsewhere for the lexer. -/
theorem sent_accepted_query_refused :
    (unfitValues.all fun v => refusedThoughSent v.1 v.2.1 v.2.2) = true ∧
    ¬ ∀ (templates : List Template) (query : List Char) (record : List (Piece × List Char)) (e : Expr),
      sent? templates query = some record → Promql.parse (filled record) = .ok e →
        ∃ e', parse templates query = .ok e' := by
  have hall : (unfitValues.all fun v => refusedThoughSent v.1 v.2.1 v.2.2) = true := by
    decide +kernel
  refine ⟨hall, fun h => ?_⟩
  have hfirst := List.all_eq_true.mp hall ("n", "up[[[n]]m]", "5") List.mem_cons_self
  unfold refusedThoughSent at hfirst
  rw [Bool.and_eq_true, Option.any_eq_true, Bool.not_eq_true'] at hfirst
  obtain ⟨⟨record, hsent, haccepted⟩, hrefused⟩ := hfirst
  obtain ⟨e, he⟩ := exists_of_isOk haccepted
  obtain ⟨e', he'⟩ := h _ _ record e hsent he
  rw [he'] at hrefused
  cases hrefused

/-! ## 3. Queries without selected values -/

/-- **A text that may be tried for a reference**: any text for a variable of the dashboard, and its own
text for one of Grafana's. -/
def MayStand (templates : List Template) (name u : List Char) : Prop :=
  if globalPrefix.isPrefixOf name then substitute templates name .expression = .ok u
  else (findTemplate? templates name).isSome = true

/-- Whether a piece that is a reference names a variable of the dashboard. -/
def Piece.isDeclared (templates : List Template) : Piece → Bool
  | .reference r => !globalPrefix.isPrefixOf r.name && (findTemplate? templates r.name).isSome
  | _ => true

theorem mayStand_filledWith {u v : List Char} {r : Reference}
    (h : (pieces query).all (·.isDeclared templates) = true)
    (hmem : (.reference r, v) ∈ filledWith u query) : MayStand templates r.name v := by
  have hdeclared := List.all_eq_true.mp h _ (eq_of_mem_filledWith hmem).1
  simp only [Piece.isDeclared, Bool.and_eq_true, Bool.not_eq_true'] at hdeclared
  unfold MayStand
  rw [if_neg (by simp [hdeclared.1])]
  exact hdeclared.2

/-- Without selected values expansion writes stand-ins. -/
theorem writes_of_unset (hunset : ∀ t ∈ templates, t.currentValue = none)
    (h : ∀ r u, (.reference r, u) ∈ record → MayStand templates r.name u) :
    Writes templates record := by
  intro r u hw p
  have hstand := h r u hw
  unfold MayStand at hstand
  split at hstand
  · next hglobal =>
    left
    rw [substitute_of_global hglobal p .expression, hstand]
  · next hglobal =>
    obtain ⟨template, hfind⟩ := Option.isSome_iff_exists.mp hstand
    have hsub := substitute_of_template (Bool.eq_false_iff.mpr hglobal) hfind p
    rw [hunset template (List.mem_of_find?_eq_some hfind)] at hsub
    exact Or.inr hsub

/-- **A query without selected values is accepted if some filling of it is.**  The texts of the filling
have to fit, as the values have to that are sent. -/
theorem parse_of_unset (renamed : Prop) (templates : List Template) (query : List Char)
    (record : List (Piece × List Char)) (e : Expr)
    (hunset : ∀ t ∈ templates, t.currentValue = none) (hfilling : Filling query record)
    (hstand : ∀ r u, (.reference r, u) ∈ record → MayStand templates r.name u)
    (hparse : Promql.parse (filled record) = .ok e)
    (hfits : FitsAll renamed templates (filled record) {} record)
    (hlabels : renamed → ∀ out ts, expand templates query = .ok out → tokens out = .ok ts →
      LabelsApart ts) : ∃ e', parse templates query = .ok e' :=
  parse_of_filling hfilling (writes_of_unset hunset hstand) hfits hlabels hparse

/-- A number may be tried where expansion writes the name of the variable. -/
theorem parse_of_unset_limit : ∃ record e,
    (∀ t ∈ [({ name := "limit" } : Template)], t.currentValue = none) ∧
    Filling "up > $limit".toList record ∧
    (∀ r u, (.reference r, u) ∈ record → MayStand [{ name := "limit" }] r.name u) ∧
    filled record = "up > 5".toList ∧ Promql.parse (filled record) = .ok e ∧
    FitsAll False [{ name := "limit" }] (filled record) {} record ∧
    ∃ e', parse [{ name := "limit" }] "up > $limit".toList = .ok e' := by
  have hunset : ∀ t ∈ [({ name := "limit" } : Template)], t.currentValue = none := by
    simp [Template.currentValue]
  have hrecord : filledWith "5".toList "up > $limit".toList =
      keptAll "up > ".toList ++ (single [] ⟨"$limit".toList, "limit".toList⟩ "5".toList [] ++
        keptAll []) := by decide +kernel
  have hfilling := filling_filledWith "5".toList "up > $limit".toList
  have hstand : ∀ r u, (.reference r, u) ∈ filledWith "5".toList "up > $limit".toList →
      MayStand [{ name := "limit" }] r.name u := fun _ _ =>
    mayStand_filledWith (by decide +kernel)
  rw [hrecord] at hfilling hstand
  have hlexed : Lexed "up > 5".toList "up > ".toList.reverse "5".toList "limit".toList []
      [.identifier "up", .operator .gt] [.number "5"] [.finish] (.identifier "limit") {} {} :=
    lexed_of_steps "up > ".toList 4 1 rfl (by decide +kernel) (by decide +kernel)
      (by decide +kernel) rfl (by decide) (by decide) (by decide)
      (.word rfl rfl (List.all_eq_true.mp (by decide)))
  obtain ⟨e, he⟩ := exists_of_isOk (x := Promql.parse "up > 5".toList)
    (by decide +kernel)
  have hfits := fitsAll_single False [{ name := "limit" }] "up > ".toList [] "5".toList []
    [] "limit".toList ⟨"$limit".toList, "limit".toList⟩ (by decide +kernel)
    (GivesWay.run hlexed rfl (.operand (isOperandAt_of_operandAt (n := 3) (m := 1) (by decide +kernel))
      (.name (.identifier "limit" (by decide) (by decide)))) (Swap.same _ _))
  exact ⟨_, e, hunset, hfilling, hstand, rfl, he, hfits,
    parse_of_unset False _ _ _ e hunset hfilling hstand he hfits False.elim⟩

/-- **A text of the shapes that values have**: a number, a duration or a name. -/
def isShaped (u : List Char) : Bool := isNumber u || isDuration u || isIdentifier u

/-- Whether a query with one variable is refused although its filling with this number, duration or name
for every reference is accepted. -/
def refusedThoughFilled (name query value : String) : Bool :=
  (pieces query.toList).all (·.isDeclared [{ name }]) && isShaped value.toList &&
    (Promql.parse (filled (filledWith value.toList query.toList))).isOk &&
      !(parse [{ name }] query.toList).isOk

/-- Variables, queries and texts that are refused though the filling is accepted. -/
def unfitTexts : List (String × String × String) :=
  -- a scalar, and a number that is part of a token or runs into one
  [("n", "clamp_max(up, $n)", "5"), ("n", "up[[[n]]m]", "5"), ("n", "up atan2[[n]]", ".5"),
    -- a length of time and a time behind a sign
    ("n", "up offset +$n", "5m"), ("n", "up @ -$n", "5"),
    -- the name of a function or an aggregation, and a label that is shared
    ("n", "$n(up[5m])", "rate"), ("n", "$n by (job) (up)", "sum"),
    ("n", "up * on($n) group_left(n) up", "job"),
    -- no names
    ("inf", "up and $inf", "job"), ("é", "up and $é", "job"),
    -- brackets that count for expansion alone
    ("n", "up # [\n and $n", "job"), ("n", "up\x7ba=\x60\\\x60[\\\x60\x60\x7d and $n", "job")]

/-- **Some filling may be accepted and the query refused.**  A number may be due where expansion writes
a name, or be part of a token or run into one; a length of time or a time may stand behind a sign; a
name may be that of a function or an aggregation, or stand on both sides of a match; the name of the
variable may be a number, or none for the lexer; and a bracket in a comment counts for expansion, as
does one in a literal that ends elsewhere for the lexer. -/
theorem unset_accepted_query_refused :
    (unfitTexts.all fun v => refusedThoughFilled v.1 v.2.1 v.2.2) = true ∧
    ¬ ∀ (templates : List Template) (query : List Char) (record : List (Piece × List Char)) (e : Expr),
      (∀ t ∈ templates, t.currentValue = none) → Filling query record →
        (∀ r u, (.reference r, u) ∈ record → MayStand templates r.name u ∧
          (globalPrefix.isPrefixOf r.name = false → isShaped u = true)) →
        Promql.parse (filled record) = .ok e → ∃ e', parse templates query = .ok e' := by
  have hall : (unfitTexts.all fun v => refusedThoughFilled v.1 v.2.1 v.2.2) = true := by
    decide +kernel
  refine ⟨hall, fun h => ?_⟩
  have hfirst := List.all_eq_true.mp hall ("n", "clamp_max(up, $n)", "5") List.mem_cons_self
  unfold refusedThoughFilled at hfirst
  simp only [Bool.and_eq_true, Bool.not_eq_true'] at hfirst
  obtain ⟨⟨⟨hdeclared, hshaped⟩, haccepted⟩, hrefused⟩ := hfirst
  obtain ⟨e, he⟩ := exists_of_isOk haccepted
  obtain ⟨e', he'⟩ := h [{ name := "n" }] _ _ e (by simp [Template.currentValue])
    (filling_filledWith _ _)
    (fun r u hmem => ⟨mayStand_filledWith hdeclared hmem, fun _ => by
      rw [(eq_of_mem_filledWith hmem).2]
      exact hshaped⟩) he
  rw [he'] at hrefused
  cases hrefused

end PanelLint.Query
