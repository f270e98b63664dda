import PanelLint.Proofs.Query.Idle
import PanelLint.Proofs.Query.Seams
/-!
# Sums of queries

What is written for a reference depends on everything before it.  Two queries in parentheses with an
operator between them are expanded as each is by itself all the same: a parenthesis that opens behind
an operator is idle, so that nothing the first operand ends with is taken up in the second.

* `foldlM_concat_paren`: a parenthesis behind a query is copied, be it into a literal;
* `expand_sum`: the expansion of a sum is the sum of the expansions.
-/

namespace PanelLint.Query

open PanelLint.Text

variable {templates : List Template} {a b : List Char} {ps : List Piece} {p : Progress}

/-! ## 1. A parenthesis behind a query -/

theorem fresh_paren (rest : List Char) : Fresh (')' :: rest) :=
  ⟨fun c hc => by cases hc; decide, fun rest heq => absurd (List.cons.inj heq).1 (by decide)⟩

/-- **A parenthesis behind a query is copied**, as code or as part of a literal that is open. -/
theorem foldlM_concat_paren (p : Progress) :
    (pieces (b ++ [')'])).foldlM (Progress.write templates) p =
      ((pieces b).foldlM (Progress.write templates) p).map fun q => ⟨')' :: q.before, q.depth⟩ := by
  by_cases hclosed : LeavesNoneOpen b
  · have hparen := pieces_kept (w := [')']) (by decide) []
    rw [pieces_nil, List.append_nil] at hparen
    rw [pieces_append hclosed (fresh_paren []) (Or.inr (by decide)), hparen, List.foldlM_append]
    cases (pieces b).foldlM (Progress.write templates) p with
    | error e => rfl
    | ok q => rfl
  · obtain ⟨ps, l, hps, hps'⟩ := pieces_concat_of_open hclosed (c := ')') (by decide)
    rw [hps, hps', List.foldlM_append, List.foldlM_append]
    cases ps.foldlM (Progress.write templates) p with
    | error e => rfl
    | ok q =>
      show Except.ok _ = Except.ok _
      simp

/-! ## 2. Operands -/

/-- The brackets left open by a run are those of the code that it has kept. -/
theorem depth_of_run (h : ps.foldlM (Progress.write templates) {} = .ok p) :
    p.depth = openBrackets 0 (keptCode ps) := by
  obtain ⟨record, rfl, rfl, -⟩ := foldlM_write_eq_ok_iff.mp h
  rfl

/-- **Behind an idle parenthesis an operand is expanded as by itself.** -/
theorem foldlM_operand {before : List Char} (hparen : before.head? = some '(')
    (h : isIdle before = true) : ps.foldlM (Progress.write templates) ⟨before, 0⟩ =
      (ps.foldlM (Progress.write templates) {}).map fun q => ⟨q.before ++ before, q.depth⟩ := by
  obtain ⟨line, rfl⟩ := List.head?_eq_some_iff.mp hparen
  exact foldlM_behind (by decide) h {}

/-- What stands before the second operand, whatever the first one is. -/
theorem isIdle_second (before : List Char) :
    (") + (".toList.reverse ++ before).head? = some '(' ∧
      isIdle (") + (".toList.reverse ++ before) = true := ⟨rfl, rfl⟩

/-- The pieces of a sum are those of its operands, with what stands around them. -/
theorem pieces_sum (hclosed : LeavesNoneOpen a) (hbrace : NoLooseBrace (pieces a)) :
    pieces ("(".toList ++ a ++ ") + (".toList ++ b ++ ")".toList) =
      "(".toList.map .kept ++ (pieces a ++ (") + (".toList.map .kept ++ pieces (b ++ [')']))) := by
  have hseam : pieces (a ++ (") + (".toList ++ (b ++ [')']))) =
      pieces a ++ pieces (") + (".toList ++ (b ++ [')'])) :=
    pieces_append hclosed (fresh_paren _) (Or.inl hbrace)
  rw [← pieces_kept (by decide), ← hseam, ← pieces_kept (by decide)]
  simp only [List.append_assoc]
  rfl

/-- **The expansion of a sum is the sum of the expansions.**  If the first operand leaves no literal,
no bracket and no brace open, its references become what they become by themselves, and so do those of
the second.  An error of the first operand comes before one of the second. -/
theorem expand_sum (templates : List Template) (a b : List Char) (hclosed : LeavesNoneOpen a)
    (hdepth : openBrackets 0 (keptCode (pieces a)) = 0) (hbrace : NoLooseBrace (pieces a)) :
    expand templates ("(".toList ++ a ++ ") + (".toList ++ b ++ ")".toList) = do
      let left ← expand templates a
      let right ← expand templates b
      return "(".toList ++ left ++ ") + (".toList ++ right ++ ")".toList := by
  have hopen : ("(".toList.map Piece.kept).foldlM (Progress.write templates) {} =
      .ok ⟨['('], 0⟩ := foldlM_kept {}
  rw [expand, expand, expand, pieces_sum hclosed hbrace, List.foldlM_append, hopen]
  show Except.map _ ((pieces a ++ _).foldlM _ _) = _
  rw [List.foldlM_append, foldlM_operand rfl (by decide)]
  cases hleft : (pieces a).foldlM (Progress.write templates) {} with
  | error e => rfl
  | ok p =>
    have hzero : p.depth = 0 := (depth_of_run hleft).trans hdepth
    show Except.map _ ((") + (".toList.map Piece.kept ++ pieces (b ++ [')'])).foldlM
      (Progress.write templates) ⟨p.before ++ ['('], p.depth⟩) = _
    rw [hzero, List.foldlM_append, foldlM_kept]
    show Except.map _ ((pieces (b ++ [')'])).foldlM (Progress.write templates)
      ⟨") + (".toList.reverse ++ (p.before ++ ['(']), 0⟩) = _
    obtain ⟨hparen, hidle⟩ := isIdle_second (p.before ++ ['('])
    rw [foldlM_concat_paren, foldlM_operand hparen hidle]
    cases (pieces b).foldlM (Progress.write templates) {} with
    | error e => rfl
    | ok q =>
      show Except.ok _ = Except.ok _
      simp

/-- A first operand that ends like a function that takes a scalar, and a second one with an open
literal. -/
theorem expand_sum_topk :
    (LeavesNoneOpen "$v + topk".toList ∧ openBrackets 0 (keptCode (pieces "$v + topk".toList)) = 0 ∧
      NoLooseBrace (pieces "$v + topk".toList)) ∧
    expand [{ name := "v" }] "$v + topk".toList = .ok "v + topk".toList ∧
    expand [{ name := "v" }] "$v + \"$v".toList = .ok "v + \"$v".toList ∧
    expand [{ name := "v" }]
        ("(".toList ++ "$v + topk".toList ++ ") + (".toList ++ "$v + \"$v".toList ++ ")".toList) =
      .ok "(v + topk) + (v + \"$v)".toList := by
  have hclosed : LeavesNoneOpen "$v + topk".toList := by decide +kernel
  have hdepth : openBrackets 0 (keptCode (pieces "$v + topk".toList)) = 0 := by decide +kernel
  have hbrace : NoLooseBrace (pieces "$v + topk".toList) := by
    unfold NoLooseBrace
    decide +kernel
  have hleft : expand [{ name := "v" }] "$v + topk".toList = .ok "v + topk".toList := by
    decide +kernel
  have hright : expand [{ name := "v" }] "$v + \"$v".toList = .ok "v + \"$v".toList := by
    decide +kernel
  refine ⟨⟨hclosed, hdepth, hbrace⟩, hleft, hright, ?_⟩
  rw [expand_sum _ _ _ hclosed hdepth hbrace, hleft, hright]
  rfl

end PanelLint.Query
