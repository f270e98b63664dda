/-!
# Code and string literals of a query

A query text falls into string literals, with their quotes, and the code between them. A literal
runs from a quote to the next same quote that is not escaped, or to the end of the text; a backslash
escapes the character after it, except between backticks, where it means nothing.

`Segment.split` cuts a text into segments and `Segment.split_texts` says that nothing is lost.
-/

namespace PanelLint.Query

/-- A stretch of a query. -/
inductive Segment
  /-- Text outside string literals. -/
  | code (text : List Char)
  /-- A string literal with its quotes. -/
  | literal (text : List Char)
  deriving DecidableEq, Repr

/-- The backtick, which opens a literal without escapes. -/
def backtick : Char := '\x60'

/-- Whether a character opens a string literal. -/
def isQuote (c : Char) : Bool := c == '"' || c == '\'' || c == backtick

theorem isQuote_iff {c : Char} : isQuote c = true ↔ c = '"' ∨ c = '\'' ∨ c = '\x60' := by
  simp [isQuote, backtick, or_assoc]

theorem isQuote_eq_false_iff {c : Char} : isQuote c = false ↔ c ≠ '"' ∧ c ≠ '\'' ∧ c ≠ '\x60' := by
  rw [← Bool.not_eq_true, isQuote_iff, not_or, not_or]

/-- The rest of a literal opened by `quote`, with its closing quote, and the text after it. -/
def closeLiteral (quote : Char) : List Char → List Char × List Char
  | [] => ([], [])
  | c :: cs =>
    if c = '\\' ∧ quote ≠ backtick then
      match cs with
      | [] => ([c], [])
      | d :: ds => (c :: d :: (closeLiteral quote ds).1, (closeLiteral quote ds).2)
    else if c = quote then ([c], cs)
    else (c :: (closeLiteral quote cs).1, (closeLiteral quote cs).2)

theorem closeLiteral_append (quote : Char) (cs : List Char) :
    (closeLiteral quote cs).1 ++ (closeLiteral quote cs).2 = cs := by
  fun_induction closeLiteral quote cs <;> simp_all

theorem closeLiteral_rest_length (quote : Char) (cs : List Char) :
    (closeLiteral quote cs).2.length ≤ cs.length := by
  have h := congrArg List.length (closeLiteral_append quote cs)
  rw [List.length_append] at h
  omega

namespace Segment

/-- The characters of a segment. -/
def text : Segment → List Char
  | .code t => t
  | .literal t => t

/-- Cuts a text into its segments. -/
def split : List Char → List Segment
  | [] => []
  | c :: cs =>
    if isQuote c then
      .literal (c :: (closeLiteral c cs).1) :: split (closeLiteral c cs).2
    else
      .code (c :: cs.takeWhile (!isQuote ·)) :: split (cs.dropWhile (!isQuote ·))
termination_by cs => cs.length
decreasing_by
  · have := closeLiteral_rest_length c cs
    simp only [List.length_cons]
    omega
  · have := (List.dropWhile_sublist (p := (!isQuote ·)) (l := cs)).length_le
    simp only [List.length_cons]
    omega

/-- The segments of a text are that text. -/
theorem split_texts (cs : List Char) : (split cs).flatMap text = cs := by
  fun_induction split cs with
  | case1 => rfl
  | case2 c cs _ ih =>
    rw [List.flatMap_cons, ih]
    simp [text, closeLiteral_append]
  | case3 c cs _ ih =>
    rw [List.flatMap_cons, ih]
    simp [text, List.takeWhile_append_dropWhile]

end Segment

end PanelLint.Query
