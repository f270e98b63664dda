import PanelLint.Query.Reference
import PanelLint.Query.Segment
/-!
# The pieces of a query

For expansion a query falls into pieces: single characters of code that stay, variable references in
the code, and whole string literals. References are found in each code segment by itself, from left
to right; after one, the search goes on behind it. `pieces_texts` says that the pieces of a query
are that query.
-/

namespace PanelLint.Query

/-- A part of a query that expansion treats as a whole. -/
inductive Piece
  /-- A character of code outside every reference. -/
  | kept (c : Char)
  /-- A variable reference in the code. -/
  | reference (r : Reference)
  /-- A string literal. -/
  | literal (text : List Char)
  deriving DecidableEq, Repr

namespace Piece

/-- The characters of a piece. -/
def text : Piece → List Char
  | .kept c => [c]
  | .reference r => r.text
  | .literal t => t

/-- The pieces of a text of code. -/
def scan : List Char → List Piece
  | [] => []
  | c :: cs =>
    match h : Reference.read? (c :: cs) with
    | some (r, rest) =>
      have : rest.length < (c :: cs).length := Reference.read?_rest_length h
      .reference r :: scan rest
    | none => .kept c :: scan cs
termination_by cs => cs.length
decreasing_by
  · exact this
  · exact Nat.lt_succ_self cs.length

theorem scan_nil : scan [] = [] := by rw [scan]

theorem scan_of_some {cs rest : List Char} {r : Reference}
    (h : Reference.read? cs = some (r, rest)) : scan cs = .reference r :: scan rest := by
  cases cs with
  | nil => exact absurd h (by simp [Reference.read?])
  | cons c cs =>
    rw [scan]
    split
    · next r' rest' h' =>
      rw [h] at h'
      simp only [Option.some.injEq, Prod.mk.injEq] at h'
      rw [h'.1, h'.2]
    · next h' =>
      rw [h] at h'
      exact absurd h' (by simp)

theorem scan_of_none {c : Char} {cs : List Char} (h : Reference.read? (c :: cs) = none) :
    scan (c :: cs) = .kept c :: scan cs := by
  rw [scan]
  split
  · next h' =>
    rw [h] at h'
    exact absurd h' (by simp)
  · rfl

/-- The pieces of code are that code. -/
theorem scan_texts (cs : List Char) : (scan cs).flatMap text = cs := by
  fun_induction scan cs with
  | case1 => rfl
  | case2 c cs r rest h _ ih =>
    rw [List.flatMap_cons, ih]
    exact (Reference.read?_text h).2
  | case3 c cs h ih =>
    rw [List.flatMap_cons, ih]
    rfl

/-- The pieces of a segment. -/
def ofSegment : Segment → List Piece
  | .code t => scan t
  | .literal t => [.literal t]

theorem ofSegment_texts (s : Segment) : (ofSegment s).flatMap text = s.text := by
  cases s with
  | code t => exact scan_texts t
  | literal t => simp [ofSegment, text, Segment.text]

end Piece

/-- The pieces of a query. -/
def pieces (query : List Char) : List Piece := (Segment.split query).flatMap Piece.ofSegment

/-- The pieces of a query are that query. -/
theorem pieces_texts (query : List Char) : (pieces query).flatMap Piece.text = query := by
  have h : ∀ ss : List Segment,
      (ss.flatMap Piece.ofSegment).flatMap Piece.text = ss.flatMap Segment.text := by
    intro ss
    induction ss with
    | nil => rfl
    | cons s ss ih =>
      rw [List.flatMap_cons, List.flatMap_append, ih, Piece.ofSegment_texts, List.flatMap_cons]
  rw [pieces, h, Segment.split_texts]

end PanelLint.Query
