import PanelLint.Text.Word
/-!
# Variable references

Grafana interpolates a variable written in one of three forms, each with a name of word characters:

* `$name`;
* `[[name]]` or `[[name:format]]`, the format being a word too;
* `${name}`, `${name.field}`, `${name:format}` or `${name.field:format}`, where a field holds neither
  `:` nor `}` and a format no `}`.

`Reference.read?` reads the form that begins at the front of a text, if one does. What a form takes
is never open to choice: each part is a maximal run of characters that the next part cannot begin
with. `Piece.scan` finds the references of a code segment from left to right.
-/

namespace PanelLint.Query

open PanelLint.Text

/-- A reference to a variable: its whole text and the name in it. -/
structure Reference where
  text : List Char
  name : List Char
  deriving DecidableEq, Repr

/-- A run of one or more characters of a class at the front of a text, and the rest. -/
def run? (p : Char → Bool) (cs : List Char) : Option (List Char × List Char) :=
  if (cs.takeWhile p).isEmpty then none else some (cs.takeWhile p, cs.dropWhile p)

/-- An optional part: a mark and a run of one or more characters of a class. Where the mark is not
followed by such a run, nothing is taken. -/
def markedRun (mark : Char) (p : Char → Bool) : List Char → List Char × List Char
  | [] => ([], [])
  | c :: cs =>
    if c = mark then
      match run? p cs with
      | some (r, rest) => (c :: r, rest)
      | none => ([], c :: cs)
    else ([], c :: cs)

/-- What may stand in the field of a reference in braces. -/
def isFieldChar (c : Char) : Bool := c != ':' && c != '\x7d'

/-- What may stand in the format of a reference in braces. -/
def isFormatChar (c : Char) : Bool := c != '\x7d'

namespace Reference

/-- What follows the sign in `$name`. -/
def readPlain? (cs : List Char) : Option (Reference × List Char) :=
  (run? isWord cs).map fun (name, rest) => (⟨'$' :: name, name⟩, rest)

/-- What follows the brackets in `[[name]]`. -/
def readBracketed? (cs : List Char) : Option (Reference × List Char) :=
  match run? isWord cs with
  | none => none
  | some (name, rest) =>
    let (format, rest) := markedRun ':' isWord rest
    match rest with
    | ']' :: ']' :: rest => some (⟨'[' :: '[' :: name ++ format ++ [']', ']'], name⟩, rest)
    | _ => none

/-- What follows the brace in `${name}`. -/
def readBraced? (cs : List Char) : Option (Reference × List Char) :=
  match run? isWord cs with
  | none => none
  | some (name, rest) =>
    let (field, rest) := markedRun '.' isFieldChar rest
    let (format, rest) := markedRun ':' isFormatChar rest
    match rest with
    | '\x7d' :: rest =>
      some (⟨'$' :: '\x7b' :: name ++ field ++ format ++ ['\x7d'], name⟩, rest)
    | _ => none

/-- The reference that a text begins with, and the text after it. -/
def read? : List Char → Option (Reference × List Char)
  | '$' :: '\x7b' :: cs => readBraced? cs
  | '$' :: cs => readPlain? cs
  | '[' :: '[' :: cs => readBracketed? cs
  | _ => none

end Reference

theorem run?_append {p : Char → Bool} {cs r rest : List Char} (h : run? p cs = some (r, rest)) :
    r ++ rest = cs := by
  unfold run? at h
  split at h
  · simp at h
  · simp only [Option.some.injEq, Prod.mk.injEq] at h
    rw [← h.1, ← h.2, List.takeWhile_append_dropWhile]

theorem markedRun_append (mark : Char) (p : Char → Bool) (cs : List Char) :
    (markedRun mark p cs).1 ++ (markedRun mark p cs).2 = cs := by
  unfold markedRun
  split
  · rfl
  · split
    · split
      · next h => simp [run?_append h]
      · rfl
    · rfl

namespace Reference

theorem readBraced?_text {cs rest : List Char} {r : Reference}
    (h : readBraced? cs = some (r, rest)) : r.text ≠ [] ∧ r.text ++ rest = '$' :: '\x7b' :: cs := by
  unfold readBraced? at h
  split at h
  · exact absurd h (by simp)
  · next name after hrun =>
    have h1 := run?_append hrun
    have h2 := markedRun_append '.' isFieldChar after
    rcases hf : markedRun '.' isFieldChar after with ⟨field, after'⟩
    rw [hf] at h h2
    have h3 := markedRun_append ':' isFormatChar after'
    rcases hg : markedRun ':' isFormatChar after' with ⟨format, tail⟩
    rw [hg] at h3
    simp only [hg] at h
    split at h
    · next last =>
      simp only [Option.some.injEq, Prod.mk.injEq] at h
      obtain ⟨rfl, rfl⟩ := h
      refine ⟨by simp, ?_⟩
      rw [← h1, ← h2, ← h3]
      simp
    · exact absurd h (by simp)

theorem readPlain?_text {cs rest : List Char} {r : Reference}
    (h : readPlain? cs = some (r, rest)) : r.text ≠ [] ∧ r.text ++ rest = '$' :: cs := by
  unfold readPlain? at h
  simp only [Option.map_eq_some_iff, Prod.exists, Prod.mk.injEq] at h
  obtain ⟨name, after, hrun, rfl, rfl⟩ := h
  exact ⟨by simp, by rw [List.cons_append, run?_append hrun]⟩

theorem readBracketed?_text {cs rest : List Char} {r : Reference}
    (h : readBracketed? cs = some (r, rest)) : r.text ≠ [] ∧ r.text ++ rest = '[' :: '[' :: cs := by
  unfold readBracketed? at h
  split at h
  · exact absurd h (by simp)
  · next name after hrun =>
    have h1 := run?_append hrun
    have h2 := markedRun_append ':' isWord after
    rcases hf : markedRun ':' isWord after with ⟨format, tail⟩
    rw [hf] at h2
    simp only [hf] at h
    split at h
    · next last =>
      simp only [Option.some.injEq, Prod.mk.injEq] at h
      obtain ⟨rfl, rfl⟩ := h
      refine ⟨by simp, ?_⟩
      rw [← h1, ← h2]
      simp
    · exact absurd h (by simp)

/-- A reference is a front part of the text it is read from, and not empty. -/
theorem read?_text {cs rest : List Char} {r : Reference} (h : read? cs = some (r, rest)) :
    r.text ≠ [] ∧ r.text ++ rest = cs := by
  unfold read? at h
  split at h
  · exact readBraced?_text h
  · exact readPlain?_text h
  · exact readBracketed?_text h
  · exact absurd h (by simp)

theorem read?_rest_length {cs rest : List Char} {r : Reference} (h : read? cs = some (r, rest)) :
    rest.length < cs.length := by
  obtain ⟨hne, happ⟩ := read?_text h
  have hlen := congrArg List.length happ
  have hpos := List.length_pos_iff.mpr hne
  rw [List.length_append] at hlen
  omega

end Reference

end PanelLint.Query
