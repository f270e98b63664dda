import PanelLint.Text.CodePoints
/-!
# White space

`isBlank` is the Unicode property `White_Space`. A text is blank when it holds nothing else, and
`dropBlanks` takes such characters off the front.
-/

namespace PanelLint.Text

/-- The code points of `White_Space`. -/
def blanks : CodePoints :=
  [(0x9, 0xD), (0x20, 0x20), (0x85, 0x85), (0xA0, 0xA0), (0x1680, 0x1680), (0x2000, 0x200A),
    (0x2028, 0x2029), (0x202F, 0x202F), (0x205F, 0x205F), (0x3000, 0x3000)]

/-- Whether a character is white space. -/
def isBlank (c : Char) : Bool := blanks.has c

/-- What is left of a text after the white space at its front. -/
def dropBlanks (cs : List Char) : List Char := cs.dropWhile isBlank

/-- Whether a text holds nothing but white space. -/
def allBlank (cs : List Char) : Bool := cs.all isBlank

theorem isBlank_of_isWhitespace {c : Char} (h : c.isWhitespace = true) : isBlank c = true := by
  simp only [Char.isWhitespace, Bool.or_eq_true, decide_eq_true_eq] at h
  rcases h with ((rfl | rfl) | rfl) | rfl <;> decide

end PanelLint.Text
