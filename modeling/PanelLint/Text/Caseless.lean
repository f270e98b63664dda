/-!
# Words compared without regard to case

Two characters agree without regard to case when their simple case foldings are equal. Every word
that is looked for here is written in lower-case ASCII letters, and beside the ASCII capitals only
two characters fold to such letters: the long s and the Kelvin sign. `fold` is the folding as far as
it matters for such words.
-/

namespace PanelLint.Text

/-- The simple case folding, on the characters that fold to an ASCII letter. -/
def fold (c : Char) : Char :=
  if c = 'ſ' then 's' else if c = '\u212a' then 'k' else c.toLower

/-- What is left of `cs` after the word `word`, if `cs` begins with it in some case. -/
def dropWord? : (word cs : List Char) → Option (List Char)
  | [], cs => some cs
  | _ :: _, [] => none
  | w :: word, c :: cs => if fold c = w then dropWord? word cs else none

end PanelLint.Text
