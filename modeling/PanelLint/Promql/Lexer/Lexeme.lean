import PanelLint.Number.Read
import PanelLint.Promql.Lexer.Error
import PanelLint.Promql.Token
/-!
# Numbers, words and strings in a query

The longer tokens of a query and what separates them. Each reader takes the longest text of its kind
off the front; what it takes and what it leaves make up what was there, so it never leaves a longer
text than it was given.
-/

namespace PanelLint.Promql.Lexer

open PanelLint.Number (isHexDigit)

/-- Whether a character separates tokens. -/
def isSpace (c : Char) : Bool :=
  c == ' ' || c == '\t' || c == '\n' || c == '\x0c' || c == '\r'

/-- Whether a character begins a word. -/
def isWordStart (c : Char) : Bool := c.isAlpha || c == '_'

/-- Whether a character goes on a word. -/
def isWordRest (c : Char) : Bool := c.isAlphanum || c == '_'

/-- What a comment leaves: the end of its line and all after it. -/
def dropComment (cs : List Char) : List Char := cs.dropWhile fun c => c != '\n' && c != '\r'

/-- What may follow a backslash in a string literal, beside the quote itself. -/
def escapes : List Char :=
  ['a', 'b', 'f', 'n', 'r', 't', 'v', '\\', '0', '1', '2', '3', '4', '5', '6', '7', 'x', 'u', 'U']

/-- The rest of a string literal up to its closing quote, and the text after it. Escapes are checked
and kept. -/
def readString (quote : Char) : List Char → Except LexError (List Char × List Char)
  | [] => .error (.openString quote)
  | c :: cs =>
    if c = '\\' then
      match cs with
      | [] => .error .openEscape
      | d :: ds =>
        if d = quote ∨ d ∈ escapes then
          (readString quote ds).map fun (text, rest) => (c :: d :: text, rest)
        else .error (.unknownEscape d)
    else if c = quote then .ok ([], cs)
    else (readString quote cs).map fun (text, rest) => (c :: text, rest)

/-- The mark of a hexadecimal number after the character `c`. -/
def takeMark (c : Char) : List Char → List Char × List Char
  | [] => ([], [])
  | x :: r => if c = '0' ∧ (x = 'x' ∨ x = 'X') then ([x], r) else ([], x :: r)

/-- A point and the digits after it. -/
def takePlaces (digit : Char → Bool) : List Char → List Char × List Char
  | [] => ([], [])
  | c :: r => if c = '.' then (c :: r.takeWhile digit, r.dropWhile digit) else ([], c :: r)

/-- A sign. -/
def takeSign : List Char → List Char × List Char
  | [] => ([], [])
  | c :: r => if c = '+' ∨ c = '-' then ([c], r) else ([], c :: r)

/-- The mark of an exponent with a sign and digits. -/
def takeExponent : List Char → List Char × List Char
  | [] => ([], [])
  | c :: r =>
    if c = 'e' ∨ c = 'E' then
      (c :: (takeSign r).1 ++ (takeSign r).2.takeWhile Char.isDigit,
        (takeSign r).2.dropWhile Char.isDigit)
    else ([], c :: r)

/-- What goes on a number after its digits before the point. -/
def takeFraction (digit : Char → Bool) (cs : List Char) : List Char × List Char :=
  ((takePlaces digit cs).1 ++ (takeExponent (takePlaces digit cs).2).1,
    (takeExponent (takePlaces digit cs).2).2)

/-- The number that begins with the digit or point `c`: a decimal or hexadecimal integer, a point
with more digits, and an exponent, each as far as it is there. -/
def takeNumber (c : Char) (cs : List Char) : List Char × List Char :=
  if c = '.' then takeFraction Char.isDigit (c :: cs)
  else
    let (mark, rest) := takeMark c cs
    let digit := if mark.isEmpty then Char.isDigit else isHexDigit
    let (fraction, after) := takeFraction digit (rest.dropWhile digit)
    (c :: mark ++ rest.takeWhile digit ++ fraction, after)

/-- Whether a number may end before a text. -/
def endsNumber : List Char → Bool
  | [] => true
  | c :: _ => !(isWordStart c || c == '.')

/-- Where a reader stands in the units and counts of a duration. -/
inductive DurationState
  /-- After the letter of a unit, which an `s` may follow. -/
  | letter
  /-- After the `s` that follows the letter of a unit. -/
  | unit
  /-- In a count. -/
  | digits
  deriving DecidableEq, Repr

/-- The state after one more character of a duration, if it goes on. -/
def DurationState.next? (state : DurationState) (c : Char) : Option DurationState :=
  if c.isDigit then some .digits
  else match state with
    | .letter => if c = 's' then some .unit else none
    | .unit => none
    | .digits => if c ∈ ['s', 'm', 'h', 'd', 'w'] then some .letter else none

/-- Goes on with a duration as far as possible: what was taken, what is left, and whether a duration
may end there. -/
def takeUnits (state : DurationState) : List Char → List Char × List Char × Bool
  | [] => ([], [], state != .digits)
  | c :: cs =>
    match state.next? c with
    | some state =>
      (c :: (takeUnits state cs).1, (takeUnits state cs).2.1, (takeUnits state cs).2.2)
    | none => ([], c :: cs, state != .digits && !isWordRest c)

/-- The units of a duration after its first count. -/
def takeDuration : List Char → List Char × List Char × Bool
  | [] => ([], [], false)
  | c :: cs =>
    if c ∈ ['s', 'm', 'h', 'd', 'w', 'y'] then
      (c :: (takeUnits .letter cs).1, (takeUnits .letter cs).2.1, (takeUnits .letter cs).2.2)
    else ([], c :: cs, false)

/-- The number or duration that begins with the digit or point `c`. -/
def readNumber (c : Char) (cs : List Char) : Except LexError (Token × List Char) :=
  let (number, rest) := takeNumber c cs
  if endsNumber rest then .ok (.number (String.ofList number), rest)
  else
    let (units, rest, complete) := takeDuration rest
    if complete then .ok (.duration (String.ofList (number ++ units)), rest)
    else .error (.badNumber (String.ofList (number ++ units ++ rest.take 1)))

/-- The token of a word outside braces and brackets. -/
def wordToken (word : List Char) : Token :=
  let lower := String.ofList (word.map Char.toLower)
  if lower = "inf" ∨ lower = "nan" then .number (String.ofList word)
  else match Keyword.ofWord? lower with
    | some k => .keyword k (String.ofList word)
    | none =>
      if word.contains ':' then .metric (String.ofList word)
      else .identifier (String.ofList word)

/-! ## Nothing is lost -/

theorem dropComment_length (cs : List Char) : (dropComment cs).length ≤ cs.length :=
  (List.dropWhile_sublist _).length_le

theorem dropWhile_length_le (p : Char → Bool) (cs : List Char) :
    (cs.dropWhile p).length ≤ cs.length := (List.dropWhile_sublist p).length_le

theorem readString_length {quote : Char} {cs text rest : List Char}
    (h : readString quote cs = .ok (text, rest)) : rest.length < cs.length := by
  fun_induction readString quote cs generalizing text with
  | case1 => exact absurd h (by simp)
  | case2 => exact absurd h (by simp)
  | case3 d ds _ ih =>
    rcases hr : readString quote ds with e | ⟨text', rest'⟩
    · rw [hr] at h
      exact absurd h (by simp [Except.map])
    · rw [hr] at h
      simp only [Except.map, Except.ok.injEq, Prod.mk.injEq] at h
      have := ih (by rw [hr, h.2])
      simp only [List.length_cons]
      omega
  | case4 => exact absurd h (by simp)
  | case5 =>
    simp only [Except.ok.injEq, Prod.mk.injEq] at h
    rw [← h.2]
    simp
  | case6 c cs _ _ ih =>
    rcases hr : readString quote cs with e | ⟨text', rest'⟩
    · rw [hr] at h
      exact absurd h (by simp [Except.map])
    · rw [hr] at h
      simp only [Except.map, Except.ok.injEq, Prod.mk.injEq] at h
      have := ih (by rw [hr, h.2])
      simp only [List.length_cons]
      omega

theorem takeMark_append (c : Char) (cs : List Char) :
    (takeMark c cs).1 ++ (takeMark c cs).2 = cs := by
  fun_cases takeMark c cs <;> simp_all

theorem takePlaces_append (digit : Char → Bool) (cs : List Char) :
    (takePlaces digit cs).1 ++ (takePlaces digit cs).2 = cs := by
  fun_cases takePlaces digit cs <;> simp_all [List.takeWhile_append_dropWhile]

theorem takeSign_append (cs : List Char) : (takeSign cs).1 ++ (takeSign cs).2 = cs := by
  fun_cases takeSign cs <;> simp_all

theorem takeExponent_append (cs : List Char) :
    (takeExponent cs).1 ++ (takeExponent cs).2 = cs := by
  unfold takeExponent
  split
  · rfl
  · next c r =>
    split
    · show c :: ((takeSign r).1 ++ _) ++ _ = c :: r
      rw [List.cons_append, List.append_assoc, List.takeWhile_append_dropWhile, takeSign_append]
    · rfl

theorem takeFraction_append (digit : Char → Bool) (cs : List Char) :
    (takeFraction digit cs).1 ++ (takeFraction digit cs).2 = cs := by
  rw [takeFraction, List.append_assoc, takeExponent_append, takePlaces_append]

/-- A number is a front part of the text it is read from. -/
theorem takeNumber_append (c : Char) (cs : List Char) :
    (takeNumber c cs).1 ++ (takeNumber c cs).2 = c :: cs := by
  unfold takeNumber
  split
  · exact takeFraction_append _ _
  · have h := takeMark_append c cs
    rcases hm : takeMark c cs with ⟨mark, rest⟩
    rw [hm] at h
    simp only
    rw [List.append_assoc, takeFraction_append, List.append_assoc, List.takeWhile_append_dropWhile,
      List.cons_append, h]

theorem takeNumber_length (c : Char) (cs : List Char) :
    (takeNumber c cs).2.length ≤ cs.length := by
  unfold takeNumber
  split
  · have h := takeExponent_append (takePlaces Char.isDigit (c :: cs)).2
    have hlen := congrArg List.length h
    rw [List.length_append] at hlen
    have hp : (takePlaces Char.isDigit (c :: cs)).2.length ≤ cs.length := by
      rw [takePlaces]
      split
      · exact dropWhile_length_le _ _
      · contradiction
    simp only [takeFraction]
    omega
  · have h := congrArg List.length (takeMark_append c cs)
    rcases hm : takeMark c cs with ⟨mark, rest⟩
    rw [hm, List.length_append] at h
    simp only
    have hf := congrArg List.length
      (takeFraction_append (if mark.isEmpty then Char.isDigit else isHexDigit)
        (rest.dropWhile (if mark.isEmpty then Char.isDigit else isHexDigit)))
    rw [List.length_append] at hf
    have hd := dropWhile_length_le (if mark.isEmpty then Char.isDigit else isHexDigit) rest
    simp only at h
    omega

theorem takeUnits_append (state : DurationState) (cs : List Char) :
    (takeUnits state cs).1 ++ (takeUnits state cs).2.1 = cs := by
  induction cs generalizing state with
  | nil => rfl
  | cons c cs ih =>
    rw [takeUnits]
    split
    · rw [List.cons_append, ih]
    · rfl

theorem takeDuration_append (cs : List Char) :
    (takeDuration cs).1 ++ (takeDuration cs).2.1 = cs := by
  unfold takeDuration
  split
  · rfl
  · split
    · rw [List.cons_append, takeUnits_append]
    · rfl

theorem readNumber_length {c : Char} {cs rest : List Char} {t : Token}
    (h : readNumber c cs = .ok (t, rest)) : rest.length ≤ cs.length := by
  have hn := takeNumber_length c cs
  unfold readNumber at h
  rcases hm : takeNumber c cs with ⟨number, after⟩
  rw [hm] at h hn
  simp only at h hn
  split at h
  · simp only [Except.ok.injEq, Prod.mk.injEq] at h
    rw [← h.2]
    exact hn
  · have hd := congrArg List.length (takeDuration_append after)
    rcases hu : takeDuration after with ⟨units, after', complete⟩
    rw [hu, List.length_append] at hd
    rw [hu] at h
    simp only at h hd
    split at h
    · simp only [Except.ok.injEq, Prod.mk.injEq] at h
      rw [← h.2]
      omega
    · exact absurd h (by simp)

end PanelLint.Promql.Lexer
