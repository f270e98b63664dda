import PanelLint.Promql.Lexer.Lexeme
/-!
# The tokens of a query

The lexer reads a query from left to right and always knows whether it stands inside braces, inside
square brackets or outside both, for the same characters mean different things there. It takes one
token, one blank or one comment at a time: `Lexer.step` says what the text begins with and leaves a
shorter text (`Lexer.step_length`), until `Lexer.finish` closes the query.

Letters, digits and blanks are those of ASCII; any other character outside string literals and
comments is refused.
-/

namespace PanelLint.Promql

open PanelLint.Text
open PanelLint.Number (isHexDigit)

namespace Lexer

/-! ## Steps -/

/-- What the lexer stands inside of. -/
inductive Mode
  /-- Outside braces and brackets. -/
  | plain
  | braces
  /-- In square brackets: whether a colon was seen, and whether the bracket was the last
  character. -/
  | brackets (colon fresh : Bool)
  deriving DecidableEq, Repr

/-- The state between tokens. -/
structure State where
  mode : Mode := .plain
  /-- The number of open parentheses. -/
  depth : Nat := 0
  deriving DecidableEq, Repr

/-- What one step gives: at most one token, the next state and the rest of the text. -/
abbrev Step := Option Token × State × List Char

/-- A quoted text after its opening quote. -/
def stepString (s : State) (quote : Char) (cs : List Char) : Except LexError Step :=
  (readString quote cs).map fun (text, rest) => (some (.string (String.ofList text)), s, rest)

/-- A step that gives a token and keeps the state. -/
def emit (s : State) (t : Token) (rest : List Char) : Except LexError Step := .ok (some t, s, rest)

/-- The tokens of one character that mean the same whatever follows. -/
def symbols : List (Char × Token) :=
  [('@', .atSign),
    (',', .comma),
    ('*', .operator .mul),
    ('/', .operator .div),
    ('%', .operator .mod),
    ('+', .operator .add),
    ('-', .operator .sub),
    ('^', .operator .pow)]

/-- A step on `=`, which a second `=` may follow. -/
def stepEqual (s : State) : List Char → Except LexError Step
  | '=' :: rest => emit s (.operator .eq) rest
  | '~' :: _ => .error (.afterEqual '~')
  | rest => emit s .equal rest

/-- A step on `!`, which `=` has to follow. -/
def stepBang (s : State) : List Char → Except LexError Step
  | '=' :: rest => emit s (.operator .ne) rest
  | d :: _ => .error (.afterBang d)
  | [] => .error .bangAtEnd

/-- A step on `<` or `>`, which `=` may follow. -/
def stepOrder (s : State) (alone withEqual : Operator) : List Char → Except LexError Step
  | '=' :: rest => emit s (.operator withEqual) rest
  | rest => emit s (.operator alone) rest

/-- A step on a number. -/
def stepNumber (s : State) (c : Char) (cs : List Char) : Except LexError Step :=
  (readNumber c cs).map fun (t, rest) => (some t, s, rest)

/-- A step on a point, which a digit has to follow. -/
def stepPoint (s : State) (cs : List Char) : Except LexError Step :=
  match cs with
  | [] => .error (.unexpected '.')
  | d :: _ => if d.isDigit then stepNumber s '.' cs else .error (.afterPoint d)

/-- A step on a parenthesis. -/
def stepParen (s : State) (opening : Bool) (cs : List Char) : Except LexError Step :=
  if opening then .ok (some .leftParen, { s with depth := s.depth + 1 }, cs)
  else if s.depth = 0 then .error .strayRightParen
  else .ok (some .rightParen, { s with depth := s.depth - 1 }, cs)

/-- Whether a character goes on a word outside braces, where a colon may be part of it. -/
def isNameRest (c : Char) : Bool := isWordRest c || c == ':'

/-- A step outside braces and brackets on what opens or closes something, or on what no token
begins with. -/
def stepBracket (s : State) (c : Char) (cs : List Char) : Except LexError Step :=
  if c = '(' then stepParen s true cs
  else if c = ')' then stepParen s false cs
  else if c = '\x7b' then .ok (some .leftBrace, { s with mode := .braces }, cs)
  else if c = '\x7d' then .error .strayRightBrace
  else if c = '[' then .ok (some .leftBracket, { s with mode := .brackets false true }, cs)
  else if c = ']' then .error .strayRightBracket
  else .error (.unexpected c)

/-- A step outside braces and brackets on a number, a string literal, a word or a bracket. -/
def stepLexeme (s : State) (c : Char) (cs : List Char) : Except LexError Step :=
  if c.isDigit then stepNumber s c cs
  else if c = '.' then stepPoint s cs
  else if c = '"' ∨ c = '\'' ∨ c = '\x60' then stepString s c cs
  else if isNameRest c then
    emit s (wordToken (c :: cs.takeWhile isNameRest)) (cs.dropWhile isNameRest)
  else stepBracket s c cs

/-- A step outside braces and brackets on a character that is no symbol. -/
def stepOther (s : State) (c : Char) (cs : List Char) : Except LexError Step :=
  if isSpace c then .ok (none, s, cs)
  else if c = '#' then .ok (none, s, dropComment cs)
  else if c = '=' then stepEqual s cs
  else if c = '!' then stepBang s cs
  else if c = '<' then stepOrder s .lt .le cs
  else if c = '>' then stepOrder s .gt .ge cs
  else stepLexeme s c cs

/-- A step outside braces and brackets, on a text `c :: cs`. -/
def stepPlain (s : State) (c : Char) (cs : List Char) : Except LexError Step :=
  match symbols.lookup c with
  | some t => emit s t cs
  | none => stepOther s c cs

/-- Whether `or` stands at the front of a text, before a space. -/
def beginsOr (c : Char) : List Char → Bool
  | d :: ' ' :: _ => (c == 'o' || c == 'O') && (d == 'r' || d == 'R')
  | _ => false

/-- A step on `=` inside braces, which `~` may follow. -/
def stepEqualInBraces (s : State) : List Char → Except LexError Step
  | '~' :: rest => emit s .regex rest
  | rest => emit s .equal rest

/-- A step on `!` inside braces, which `=` or `~` has to follow. -/
def stepBangInBraces (s : State) : List Char → Except LexError Step
  | '=' :: rest => emit s (.operator .ne) rest
  | '~' :: rest => emit s .notRegex rest
  | d :: _ => .error (.afterBangInBraces d)
  | [] => .error .bangAtEnd

/-- A step inside braces, on a text `c :: cs`. -/
def stepBraces (s : State) (c : Char) (cs : List Char) : Except LexError Step :=
  if isSpace c then .ok (none, s, cs)
  else if c = '#' then .ok (none, s, dropComment cs)
  else if c = ',' then emit s .comma cs
  else if c = '"' ∨ c = '\'' ∨ c = '\x60' then stepString s c cs
  else if c = '=' then stepEqualInBraces s cs
  else if c = '!' then stepBangInBraces s cs
  else if c = '\x7b' then .error .leftBraceInBraces
  else if c = '\x7d' then .ok (some .rightBrace, { s with mode := .plain }, cs)
  else if isWordStart c then
    if beginsOr c cs then
      emit s (.keyword (.operator .or) (String.ofList (c :: cs.take 1))) (cs.drop 1)
    else
      emit s (.identifier (String.ofList (c :: cs.takeWhile isWordRest))) (cs.dropWhile isWordRest)
  else .error (.inBraces c)

/-- A step inside square brackets, on a text `c :: cs`. -/
def stepBrackets (s : State) (colon fresh : Bool) (c : Char) (cs : List Char) :
    Except LexError Step :=
  let after : State := { s with mode := .brackets colon false }
  if isSpace c then .ok (none, after, cs)
  else if c = ':' then
    if colon then .error .secondColon
    else if fresh then .error .earlyColon
    else .ok (some .colon, { s with mode := .brackets true false }, cs)
  else if c.isDigit then stepNumber after c cs
  else if c = ']' then .ok (some .rightBracket, { s with mode := .plain }, cs)
  else if c = '[' then .error .leftBracketInBrackets
  else .error (.inBrackets c)

/-- One step on a text `c :: cs`. -/
def step (s : State) (c : Char) (cs : List Char) : Except LexError Step :=
  match s.mode with
  | .plain => stepPlain s c cs
  | .braces => stepBraces s c cs
  | .brackets colon fresh => stepBrackets s colon fresh c cs

/-- What the end of the text means in a state. -/
def finish (s : State) : Except LexError (List Token) :=
  match s.mode with
  | .plain => if s.depth = 0 then .ok [.finish] else .error .unclosedParen
  | .braces => .error .openBraces
  | .brackets _ _ => .error .openBrackets

/-! ## A step takes something -/

theorem emit_length {s s' : State} {t : Token} {t' : Option Token} {cs rest : List Char}
    (h : emit s t cs = .ok (t', s', rest)) : rest.length ≤ cs.length := by
  simp only [emit, Except.ok.injEq, Prod.mk.injEq] at h
  exact Nat.le_of_eq (congrArg List.length h.2.2.symm)

theorem ok_length {s s' : State} {t t' : Option Token} {cs rest : List Char}
    (h : (.ok (t, s, cs) : Except LexError Step) = .ok (t', s', rest)) :
    rest.length ≤ cs.length := by
  simp only [Except.ok.injEq, Prod.mk.injEq] at h
  exact Nat.le_of_eq (congrArg List.length h.2.2.symm)

theorem stepNumber_length {s s' : State} {c : Char} {cs rest : List Char} {t : Option Token}
    (h : stepNumber s c cs = .ok (t, s', rest)) : rest.length ≤ cs.length := by
  unfold stepNumber at h
  rcases hr : readNumber c cs with e | ⟨t', r⟩
  · rw [hr] at h
    exact absurd h (by simp [Except.map])
  · rw [hr] at h
    have := readNumber_length hr
    have := ok_length h
    omega

theorem stepString_length {s s' : State} {quote : Char} {cs rest : List Char} {t : Option Token}
    (h : stepString s quote cs = .ok (t, s', rest)) : rest.length ≤ cs.length := by
  unfold stepString at h
  rcases hr : readString quote cs with e | ⟨text, r⟩
  · rw [hr] at h
    exact absurd h (by simp [Except.map])
  · rw [hr] at h
    have := readString_length hr
    have := ok_length h
    omega

theorem stepEqual_length {s s' : State} {cs rest : List Char} {t : Option Token}
    (h : stepEqual s cs = .ok (t, s', rest)) : rest.length ≤ cs.length := by
  unfold stepEqual at h
  split at h
  · exact Nat.le_succ_of_le (emit_length h)
  · exact absurd h (by simp)
  · exact emit_length h

theorem stepBang_length {s s' : State} {cs rest : List Char} {t : Option Token}
    (h : stepBang s cs = .ok (t, s', rest)) : rest.length ≤ cs.length := by
  unfold stepBang at h
  split at h
  · exact Nat.le_succ_of_le (emit_length h)
  · exact absurd h (by simp)
  · exact absurd h (by simp)

theorem stepOrder_length {s s' : State} {alone withEqual : Operator} {cs rest : List Char}
    {t : Option Token} (h : stepOrder s alone withEqual cs = .ok (t, s', rest)) :
    rest.length ≤ cs.length := by
  unfold stepOrder at h
  split at h
  · exact Nat.le_succ_of_le (emit_length h)
  · exact emit_length h

theorem stepPoint_length {s s' : State} {cs rest : List Char} {t : Option Token}
    (h : stepPoint s cs = .ok (t, s', rest)) : rest.length ≤ cs.length := by
  unfold stepPoint at h
  split at h
  · exact absurd h (by simp)
  · split at h
    · exact stepNumber_length h
    · exact absurd h (by simp)

theorem stepParen_length {s s' : State} {opening : Bool} {cs rest : List Char} {t : Option Token}
    (h : stepParen s opening cs = .ok (t, s', rest)) : rest.length ≤ cs.length := by
  unfold stepParen at h
  split at h
  · exact ok_length h
  · split at h
    · exact absurd h (by simp)
    · exact ok_length h

theorem stepBracket_length {s s' : State} {c : Char} {cs rest : List Char} {t : Option Token}
    (h : stepBracket s c cs = .ok (t, s', rest)) : rest.length ≤ cs.length := by
  unfold stepBracket at h
  split at h
  · exact stepParen_length h
  split at h
  · exact stepParen_length h
  split at h
  · exact ok_length h
  split at h
  · exact absurd h (by simp)
  split at h
  · exact ok_length h
  split at h
  · exact absurd h (by simp)
  · exact absurd h (by simp)

theorem stepLexeme_length {s s' : State} {c : Char} {cs rest : List Char} {t : Option Token}
    (h : stepLexeme s c cs = .ok (t, s', rest)) : rest.length ≤ cs.length := by
  unfold stepLexeme at h
  split at h
  · exact stepNumber_length h
  split at h
  · exact stepPoint_length h
  split at h
  · exact stepString_length h
  split at h
  · exact Nat.le_trans (emit_length h) (dropWhile_length_le _ cs)
  · exact stepBracket_length h

theorem stepOther_length {s s' : State} {c : Char} {cs rest : List Char} {t : Option Token}
    (h : stepOther s c cs = .ok (t, s', rest)) : rest.length ≤ cs.length := by
  unfold stepOther at h
  split at h
  · exact ok_length h
  split at h
  · exact Nat.le_trans (ok_length h) (dropComment_length cs)
  split at h
  · exact stepEqual_length h
  split at h
  · exact stepBang_length h
  split at h
  · exact stepOrder_length h
  split at h
  · exact stepOrder_length h
  · exact stepLexeme_length h

theorem stepPlain_length {s s' : State} {c : Char} {cs rest : List Char} {t : Option Token}
    (h : stepPlain s c cs = .ok (t, s', rest)) : rest.length ≤ cs.length := by
  unfold stepPlain at h
  split at h
  · exact emit_length h
  · exact stepOther_length h

theorem stepEqualInBraces_length {s s' : State} {cs rest : List Char} {t : Option Token}
    (h : stepEqualInBraces s cs = .ok (t, s', rest)) : rest.length ≤ cs.length := by
  unfold stepEqualInBraces at h
  split at h
  · exact Nat.le_succ_of_le (emit_length h)
  · exact emit_length h

theorem stepBangInBraces_length {s s' : State} {cs rest : List Char} {t : Option Token}
    (h : stepBangInBraces s cs = .ok (t, s', rest)) : rest.length ≤ cs.length := by
  unfold stepBangInBraces at h
  split at h
  · exact Nat.le_succ_of_le (emit_length h)
  · exact Nat.le_succ_of_le (emit_length h)
  · exact absurd h (by simp)
  · exact absurd h (by simp)

theorem stepBraces_length {s s' : State} {c : Char} {cs rest : List Char} {t : Option Token}
    (h : stepBraces s c cs = .ok (t, s', rest)) : rest.length ≤ cs.length := by
  unfold stepBraces at h
  split at h
  · exact ok_length h
  split at h
  · exact Nat.le_trans (ok_length h) (dropComment_length cs)
  split at h
  · exact emit_length h
  split at h
  · exact stepString_length h
  split at h
  · exact stepEqualInBraces_length h
  split at h
  · exact stepBangInBraces_length h
  split at h
  · exact absurd h (by simp)
  split at h
  · exact ok_length h
  split at h
  · split at h
    · exact Nat.le_trans (emit_length h) (by rw [List.length_drop]; omega)
    · exact Nat.le_trans (emit_length h) (dropWhile_length_le _ cs)
  · exact absurd h (by simp)

theorem stepBrackets_length {s s' : State} {colon fresh : Bool} {c : Char} {cs rest : List Char}
    {t : Option Token} (h : stepBrackets s colon fresh c cs = .ok (t, s', rest)) :
    rest.length ≤ cs.length := by
  unfold stepBrackets at h
  split at h
  · exact ok_length h
  split at h
  · split at h
    · exact absurd h (by simp)
    split at h
    · exact absurd h (by simp)
    · exact ok_length h
  split at h
  · exact stepNumber_length h
  split at h
  · exact ok_length h
  split at h
  · exact absurd h (by simp)
  · exact absurd h (by simp)

/-- A step takes at least the first character. -/
theorem step_length {s s' : State} {c : Char} {cs rest : List Char} {t : Option Token}
    (h : step s c cs = .ok (t, s', rest)) : rest.length ≤ cs.length := by
  unfold step at h
  split at h
  · exact stepPlain_length h
  · exact stepBraces_length h
  · exact stepBrackets_length h

/-! ## All tokens -/

/-- The tokens of a text from a state on. -/
def tokensFrom (s : State) : List Char → Except LexError (List Token)
  | [] => finish s
  | c :: cs =>
    match h : step s c cs with
    | .error e => .error e
    | .ok (t, s', rest) =>
      have : rest.length < (c :: cs).length := Nat.lt_succ_of_le (step_length h)
      (tokensFrom s' rest).map (t.toList ++ ·)
termination_by cs => cs.length
decreasing_by exact this

/-- The tokens of a query. -/
def tokens (cs : List Char) : Except LexError (List Token) := tokensFrom {} cs

end Lexer

end PanelLint.Promql
