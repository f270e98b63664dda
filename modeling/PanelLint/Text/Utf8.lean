/-!
# Texts in bytes

Files hold texts in UTF-8. The first byte of a character says how many bytes follow it and in which
range the second one lies, so that no character has two encodings and none encodes a surrogate.
Bytes that begin no character, up to the first byte that cannot belong to it, count as one broken
character. `decode?` refuses a text with a broken character, `decodeLossy` puts the replacement
character in its place.
-/

namespace PanelLint.Text

/-- What the first byte of a character says: its own bits, how many bytes follow, and the range of
the second byte. -/
structure Lead where
  bits : Nat
  count : Nat
  low : Nat := 0x80
  high : Nat := 0xBF
  deriving DecidableEq, Repr

/-- The reading of a first byte. -/
def lead? (b : Nat) : Option Lead :=
  if b < 0x80 then some { bits := b, count := 0 }
  else if b < 0xC2 then none
  else if b < 0xE0 then some { bits := b - 0xC0, count := 1 }
  else if b = 0xE0 then some { bits := 0, count := 2, low := 0xA0 }
  else if b = 0xED then some { bits := 0xD, count := 2, high := 0x9F }
  else if b < 0xF0 then some { bits := b - 0xE0, count := 2 }
  else if b = 0xF0 then some { bits := 0, count := 3, low := 0x90 }
  else if b < 0xF4 then some { bits := b - 0xF0, count := 3 }
  else if b = 0xF4 then some { bits := 4, count := 3, high := 0x8F }
  else none

/-- The bytes after the first one taken into a code point, and the rest; `none` when one of them is
out of its range, which is then still in the rest. -/
def takeBytes (bits : Nat) : (count low high : Nat) → List UInt8 → Option Nat × List UInt8
  | 0, _, _, bs => (some bits, bs)
  | _ + 1, _, _, [] => (none, [])
  | count + 1, low, high, b :: bs =>
    if low ≤ b.toNat ∧ b.toNat ≤ high then
      takeBytes (bits * 64 + (b.toNat - 0x80)) count 0x80 0xBF bs
    else (none, b :: bs)

/-- The first character, unless it is broken, and the rest. -/
def decodeFirst (b : UInt8) (bs : List UInt8) : Option Char × List UInt8 :=
  match lead? b.toNat with
  | none => (none, bs)
  | some l =>
    let (code, rest) := takeBytes l.bits l.count l.low l.high bs
    (code.map Char.ofNat, rest)

/-- The characters of a text, broken ones as `none`; `fuel` bounds their number. -/
def decodeWithin : (fuel : Nat) → List UInt8 → List (Option Char)
  | 0, _ => []
  | _ + 1, [] => []
  | fuel + 1, b :: bs => (decodeFirst b bs).1 :: decodeWithin fuel (decodeFirst b bs).2

/-- The text that bytes encode, if none of its characters is broken. -/
def decode? (bytes : List UInt8) : Option (List Char) := (decodeWithin bytes.length bytes).mapM id

/-- The text that bytes encode, with U+FFFD for its broken characters. -/
def decodeLossy (bytes : List UInt8) : List Char :=
  (decodeWithin bytes.length bytes).map fun c => c.getD '\ufffd'

end PanelLint.Text
