import Mathlib.Tactic.SplitIfs
import PanelLint.Text.Utf8
/-!
# Texts in bytes, read back

`encode` gives the bytes of a text.  `decode?` is its inverse: it takes bytes for a text just when
they are the bytes of one, and then for that text (`decode?_eq_some_iff`).  So no other text has the
same bytes, and what is refused is no text at all.
-/

namespace PanelLint.Text

open String (utf8EncodeChar)

/-- The bytes of a text. -/
def encode (cs : List Char) : List UInt8 := cs.flatMap utf8EncodeChar

/-! ## 1. The bytes of a character -/

section Width

variable {c : Char} {b b₁ b₂ b₃ : UInt8}

/-- One byte: the character itself. -/
theorem utf8EncodeChar_eq_one_iff :
    utf8EncodeChar c = [b] ↔ b.toNat < 0x80 ∧ c.toNat = b.toNat := by
  change _ ↔ _ ∧ c.val.toNat = _
  simp only [utf8EncodeChar]
  generalize c.val.toNat = n
  split_ifs <;>
    simp only [List.cons.injEq, reduceCtorEq, ← UInt8.toNat_inj, UInt8.toNat_ofNat', and_true,
      and_false, false_iff] <;>
    omega

/-- Two bytes: eleven bits, of which the lead has five. -/
theorem utf8EncodeChar_eq_two_iff :
    utf8EncodeChar c = [b, b₁] ↔
      0xC2 ≤ b.toNat ∧ b.toNat < 0xE0 ∧ 0x80 ≤ b₁.toNat ∧ b₁.toNat ≤ 0xBF ∧
        c.toNat = (b.toNat - 0xC0) * 64 + (b₁.toNat - 0x80) := by
  change _ ↔ _ ∧ _ ∧ _ ∧ _ ∧ c.val.toNat = _
  simp only [utf8EncodeChar]
  generalize c.val.toNat = n
  split_ifs <;>
    simp only [List.cons.injEq, reduceCtorEq, ← UInt8.toNat_inj, UInt8.toNat_ofNat', and_true,
      and_false, false_iff] <;>
    omega

/-- Three bytes: sixteen bits, without the surrogates. -/
theorem utf8EncodeChar_eq_three_iff :
    utf8EncodeChar c = [b, b₁, b₂] ↔
      0xE0 ≤ b.toNat ∧ b.toNat < 0xF0 ∧ 0x80 ≤ b₁.toNat ∧ b₁.toNat ≤ 0xBF ∧
        0x80 ≤ b₂.toNat ∧ b₂.toNat ≤ 0xBF ∧ (b.toNat = 0xE0 → 0xA0 ≤ b₁.toNat) ∧
        (b.toNat = 0xED → b₁.toNat ≤ 0x9F) ∧
        c.toNat = ((b.toNat - 0xE0) * 64 + (b₁.toNat - 0x80)) * 64 + (b₂.toNat - 0x80) := by
  -- no character is a surrogate, which bounds the byte after 0xED
  have hvalid : c.val.toNat.isValidChar := c.valid
  change _ ↔ _ ∧ _ ∧ _ ∧ _ ∧ _ ∧ _ ∧ _ ∧ _ ∧ c.val.toNat = _
  simp only [utf8EncodeChar]
  unfold Nat.isValidChar at hvalid
  generalize c.val.toNat = n at *
  split_ifs <;>
    simp only [List.cons.injEq, reduceCtorEq, ← UInt8.toNat_inj, UInt8.toNat_ofNat', and_true,
      and_false, false_iff] <;>
    omega

/-- Four bytes: up to the last plane. -/
theorem utf8EncodeChar_eq_four_iff :
    utf8EncodeChar c = [b, b₁, b₂, b₃] ↔
      0xF0 ≤ b.toNat ∧ b.toNat ≤ 0xF4 ∧ 0x80 ≤ b₁.toNat ∧ b₁.toNat ≤ 0xBF ∧
        0x80 ≤ b₂.toNat ∧ b₂.toNat ≤ 0xBF ∧ 0x80 ≤ b₃.toNat ∧ b₃.toNat ≤ 0xBF ∧
        (b.toNat = 0xF0 → 0x90 ≤ b₁.toNat) ∧ (b.toNat = 0xF4 → b₁.toNat ≤ 0x8F) ∧
        c.toNat = (((b.toNat - 0xF0) * 64 + (b₁.toNat - 0x80)) * 64 + (b₂.toNat - 0x80)) * 64 +
          (b₃.toNat - 0x80) := by
  -- the last plane bounds the byte after 0xF4
  have hvalid : c.val.toNat.isValidChar := c.valid
  change _ ↔ _ ∧ _ ∧ _ ∧ _ ∧ _ ∧ _ ∧ _ ∧ _ ∧ _ ∧ _ ∧ c.val.toNat = _
  simp only [utf8EncodeChar]
  unfold Nat.isValidChar at hvalid
  generalize c.val.toNat = n at *
  split_ifs <;>
    simp only [List.cons.injEq, reduceCtorEq, ← UInt8.toNat_inj, UInt8.toNat_ofNat', and_true,
      and_false, false_iff] <;>
    omega

end Width

/-! ## 2. A character read back -/

variable {c : Char} {b : UInt8} {bs rest : List UInt8}

/-- The leads of characters of one, two, three and four bytes. -/
theorem lead?_eq_some_iff {n : Nat} {l : Lead} :
    lead? n = some l ↔
      (n < 0x80 ∧ l = { bits := n, count := 0 }) ∨
      (0xC2 ≤ n ∧ n < 0xE0 ∧ l = { bits := n - 0xC0, count := 1 }) ∨
      (0xE0 ≤ n ∧ n < 0xF0 ∧ l = ⟨n - 0xE0, 2, if n = 0xE0 then 0xA0 else 0x80,
        if n = 0xED then 0x9F else 0xBF⟩) ∨
      (0xF0 ≤ n ∧ n ≤ 0xF4 ∧ l = ⟨n - 0xF0, 3, if n = 0xF0 then 0x90 else 0x80,
        if n = 0xF4 then 0x8F else 0xBF⟩) := by
  unfold lead?
  grind

theorem takeBytes_zero_eq_some_iff {bits low high code : Nat} {bs rest : List UInt8} :
    takeBytes bits 0 low high bs = (some code, rest) ↔ bits = code ∧ bs = rest := by
  rw [takeBytes, Prod.mk.injEq, Option.some.injEq]

/-- One more byte behind the lead has six bits, and only the first such byte has bounds of its own. -/
theorem takeBytes_succ_eq_some_iff {bits count low high code : Nat} {bs rest : List UInt8} :
    takeBytes bits (count + 1) low high bs = (some code, rest) ↔
      ∃ b bs', bs = b :: bs' ∧ low ≤ b.toNat ∧ b.toNat ≤ high ∧
        takeBytes (bits * 64 + (b.toNat - 0x80)) count 0x80 0xBF bs' = (some code, rest) := by
  cases bs with
  | nil => simp [takeBytes]
  | cons b bs =>
    rw [takeBytes]
    constructor
    · intro h
      split at h
      next hrange => exact ⟨b, bs, rfl, hrange.1, hrange.2, h⟩
      next => cases h
    · rintro ⟨b', bs', heq, hlow, hhigh, h⟩
      obtain ⟨rfl, rfl⟩ := List.cons.inj heq
      rw [if_pos ⟨hlow, hhigh⟩, h]

/-- Behind a lead its bytes are taken, and make a character. -/
theorem decodeFirst_of_lead {l : Lead} (hl : lead? b.toNat = some l) :
    decodeFirst b bs = (some c, rest) ↔
      ∃ code, takeBytes l.bits l.count l.low l.high bs = (some code, rest) ∧ Char.ofNat code = c := by
  simp only [decodeFirst, hl]
  rcases takeBytes l.bits l.count l.low l.high bs with ⟨_ | code, rest'⟩
  · simp
  · simpa [and_assoc] using and_comm

theorem toNat_ofNat {n : Nat} (h : n.isValidChar) : (Char.ofNat n).toNat = n := by
  rw [Char.ofNat, dif_pos h]
  rfl

/-- A lead of one byte. -/
theorem decodeFirst_one_iff (hb : b.toNat < 0x80) :
    decodeFirst b bs = (some c, rest) ↔ bs = rest ∧ utf8EncodeChar c = [b] := by
  rw [decodeFirst_of_lead (lead?_eq_some_iff.mpr (Or.inl ⟨hb, rfl⟩)), utf8EncodeChar_eq_one_iff]
  simp only [takeBytes_zero_eq_some_iff]
  constructor
  · rintro ⟨code, ⟨rfl, rfl⟩, rfl⟩
    exact ⟨rfl, hb, toNat_ofNat (by grind)⟩
  · rintro ⟨rfl, -, hcode⟩
    exact ⟨_, ⟨rfl, rfl⟩, hcode ▸ Char.ofNat_toNat c⟩

/-- A lead of two. -/
theorem decodeFirst_two_iff (hlow : 0xC2 ≤ b.toNat) (hhigh : b.toNat < 0xE0) :
    decodeFirst b bs = (some c, rest) ↔ ∃ b₁, bs = b₁ :: rest ∧ utf8EncodeChar c = [b, b₁] := by
  rw [decodeFirst_of_lead (lead?_eq_some_iff.mpr (Or.inr (Or.inl ⟨hlow, hhigh, rfl⟩)))]
  simp only [takeBytes_succ_eq_some_iff, takeBytes_zero_eq_some_iff, utf8EncodeChar_eq_two_iff]
  constructor
  · rintro ⟨code, ⟨b₁, _, rfl, hlow₁, hhigh₁, rfl, rfl⟩, rfl⟩
    exact ⟨b₁, rfl, hlow, hhigh, hlow₁, hhigh₁, toNat_ofNat (by grind)⟩
  · rintro ⟨b₁, rfl, -, -, hlow₁, hhigh₁, hcode⟩
    exact ⟨_, ⟨b₁, rest, rfl, hlow₁, hhigh₁, rfl, rfl⟩, hcode ▸ Char.ofNat_toNat c⟩

/-- A lead of three, by whether it bounds the byte behind it. -/
theorem decodeFirst_three_iff (hlow : 0xE0 ≤ b.toNat) (hhigh : b.toNat < 0xF0) :
    decodeFirst b bs = (some c, rest) ↔
      ∃ b₁ b₂, bs = b₁ :: b₂ :: rest ∧ utf8EncodeChar c = [b, b₁, b₂] := by
  rw [decodeFirst_of_lead (lead?_eq_some_iff.mpr (Or.inr (Or.inr (Or.inl ⟨hlow, hhigh, rfl⟩))))]
  simp only [takeBytes_succ_eq_some_iff, takeBytes_zero_eq_some_iff, utf8EncodeChar_eq_three_iff]
  constructor
  · rintro ⟨code, ⟨b₁, _, rfl, hlow₁, hhigh₁, b₂, _, rfl, hlow₂, hhigh₂, rfl, rfl⟩, rfl⟩
    exact ⟨b₁, b₂, rfl, hlow, hhigh, by grind, by grind, hlow₂, hhigh₂, by grind, by grind,
      toNat_ofNat (by grind)⟩
  · rintro ⟨b₁, b₂, rfl, -, -, hlow₁, hhigh₁, hlow₂, hhigh₂, hE0, hED, hcode⟩
    exact ⟨_, ⟨b₁, b₂ :: rest, rfl, by grind, by grind, b₂, rest, rfl, hlow₂, hhigh₂, rfl, rfl⟩,
      hcode ▸ Char.ofNat_toNat c⟩

/-- A lead of four, likewise. -/
theorem decodeFirst_four_iff (hlow : 0xF0 ≤ b.toNat) (hhigh : b.toNat ≤ 0xF4) :
    decodeFirst b bs = (some c, rest) ↔
      ∃ b₁ b₂ b₃, bs = b₁ :: b₂ :: b₃ :: rest ∧ utf8EncodeChar c = [b, b₁, b₂, b₃] := by
  rw [decodeFirst_of_lead (lead?_eq_some_iff.mpr (Or.inr (Or.inr (Or.inr ⟨hlow, hhigh, rfl⟩))))]
  simp only [takeBytes_succ_eq_some_iff, takeBytes_zero_eq_some_iff, utf8EncodeChar_eq_four_iff]
  constructor
  · rintro ⟨code, ⟨b₁, _, rfl, hlow₁, hhigh₁, b₂, _, rfl, hlow₂, hhigh₂, b₃, _, rfl, hlow₃,
      hhigh₃, rfl, rfl⟩, rfl⟩
    exact ⟨b₁, b₂, b₃, rfl, hlow, hhigh, by grind, by grind, hlow₂, hhigh₂, hlow₃, hhigh₃,
      by grind, by grind, toNat_ofNat (by grind)⟩
  · rintro ⟨b₁, b₂, b₃, rfl, -, -, hlow₁, hhigh₁, hlow₂, hhigh₂, hlow₃, hhigh₃, hF0, hF4, hcode⟩
    exact ⟨_, ⟨b₁, b₂ :: b₃ :: rest, rfl, by grind, by grind, b₂, b₃ :: rest, rfl, hlow₂, hhigh₂,
      b₃, rest, rfl, hlow₃, hhigh₃, rfl, rfl⟩, hcode ▸ Char.ofNat_toNat c⟩

/-- The characters by the number of their bytes. -/
theorem utf8EncodeChar_cases (c : Char) :
    (∃ b, utf8EncodeChar c = [b]) ∨ (∃ b b₁, utf8EncodeChar c = [b, b₁]) ∨
      (∃ b b₁ b₂, utf8EncodeChar c = [b, b₁, b₂]) ∨
      ∃ b b₁ b₂ b₃, utf8EncodeChar c = [b, b₁, b₂, b₃] := by
  simp only [utf8EncodeChar]
  split_ifs <;> simp

/-- **What is read as a character are the bytes of that character.** -/
theorem decodeFirst_eq_some_iff :
    decodeFirst b bs = (some c, rest) ↔ b :: bs = utf8EncodeChar c ++ rest := by
  constructor
  · intro h
    cases hl : lead? b.toNat with
    | none => simp [decodeFirst, hl] at h
    | some l =>
      rcases lead?_eq_some_iff.mp hl with ⟨hb, -⟩ | ⟨hlow, hhigh, -⟩ | ⟨hlow, hhigh, -⟩ |
        ⟨hlow, hhigh, -⟩
      · obtain ⟨rfl, hc⟩ := (decodeFirst_one_iff hb).mp h
        rw [hc, List.singleton_append]
      · obtain ⟨b₁, rfl, hc⟩ := (decodeFirst_two_iff hlow hhigh).mp h
        rw [hc]
        rfl
      · obtain ⟨b₁, b₂, rfl, hc⟩ := (decodeFirst_three_iff hlow hhigh).mp h
        rw [hc]
        rfl
      · obtain ⟨b₁, b₂, b₃, rfl, hc⟩ := (decodeFirst_four_iff hlow hhigh).mp h
        rw [hc]
        rfl
  · intro h
    rcases utf8EncodeChar_cases c with ⟨b', hc⟩ | ⟨b', b₁, hc⟩ | ⟨b', b₁, b₂, hc⟩ |
      ⟨b', b₁, b₂, b₃, hc⟩ <;> (rw [hc] at h; obtain ⟨rfl, rfl⟩ := List.cons.inj h)
    · obtain ⟨hb, -⟩ := utf8EncodeChar_eq_one_iff.mp hc
      exact (decodeFirst_one_iff hb).mpr ⟨rfl, hc⟩
    · obtain ⟨hlow, hhigh, -⟩ := utf8EncodeChar_eq_two_iff.mp hc
      exact (decodeFirst_two_iff hlow hhigh).mpr ⟨b₁, rfl, hc⟩
    · obtain ⟨hlow, hhigh, -⟩ := utf8EncodeChar_eq_three_iff.mp hc
      exact (decodeFirst_three_iff hlow hhigh).mpr ⟨b₁, b₂, rfl, hc⟩
    · obtain ⟨hlow, hhigh, -⟩ := utf8EncodeChar_eq_four_iff.mp hc
      exact (decodeFirst_four_iff hlow hhigh).mpr ⟨b₁, b₂, b₃, rfl, hc⟩

/-! ## 3. A text read back -/

theorem encode_cons (c : Char) (cs : List Char) :
    encode (c :: cs) = utf8EncodeChar c ++ encode cs :=
  List.flatMap_cons

theorem encode_eq_nil_iff {cs : List Char} : encode cs = [] ↔ cs = [] := by
  cases cs with
  | nil => simp [encode]
  | cons c cs => simp [encode_cons, String.utf8EncodeChar_ne_nil]

theorem mapM_decodeWithin_nil_iff {fuel : Nat} {cs : List Char} :
    (decodeWithin fuel []).mapM id = some cs ↔ encode cs = [] := by
  have hnil : decodeWithin fuel [] = [] := by cases fuel <;> rfl
  rw [hnil, List.mapM_nil, encode_eq_nil_iff]
  exact ⟨fun h => (Option.some.inj h).symm, fun h => congrArg some h.symm⟩

/-- A character takes at least one byte. -/
theorem length_rest_of_eq_encode (h : b :: bs = utf8EncodeChar c ++ rest) : rest.length ≤ bs.length := by
  have hpos := List.length_pos_iff.mpr (String.utf8EncodeChar_ne_nil (c := c))
  have hlength := congrArg List.length h
  rw [List.length_cons, List.length_append] at hlength
  omega

/-- Characters are read one by one, by induction on the fuel: each takes at least one byte. -/
theorem mapM_decodeWithin_eq_some_iff {fuel : Nat} {bytes : List UInt8} {cs : List Char}
    (h : bytes.length ≤ fuel) :
    (decodeWithin fuel bytes).mapM id = some cs ↔ encode cs = bytes := by
  induction fuel generalizing bytes cs with
  | zero =>
    obtain rfl := List.eq_nil_of_length_eq_zero (Nat.le_zero.mp h)
    exact mapM_decodeWithin_nil_iff
  | succ fuel ih =>
    cases bytes with
    | nil => exact mapM_decodeWithin_nil_iff
    | cons b bs =>
      have hbs : bs.length ≤ fuel := Nat.le_of_succ_le_succ h
      rw [decodeWithin, List.mapM_cons]
      constructor
      · intro hcs
        obtain ⟨c, hc, hcs⟩ := Option.bind_eq_some_iff.mp hcs
        obtain ⟨cs', hcs', hcons⟩ := Option.bind_eq_some_iff.mp hcs
        cases hcons
        have hbytes := decodeFirst_eq_some_iff.mp (Prod.ext hc rfl : decodeFirst b bs = (some c, _))
        have hrest := Nat.le_trans (length_rest_of_eq_encode hbytes) hbs
        rw [encode_cons, (ih hrest).mp hcs', ← hbytes]
      · intro hcs
        cases cs with
        | nil => cases hcs
        | cons c cs =>
          rw [encode_cons] at hcs
          have hrest := Nat.le_trans (length_rest_of_eq_encode hcs.symm) hbs
          rw [decodeFirst_eq_some_iff.mpr hcs.symm, (ih hrest).mpr rfl]
          rfl

/-- **Bytes are taken for a text just when they are its bytes.** -/
theorem decode?_eq_some_iff {bytes : List UInt8} {cs : List Char} :
    decode? bytes = some cs ↔ encode cs = bytes :=
  mapM_decodeWithin_eq_some_iff (Nat.le_refl _)

/-- What is refused is no text. -/
theorem decode?_eq_none_iff {bytes : List UInt8} :
    decode? bytes = none ↔ ∀ cs, encode cs ≠ bytes := by
  simp [Option.eq_none_iff_forall_ne_some, decode?_eq_some_iff]

/-- The bytes of no character, since they would be those of a surrogate. -/
example : decode? [0xED, 0xA0, 0x80] = none := by decide

end PanelLint.Text
