import Mathlib.Data.List.Infix
import PanelLint.Proofs.Promql.Numbers
import PanelLint.Proofs.Promql.Phrases
/-!
# Rows of tokens that differ in single tokens

`Exchange` relates the tokens of two queries that have the same build: here and there one has another
number, another length of time or another name than the other.  What a token may be exchanged for
depends on the tokens before it, which are given with the last one first, and on those after it.

The tokens before need not be those of the row.  A name in the row may stand for an operand of many
tokens, and these are then what counts behind it (`Advance`).

All that the grammar asks of a token beside its text is the same on both sides.
-/

namespace PanelLint.Promql

/-! ## 1. Tokens and what they stand behind -/

namespace Token

/-- Whether a token is a plus or a minus. -/
def isSign : Token → Bool
  | .operator .add => true
  | .operator .sub => true
  | _ => false

/-- Whether a length of time begins behind a token in brackets. -/
def opensSpan : Token → Bool
  | .leftBracket => true
  | .colon => true
  | _ => false

/-- Whether a token is `offset`. -/
def isOffset : Token → Bool
  | .keyword .offset _ => true
  | _ => false

/-- Whether a token is a name outside braces, with a colon or without. -/
def isNamed : Token → Bool
  | .identifier _ => true
  | .metric _ => true
  | _ => false

/-- The tokens that may stand for operands as names: no label of names, and no colon. -/
inductive IsName : Token → Prop
  | identifier (name : String) : ':' ∉ name.toList → name ≠ "__name__" → IsName (.identifier name)
  | aggregation (op : Aggregation) (text : String) : ':' ∉ text.toList →
      IsName (.keyword (.aggregation op) text)

end Token

/-- Whether a token is neither a quantity nor a name, nor a word that may be one. -/
def Token.isFixed : Token → Bool
  | .number _ => false
  | .duration _ => false
  | .identifier _ => false
  | .metric _ => false
  | .keyword (.aggregation _) _ => false
  | _ => true

/-- What stands before an optional sign. -/
def dropSign : List Token → List Token
  | [] => []
  | t :: ts => if t.isSign then ts else t :: ts

/-- Whether the argument of a function with a domain begins behind some tokens, signs aside. -/
def inDomainCall (prev : List Token) : Bool :=
  match prev.dropWhile Token.isSign with
  | .leftParen :: .identifier name :: _ => domainFunctions.contains name
  | _ => false

/-- Whether a length of time begins behind some tokens. -/
def inSpan (prev : List Token) : Bool :=
  prev.head?.any Token.opensSpan || (dropSign prev).head?.any Token.isOffset

/-- Whether braces are open behind some tokens; no parentheses open in them. -/
def inBraces : List Token → Bool
  | [] => false
  | .leftBrace :: _ => true
  | .rightBrace :: _ => false
  | .leftParen :: _ => false
  | _ :: ts => inBraces ts

/-- Whether a token begins the arguments or the grouping of what stands before it. -/
def Token.opensBody : Token → Bool
  | .leftParen => true
  | .keyword (.grouping _) _ => true
  | _ => false

theorem opensBody_of_isFixed {t : Token} (h : t.isFixed = false) : t.opensBody = false := by
  cases t with
  | keyword word _ => cases word <;> first | rfl | exact absurd h (by simp [Token.isFixed])
  | _ => first | rfl | exact absurd h (by simp [Token.isFixed])

/-- Whether tokens begin as the arguments or the grouping of what stands before them. -/
def opensBody (next : List Token) : Bool := next.head?.any Token.opensBody

/-- Whether tokens begin with an opening brace. -/
def opensBraces (next : List Token) : Bool := next.head?.any (· == .leftBrace)

/-- Whether the modifier of an operator that some tokens begin with has a label on both sides of the
match. -/
def sharesLabel (next : List Token) : Bool :=
  match Phrase.readModifier next with
  | .ok (m, _) => m.sharesLabel
  | .error _ => false

/-! ## 2. The relation -/

/-- **A token in exchange for another one**, behind `prev` and before `next`.

A quantity may become a sound length of time, or one where no length of time is due, unless a function
with a domain decides by its value.  A name may become another one, unless parentheses or a grouping follow.
That a label becomes another one in braces is nothing that a check could refuse, and a name with a
colon is a label nowhere. -/
inductive Swap (renamed : Prop) (prev : List Token) : Token → Token → List Token → Prop
  | same (t : Token) (next : List Token) : Swap renamed prev t t next
  | span {t : Token} {text : String} {next : List Token} : t.isQuantity = true →
      inDomainCall prev = false → (Span.units text).IsSound →
      Swap renamed prev t (.duration text) next
  | scalar {t : Token} {next : List Token} : t.isQuantity = true → inDomainCall prev = false →
      inSpan prev = false → Swap renamed prev t (.number "1") next
  | label {name name' : String} {next : List Token} : inBraces prev = true → name' ≠ "__name__" →
      opensBody next = false → Swap renamed prev (.identifier name) (.identifier name') next
  | renamed {t t' : Token} {next : List Token} : renamed → t.isNamed = true → t'.IsName →
      inBraces prev = false → opensBody next = false → Swap renamed prev t t' next
  | metric {name name' : String} {next : List Token} : ':' ∈ name.toList →
      Swap renamed prev (.metric name) (.metric name') next

/-- **What stands before the tokens after a token**: the token and what stands before it, or, if it
stands for more outside braces, any tokens that leave no braces open. -/
inductive Advance (prev : List Token) (t : Token) (next : List Token) : List Token → Prop
  | token : Advance prev t next (t :: prev)
  | run {prev' : List Token} : t.isFixed = false → opensBody next = false → inBraces prev = false →
      inBraces prev' = false → Advance prev t next prev'

/-- Rows of tokens with one token for one behind `prev`.  If names may change, no label stands on
both sides of a match in the second row. -/
inductive Exchange (renamed : Prop) : List Token → List Token → List Token → Prop
  | nil {prev : List Token} : Exchange renamed prev [] []
  | cons {prev prev' : List Token} {t t' : Token} {ts ts' : List Token} :
      Swap renamed prev t t' ts → Advance prev t ts prev' → (renamed → sharesLabel ts' = false) →
      Exchange renamed prev' ts ts' → Exchange renamed prev (t :: ts) (t' :: ts')

variable {renamed : Prop} {prev prev' ts ts' next : List Token} {t t' : Token}

theorem Exchange.length (h : Exchange renamed prev ts ts') : ts'.length = ts.length := by
  induction h with
  | nil => rfl
  | cons _ _ _ _ ih => rw [List.length_cons, List.length_cons, ih]

/-- No label stands on both sides of a match, anywhere in a row of tokens. -/
def LabelsApart (ts : List Token) : Prop := ∀ us, us <:+ ts → sharesLabel us = false

theorem LabelsApart.of_append {us : List Token} (h : LabelsApart (ts ++ us)) : LabelsApart us :=
  fun _ hvs => h _ (hvs.trans (List.suffix_append ts us))

theorem LabelsApart.tail (h : LabelsApart (t :: ts)) : LabelsApart ts :=
  fun _ hvs => h _ (hvs.trans (List.suffix_cons t ts))

theorem labelsApart_of_all (h : ts.tails.all (fun us => !sharesLabel us) = true) : LabelsApart ts :=
  fun us hus => by simpa using List.all_eq_true.mp h us ((List.mem_tails us ts).mpr hus)

theorem exchange_self (h : renamed → LabelsApart ts) : Exchange renamed prev ts ts := by
  induction ts generalizing prev with
  | nil => exact Exchange.nil
  | cons t ts ih =>
    have hlabels : renamed → LabelsApart ts := fun hr => (h hr).tail
    exact Exchange.cons (Swap.same t ts) Advance.token
      (fun hr => hlabels hr ts (List.suffix_refl ts)) (ih hlabels)

/-! ## 3. Tokens that are never exchanged -/

theorem isFixed_of_isName (h : t.IsName) : t.isFixed = false := by
  cases h <;> rfl

/-- A token that can only be itself. -/
theorem Swap.eq_of_kept (h : Swap renamed prev t t' next) (hq : t.isQuantity = false)
    (hn : t.isNamed = false) : t' = t := by
  cases h with
  | same => rfl
  | span hquantity _ _ => exact absurd hquantity (by simp [hq])
  | scalar hquantity _ _ => exact absurd hquantity (by simp [hq])
  | label _ _ _ => cases hn
  | renamed _ hname _ _ _ => exact absurd hname (by simp [hn])
  | metric _ => cases hn

/-- A fixed token comes from itself. -/
theorem Swap.eq_of_isFixed (h : Swap renamed prev t t' next) (hf : t'.isFixed = true) :
    t = t' := by
  cases h with
  | same => rfl
  | span _ _ _ => exact absurd hf (by simp [Token.isFixed])
  | scalar _ _ _ => exact absurd hf (by simp [Token.isFixed])
  | label _ _ _ => cases hf
  | renamed _ _ hname _ _ => exact absurd hf (by simp [isFixed_of_isName hname])
  | metric _ => cases hf

/-- A fixed token is passed as it is. -/
theorem Advance.eq_of_isFixed (h : Advance prev t next prev') (ht : t.isFixed = true) :
    prev' = t :: prev := by
  cases h with
  | token => rfl
  | run hfree _ _ _ => exact absurd ht (by simp [hfree])

/-- A name that arguments or a grouping follow is passed as it is. -/
theorem Advance.eq_of_opensBody (h : Advance prev t next prev') (ht : opensBody next = true) :
    prev' = t :: prev := by
  cases h with
  | token => rfl
  | run _ hbody _ _ => exact absurd ht (by simp [hbody])

/-- A token that leaves braces as they are does so when it is passed. -/
theorem Advance.inBraces (h : Advance prev t next prev')
    (ht : Promql.inBraces (t :: prev) = Promql.inBraces prev) :
    Promql.inBraces prev' = Promql.inBraces prev := by
  cases h with
  | token => exact ht
  | run _ _ hbraces hbraces' => rw [hbraces, hbraces']

theorem Exchange.cons_inv (h : Exchange renamed prev (t :: ts) ts') :
    ∃ t' us prev', ts' = t' :: us ∧ Swap renamed prev t t' ts ∧ Advance prev t ts prev' ∧
      (renamed → sharesLabel us = false) ∧ Exchange renamed prev' ts us := by
  cases h with
  | cons hswap hpassed hlabels htail => exact ⟨_, _, _, rfl, hswap, hpassed, hlabels, htail⟩

/-- A fixed token stands on both sides. -/
theorem Exchange.cons_kept (h : Exchange renamed prev (t :: ts) ts') (hf : t.isFixed = true) :
    ∃ us, ts' = t :: us ∧ Exchange renamed (t :: prev) ts us := by
  obtain ⟨t', us, prev', rfl, hswap, hpassed, -, htail⟩ := h.cons_inv
  obtain rfl : t' = t := hswap.eq_of_kept (by cases t <;> first | rfl | cases hf)
    (by cases t <;> first | rfl | cases hf)
  obtain rfl := hpassed.eq_of_isFixed hf
  exact ⟨us, rfl, htail⟩

/-- The word of an aggregation stands on both sides. -/
theorem Exchange.cons_aggregation {op : Aggregation} {text : String}
    (h : Exchange renamed prev (.keyword (.aggregation op) text :: ts) ts') :
    ∃ us prev', ts' = .keyword (.aggregation op) text :: us ∧ Exchange renamed prev' ts us := by
  obtain ⟨t', us, prev', rfl, hswap, -, -, htail⟩ := h.cons_inv
  obtain rfl := hswap.eq_of_kept rfl rfl
  exact ⟨us, prev', rfl, htail⟩

/-- A fixed token in front of the second row stands in front of the first one too. -/
theorem Exchange.eq_cons_of_isFixed (h : Exchange renamed prev ts (t' :: ts'))
    (hf : t'.isFixed = true) : ∃ us, ts = t' :: us := by
  cases h with
  | cons hswap _ _ _ =>
    obtain rfl := hswap.eq_of_isFixed hf
    exact ⟨_, rfl⟩

/-- A question about the first token that quantities and names all answer in one way has the same
answer on both sides. -/
theorem Swap.congr {α : Type} (f : Token → α) (a : α) (h : Swap renamed prev t t' next)
    (hf : ∀ u : Token, u.isFixed = false → f u = a) : f t' = f t := by
  by_cases hfixed : t'.isFixed = true
  · rw [h.eq_of_isFixed hfixed]
  · rw [hf t' (by simpa using hfixed)]
    cases h with
    | same => exact (hf t (by simpa using hfixed)).symm
    | span hquantity _ _ => cases t <;> simp [Token.isQuantity] at hquantity <;> exact (hf _ rfl).symm
    | scalar hquantity _ _ =>
      cases t <;> simp [Token.isQuantity] at hquantity <;> exact (hf _ rfl).symm
    | label _ _ _ => exact (hf _ rfl).symm
    | metric _ => exact (hf _ rfl).symm
    | renamed _ hname _ _ _ => cases t <;> simp [Token.isNamed] at hname <;> exact (hf _ rfl).symm

/-- The same of the first of several tokens. -/
theorem Exchange.head_congr {α : Type} (f : List Token → α) (a : α)
    (h : Exchange renamed prev ts ts') (hf : ∀ u us, u.isFixed = false → f (u :: us) = a)
    (hhead : ∀ u us vs, f (u :: us) = f (u :: vs)) : f ts' = f ts := by
  cases h with
  | nil => rfl
  | @cons _ _ t t' ts us hswap _ _ _ =>
    rw [hhead t' us ts]
    exact hswap.congr (fun u => f (u :: ts)) a fun u hu => hf u ts hu

theorem Exchange.opensBody_eq (h : Exchange renamed prev ts ts') :
    opensBody ts' = opensBody ts := by
  refine h.head_congr opensBody false (fun u us hu => ?_) fun _ _ _ => rfl
  unfold opensBody
  cases u with
  | keyword word _ => cases word <;> first | rfl | exact absurd hu (by simp [Token.isFixed])
  | _ => first | rfl | exact absurd hu (by simp [Token.isFixed])

/-! ## 4. What places allow -/

/-- Inside braces a name can only become another one. -/
theorem Swap.identifier_inside {name : String} {next : List Token}
    (h : Swap renamed prev (.identifier name) t' next) (hb : inBraces prev = true) :
    ∃ name', t' = .identifier name' ∧ (name' = name ∨ name' ≠ "__name__") := by
  cases h with
  | same => exact ⟨name, rfl, Or.inl rfl⟩
  | span hq _ _ => exact absurd hq (by simp [Token.isQuantity])
  | scalar hq _ _ => exact absurd hq (by simp [Token.isQuantity])
  | label _ hne _ => exact ⟨_, rfl, Or.inr hne⟩
  | renamed _ _ _ hb' _ => exact absurd hb (by simp [hb'])

/-- Inside braces a name can only come from another one. -/
theorem Swap.identifier_inside_inv {name : String} {next : List Token}
    (h : Swap renamed prev t (.identifier name) next) (hb : inBraces prev = true) :
    ∃ name', t = .identifier name' := by
  cases h with
  | same => exact ⟨name, rfl⟩
  | label _ _ _ => exact ⟨_, rfl⟩
  | renamed _ _ _ hb' _ => exact absurd hb (by simp [hb'])

/-- A quantity stays the same or becomes a sound one, where a length of time is due one with units. -/
theorem Swap.sound_of_isQuantity {next : List Token} (h : Swap renamed prev t t' next)
    (hq : t.isQuantity = true) :
    t' = t ∨ (∃ text, t' = .duration text ∧ (Span.units text).IsSound) ∨
      (t' = .number "1" ∧ inSpan prev = false) := by
  cases h with
  | same => exact Or.inl rfl
  | span _ _ hsound => exact Or.inr (Or.inl ⟨_, rfl, hsound⟩)
  | scalar _ _ hs => exact Or.inr (Or.inr ⟨rfl, hs⟩)
  | label _ _ _ => cases hq
  | metric _ => cases hq
  | renamed _ hn _ _ _ => cases t <;> simp [Token.isQuantity, Token.isNamed] at hq hn

end PanelLint.Promql
