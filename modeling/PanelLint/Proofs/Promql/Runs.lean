import PanelLint.Promql.Lexer
/-!
# Runs of the lexer

A run is a row of steps from one state and text to another, with the tokens that they give.  The lexer
is deterministic: of two runs from the same place, the one that leaves less goes on from where the
other one ends (`Run.split`).
-/

namespace PanelLint.Promql.Lexer

/-- **A row of steps.**  From a state before a text to a state before what is left of it. -/
inductive Run : State → List Char → List Token → State → List Char → Prop
  | done {s : State} {cs : List Char} : Run s cs [] s cs
  | step {s s₁ s' : State} {c : Char} {cs cs₁ rest : List Char} {t : Option Token}
      {ts : List Token} : step s c cs = .ok (t, s₁, cs₁) → Run s₁ cs₁ ts s' rest →
      Run s (c :: cs) (t.toList ++ ts) s' rest

variable {s s₁ s₂ s' : State} {cs cs₁ cs₂ rest : List Char} {ts ts₁ ts₂ : List Token}

theorem Run.trans (h : Run s cs ts s₁ cs₁) (h' : Run s₁ cs₁ ts₁ s' rest) :
    Run s cs (ts ++ ts₁) s' rest := by
  induction h with
  | done => exact h'
  | step hstep _ ih =>
    rw [List.append_assoc]
    exact Run.step hstep (ih h')

/-- One more step at the end of a run. -/
theorem Run.snoc {c : Char} {t : Option Token} (h : Run s cs ts s₁ (c :: cs₁))
    (hstep : Lexer.step s₁ c cs₁ = .ok (t, s', rest)) : Run s cs (ts ++ t.toList) s' rest := by
  have hone : Run s₁ (c :: cs₁) (t.toList ++ []) s' rest := Run.step hstep Run.done
  rw [List.append_nil] at hone
  exact h.trans hone

theorem Run.length_le (h : Run s cs ts s' rest) : rest.length ≤ cs.length := by
  induction h with
  | done => exact Nat.le_refl _
  | step hstep _ ih =>
    have := step_length hstep
    rw [List.length_cons]
    omega

/-- **Runs from one place lie on one line.** -/
theorem Run.split (h₁ : Run s cs ts₁ s₁ cs₁) (h₂ : Run s cs ts₂ s₂ cs₂)
    (hle : cs₂.length ≤ cs₁.length) : ∃ ts, Run s₁ cs₁ ts s₂ cs₂ ∧ ts₂ = ts₁ ++ ts := by
  induction h₁ generalizing ts₂ with
  | done => exact ⟨ts₂, h₂, rfl⟩
  | @step s s' s₁ c cs cs' cs₁ t ts₁ hstep hrun ih =>
    cases h₂ with
    | done =>
      have h1 := step_length hstep
      have h2 := hrun.length_le
      rw [List.length_cons] at hle
      omega
    | step hstep' hrun' =>
      rw [hstep] at hstep'
      cases hstep'
      obtain ⟨ts, hts, rfl⟩ := ih hrun' hle
      exact ⟨ts, hts, by rw [List.append_assoc]⟩

/-- Two runs that leave equally much are the same. -/
theorem Run.unique (h₁ : Run s cs ts₁ s₁ cs₁) (h₂ : Run s cs ts₂ s₂ cs₂)
    (hlen : cs₂.length = cs₁.length) : ts₂ = ts₁ ∧ s₂ = s₁ ∧ cs₂ = cs₁ := by
  obtain ⟨ts, hts, rfl⟩ := h₁.split h₂ (Nat.le_of_eq hlen)
  cases hts with
  | done => exact ⟨List.append_nil _, rfl, rfl⟩
  | step hstep hrun =>
    have h1 := step_length hstep
    have h2 := hrun.length_le
    rw [List.length_cons] at hlen
    omega

/-- A run that ends behind the first character has taken the first step. -/
theorem Run.length_le_of_step {c : Char} {t : Option Token} (h : Run s (c :: cs) ts s' rest)
    (hstep : Lexer.step s c cs = .ok (t, s₁, cs₁)) (hlt : rest.length ≤ cs.length) :
    rest.length ≤ cs₁.length := by
  cases h with
  | done =>
    rw [List.length_cons] at hlt
    omega
  | step hstep' hrun =>
    rw [hstep] at hstep'
    cases hstep'
    exact hrun.length_le

/-- A number of steps, computed. -/
def steps : Nat → State → List Char → Option (List Token × State × List Char)
  | 0, s, cs => some ([], s, cs)
  | _ + 1, _, [] => none
  | n + 1, s, c :: cs =>
    match Lexer.step s c cs with
    | .error _ => none
    | .ok (t, s', rest) => (steps n s' rest).map fun x => (t.toList ++ x.1, x.2)

theorem run_of_steps {n : Nat} (h : steps n s cs = some (ts, s', rest)) : Run s cs ts s' rest := by
  induction n generalizing s cs ts with
  | zero =>
    cases h
    exact Run.done
  | succ n ih =>
    cases cs with
    | nil => cases h
    | cons c cs =>
      unfold steps at h
      split at h
      · cases h
      · next hstep =>
        obtain ⟨⟨us, s₁, cs₁⟩, hsteps, heq⟩ := Option.map_eq_some_iff.mp h
        cases heq
        exact Run.step hstep (ih hsteps)

/-! ## The tokens of a run -/

theorem tokensFrom_step {c : Char} {t : Option Token}
    (h : Lexer.step s c cs = .ok (t, s', rest)) :
    tokensFrom s (c :: cs) = (tokensFrom s' rest).map (t.toList ++ ·) := by
  rw [tokensFrom]
  split
  · next h' =>
    rw [h] at h'
    cases h'
  · next h' =>
    rw [h] at h'
    cases h'
    rfl

/-- A text that has tokens begins with a step. -/
theorem exists_step_of_tokensFrom {c : Char} (h : tokensFrom s (c :: cs) = .ok ts) :
    ∃ t s' rest us, Lexer.step s c cs = .ok (t, s', rest) ∧ tokensFrom s' rest = .ok us ∧
      ts = t.toList ++ us := by
  cases hstep : Lexer.step s c cs with
  | error e =>
    rw [tokensFrom] at h
    split at h
    · cases h
    · next h' =>
      rw [hstep] at h'
      cases h'
  | ok x =>
    obtain ⟨t, s', rest⟩ := x
    rw [tokensFrom_step hstep] at h
    cases hr : tokensFrom s' rest with
    | error e => rw [hr] at h; cases h
    | ok us =>
      rw [hr] at h
      cases h
      exact ⟨t, s', rest, us, rfl, hr, rfl⟩

/-- The tokens of a text are those of a run and of what it leaves. -/
theorem Run.tokensFrom_eq (h : Run s cs ts s' rest) :
    tokensFrom s cs = (tokensFrom s' rest).map (ts ++ ·) := by
  induction h with
  | @done s cs => cases tokensFrom s cs <;> rfl
  | step hstep _ ih =>
    rw [tokensFrom_step hstep, ih]
    cases tokensFrom _ _ with
    | error e => rfl
    | ok us => exact congrArg Except.ok (List.append_assoc _ _ us).symm

end PanelLint.Promql.Lexer
