import CppStation.Lib.Fallible

/-!
# Counted triples

Total correctness for a step function that may fail: from every state with `P`
exactly `n` steps succeed and end in a state with `Q`.  The rules follow the
shape of the code; a loop is given by an invariant that counts the passes left.
-/

namespace Triple

open Fallible

universe u
variable {ε σ : Type u} {step : σ → Except ε σ} {P Q R : σ → Prop} {n k : Nat}

/-- `n` steps. -/
def steps (step : σ → Except ε σ) : Nat → σ → Except ε σ
  | 0, s => .ok s
  | n + 1, s => step s >>= steps step n

theorem steps_add (n k : Nat) (s : σ) :
    steps step (n + k) s = steps step n s >>= steps step k := by
  induction n generalizing s with
  | zero => rw [Nat.zero_add, steps, ok_bind]
  | succ n ih =>
    rw [Nat.succ_add, steps, steps]
    cases step s with
    | error e => rfl
    | ok s' => exact ih s'

/-- From `P`, exactly `n` steps lead to `Q`. -/
def Holds (step : σ → Except ε σ) (P : σ → Prop) (n : Nat) (Q : σ → Prop) : Prop :=
  ∀ s, P s → ∃ s', steps step n s = .ok s' ∧ Q s'

theorem Holds.done : Holds step P 0 P := fun s hs => ⟨s, rfl, hs⟩

/-- **Step rule.** -/
theorem Holds.single (h : ∀ s, P s → ∃ s', step s = .ok s' ∧ Q s') : Holds step P 1 Q := by
  intro s hs
  obtain ⟨s', hstep, hq⟩ := h s hs
  refine ⟨s', ?_, hq⟩
  rw [steps, hstep]
  rfl

/-- **Sequence rule.** -/
theorem Holds.seq (h : Holds step P n Q) (h' : Holds step Q k R) : Holds step P (n + k) R := by
  intro s hs
  obtain ⟨s1, hsteps, hq⟩ := h s hs
  obtain ⟨s2, hsteps', hr⟩ := h' s1 hq
  refine ⟨s2, ?_, hr⟩
  rw [steps_add, hsteps, ok_bind, hsteps']

/-- **Existential rule.** -/
theorem Holds.ex {α : Type*} {P : α → σ → Prop} (h : ∀ a, Holds step (P a) n Q) :
    Holds step (fun s => ∃ a, P a s) n Q := by
  rintro s ⟨a, hs⟩
  exact h a s hs

/-- **Loop rule**, for a loop with its test at the end: `I k` holds when `k` passes are left, and
the last pass establishes `Q`. -/
theorem Holds.loop {I : Nat → σ → Prop} {cost : Nat}
    (hmore : ∀ k, 0 < k → Holds step (I (k + 1)) cost (I k)) (hlast : Holds step (I 1) cost Q)
    (hk : 0 < k) : Holds step (I k) (k * cost) Q := by
  induction k with
  | zero => exact absurd hk (Nat.lt_irrefl 0)
  | succ k ih =>
    rcases Nat.eq_zero_or_pos k with rfl | hpos
    · rw [Nat.one_mul]
      exact hlast
    · rw [Nat.succ_mul, Nat.add_comm (k * cost)]
      exact (hmore k hpos).seq (ih hpos)

end Triple
