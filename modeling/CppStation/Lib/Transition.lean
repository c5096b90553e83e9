import Mathlib.Logic.Relation

/-!
# Transition systems

States, a step relation, the states reachable from a start, runs as indexed
sequences of states, and the rules used for them: an invariant kept by every
step holds of every reachable state, a map that commutes with the steps carries
runs to runs, and a run can be followed step by step.
-/

namespace Transition

variable {σ τ : Type*}

/-- `s` can be reached from `start` by finitely many steps. -/
def Reachable (step : σ → σ → Prop) (start s : σ) : Prop := Relation.ReflTransGen step start s

theorem Reachable.refl (step : σ → σ → Prop) (start : σ) : Reachable step start start :=
  Relation.ReflTransGen.refl

theorem Reachable.tail {step : σ → σ → Prop} {start s s' : σ} (h : Reachable step start s)
    (hs : step s s') : Reachable step start s' :=
  Relation.ReflTransGen.tail h hs

/-- **Invariant rule.** -/
theorem Reachable.invariant {step : σ → σ → Prop} {start s : σ} {P : σ → Prop}
    (hstart : P start) (hstep : ∀ s s', P s → step s s' → P s')
    (h : Reachable step start s) : P s := by
  induction h with
  | refl => exact hstart
  | tail _ hs ih => exact hstep _ _ ih hs

/-- The states `s 0, …, s n` of a run from `start`. -/
structure IsRun (step : σ → σ → Prop) (start : σ) (n : Nat) (s : Nat → σ) : Prop where
  start : s 0 = start
  next : ∀ i < n, step (s i) (s (i + 1))

theorem IsRun.reachable {step : σ → σ → Prop} {start : σ} {n : Nat} {s : Nat → σ}
    (h : IsRun step start n s) {i : Nat} (hi : i ≤ n) : Reachable step start (s i) := by
  induction i with
  | zero =>
    rw [h.start]
    exact Reachable.refl step start
  | succ i ih => exact (ih (by omega)).tail (h.next i hi)

/-- **Simulation rule.**  A map that carries every step from a state with the
invariant `P` to a step carries runs to runs. -/
theorem IsRun.map {step : σ → σ → Prop} {step' : τ → τ → Prop} {start : σ} {n : Nat}
    {s : Nat → σ} {P : σ → Prop} (f : σ → τ) (h : IsRun step start n s)
    (hinv : ∀ i ≤ n, P (s i))
    (hsim : ∀ s s', P s → step s s' → step' (f s) (f s')) :
    IsRun step' (f start) n (fun i => f (s i)) where
  start := by rw [h.start]
  next i hi := hsim _ _ (hinv i (by omega)) (h.next i hi)

/-- **Lockstep rule.**  If every step of a run can be followed by a step that keeps the states
related, then the run can be followed as a whole. -/
theorem IsRun.lockstep {step : σ → σ → Prop} {step' : τ → τ → Prop} {start : σ} {n : Nat}
    {s : Nat → σ} {R : Nat → σ → τ → Prop} {start' : τ} (h : IsRun step start n s)
    (hstart : R 0 start start')
    (hsim : ∀ i < n, ∀ t, R i (s i) t → ∃ t', step' t t' ∧ R (i + 1) (s (i + 1)) t') :
    ∃ t, IsRun step' start' n t ∧ ∀ i ≤ n, R i (s i) (t i) := by
  induction n with
  | zero =>
    refine ⟨fun _ => start', ⟨rfl, fun i hi => absurd hi (Nat.not_lt_zero i)⟩, fun i hi => ?_⟩
    obtain rfl := Nat.le_zero.mp hi
    rw [h.start]
    exact hstart
  | succ n ih =>
    obtain ⟨t, ht, hR⟩ := ih ⟨h.start, fun i hi => h.next i (by omega)⟩
      fun i hi => hsim i (by omega)
    obtain ⟨last, hlast, hRlast⟩ := hsim n (by omega) (t n) (hR n (Nat.le_refl n))
    let t' : Nat → τ := fun i => if i ≤ n then t i else last
    have hold : ∀ i ≤ n, t' i = t i := fun i hi => if_pos hi
    have hnew : t' (n + 1) = last := if_neg (Nat.not_succ_le_self n)
    refine ⟨t', ⟨(hold 0 (Nat.zero_le n)).trans ht.start, fun i hi => ?_⟩, fun i hi => ?_⟩
    · rcases Nat.lt_succ_iff_lt_or_eq.mp hi with hlt | rfl
      · rw [hold i (by omega), hold (i + 1) (by omega)]
        exact ht.next i hlt
      · rw [hold i (Nat.le_refl i), hnew]
        exact hlast
    · rcases Nat.le_succ_iff.mp hi with hle | rfl
      · rw [hold i hle]
        exact hR i hle
      · rw [hnew]
        exact hRlast

end Transition
