import CppStation.Lib.Fallible

/-!
# Well-nested sequences of entries and returns

An event is an entry (`inl`) or a return (`inr`).  A sequence is well nested to
depth `n` when every entry has its return and at most `n` entries are open at a
time.
-/

namespace Nesting

open Fallible

universe u
variable {σ ε : Type u} {α β : Type u}

inductive Nested : Nat → List (α ⊕ β) → Prop
  | nil (n : Nat) : Nested n []
  | enter {n : Nat} {body rest : List (α ⊕ β)} (a : α) (b : β) :
      Nested n body → Nested (n + 1) rest → Nested (n + 1) (.inl a :: (body ++ .inr b :: rest))

/-- **Nesting rule.**  `R n` says what a sequence of depth `n` restores.  If it is kept by a
matching entry and return around a sequence of depth `n`, then it holds of every well-nested
sequence. -/
theorem Nested.restores {step : σ → α ⊕ β → Except ε σ} {R : Nat → σ → σ → Prop}
    (hrefl : ∀ n s, R n s s) (htrans : ∀ n s₁ s₂ s₃, R n s₁ s₂ → R n s₂ s₃ → R n s₁ s₃)
    (hpair : ∀ n a b s s₁ s₂ s₃, step s (.inl a) = .ok s₁ → R n s₁ s₂ →
      step s₂ (.inr b) = .ok s₃ → R (n + 1) s s₃)
    {n : Nat} {events : List (α ⊕ β)} (h : Nested n events) {s s' : σ}
    (hrun : events.foldlM step s = .ok s') : R n s s' := by
  induction h generalizing s s' with
  | nil n =>
    cases hrun
    exact hrefl n s
  | @enter n body rest a b _ _ ihBody ihRest =>
    rw [List.foldlM_cons, bind_eq_ok] at hrun
    obtain ⟨s₁, hs₁, hrun⟩ := hrun
    rw [List.foldlM_append, bind_eq_ok] at hrun
    obtain ⟨s₂, hs₂, hrun⟩ := hrun
    rw [List.foldlM_cons, bind_eq_ok] at hrun
    obtain ⟨s₃, hs₃, hrun⟩ := hrun
    exact htrans _ s s₃ s' (hpair n a b s s₁ s₂ s₃ hs₁ (ihBody hs₂) hs₃) (ihRest hrun)

end Nesting
