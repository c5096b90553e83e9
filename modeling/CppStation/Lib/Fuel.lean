import CppStation.Lib.Fallible

/-!
# Computations with a bound

A loop without a bound of its own is given one, and fails with `stop` when it
is too small.  Such a computation has a result of its own if every larger bound
gives the same one; it may fail late, but it succeeds within the bound `N` or
not at all.
-/

namespace Fuel

open Fallible

universe u
variable {ε α β : Type u} {stop : ε} {N : Nat} {f g : Nat → Except ε α}

structure Settles (stop : ε) (N : Nat) (f : Nat → Except ε α) : Prop where
  grows : ∀ n k, n ≤ k → f n ≠ .error stop → f k = f n
  enough : ∀ n a, f n = .ok a → f N = .ok a

theorem settles_const (x : Except ε α) : Settles stop N fun _ => x :=
  ⟨fun _ _ _ _ => rfl, fun _ _ h => h⟩

theorem Settles.bind {h : α → Nat → Except ε β} (hf : Settles stop N f)
    (hh : ∀ a, Settles stop N (h a)) : Settles stop N fun n => f n >>= fun a => h a n := by
  constructor
  · intro n k hle hne
    have hfirst : f n ≠ .error stop := fun hfail => hne (congrArg (· >>= fun a => h a n) hfail)
    simp only [hf.grows n k hle hfirst]
    cases ha : f n with
    | error e => rfl
    | ok a =>
      simp only [ha, ok_bind] at hne ⊢
      exact (hh a).grows n k hle hne
  · intro n b hb
    obtain ⟨a, ha, hlast⟩ := bind_eq_ok.mp hb
    exact bind_eq_ok.mpr ⟨a, hf.enough n a ha, (hh a).enough n b hlast⟩

/-- The other errors can be renamed. -/
theorem Settles.mapError {rename : ε → ε} (hf : Settles stop N f) (hstop : rename stop = stop) :
    Settles stop N fun n => (f n).mapError rename := by
  constructor
  · intro n k hle hne
    have hfirst : f n ≠ .error stop := fun hfail =>
      hne ((congrArg (Except.mapError rename) hfail).trans (congrArg Except.error hstop))
    exact congrArg (Except.mapError rename) (hf.grows n k hle hfirst)
  · intro n a ha
    have hok : f n = .ok a := by
      cases hfn : f n with
      | error e =>
        rw [hfn] at ha
        cases ha
      | ok b =>
        rw [hfn] at ha
        exact congrArg Except.ok (Except.ok.inj ha)
    rw [hf.enough n a hok]
    rfl

theorem settles_ite {p : Prop} [Decidable p] (hf : Settles stop N f) (hg : Settles stop N g) :
    Settles stop N fun n => if p then f n else g n := by
  split
  · exact hf
  · exact hg

/-- **Success** does not depend on the bound. -/
theorem Settles.ok_iff (hf : Settles stop N f) {a : α} : (∃ n, f n = .ok a) ↔ f N = .ok a :=
  ⟨fun ⟨n, h⟩ => hf.enough n a h, fun h => ⟨N, h⟩⟩

/-- A result is reached with every larger bound. -/
theorem Settles.of_le (hf : Settles stop N f) {n k : Nat} (hle : n ≤ k) {x : Except ε α}
    (h : f n = x) (hx : x ≠ .error stop) : f k = x := by
  subst h
  exact hf.grows n k hle hx

end Fuel
