import Mathlib.Logic.Basic

/-!
# Computations that may fail

Rules for `Except` programs written with `do`: when a sequence succeeds, when
it fails, and what a fold over a list of inputs preserves.
-/

namespace Fallible

universe u
variable {ε : Type u} {α β : Type u}

@[simp] theorem ok_bind (a : α) (f : α → Except ε β) : (Except.ok a >>= f) = f a := rfl

@[simp] theorem error_bind (e : ε) (f : α → Except ε β) :
    ((Except.error e : Except ε α) >>= f) = .error e := rfl

theorem error_ne_ok (e : ε) (a : α) : (Except.error e : Except ε α) ≠ .ok a := by
  intro h
  cases h

theorem error_no_result (e : ε) : ¬ ∃ a : α, (Except.error e : Except ε α) = .ok a := by
  rintro ⟨a, h⟩
  exact error_ne_ok e a h

/-- A sequence succeeds exactly when both of its parts do. -/
theorem bind_eq_ok {x : Except ε α} {f : α → Except ε β} {b : β} :
    (x >>= f) = .ok b ↔ ∃ a, x = .ok a ∧ f a = .ok b := by
  cases x with
  | error e => simp
  | ok a => simp

/-- A sequence fails in its first part or, after it, in its second. -/
theorem bind_eq_error {x : Except ε α} {f : α → Except ε β} {e : ε} :
    (x >>= f) = .error e ↔ x = .error e ∨ ∃ a, x = .ok a ∧ f a = .error e := by
  cases x with
  | error e' => simp
  | ok a => simp

theorem toOption_eq_some {x : Except ε α} {a : α} : x.toOption = some a ↔ x = .ok a := by
  cases x with
  | error e => exact iff_of_false (fun h => Option.some_ne_none a h.symm) (error_ne_ok e a)
  | ok b => exact ⟨fun h => congrArg _ (Option.some.inj h), fun h => congrArg _ (Except.ok.inj h)⟩

/-- The computation succeeds with a result that passes the test. -/
def okAnd (x : Except ε α) (test : α → Bool) : Bool :=
  match x with
  | .ok a => test a
  | .error _ => false

@[simp] theorem okAnd_ok (a : α) (test : α → Bool) :
    okAnd (Except.ok a : Except ε α) test = test a := rfl

theorem exists_of_okAnd {x : Except ε α} {test : α → Bool} (h : okAnd x test = true) :
    ∃ a, x = .ok a ∧ test a = true := by
  cases x with
  | error e => cases h
  | ok a => exact ⟨a, rfl, h⟩

/-- What every step preserves, a successful fold over inputs preserves. -/
theorem foldlM_invariant {step : α → β → Except ε α} {P : α → Prop}
    (hstep : ∀ s x s', P s → step s x = .ok s' → P s') (xs : List β) {s s' : α}
    (hs : P s) (h : xs.foldlM step s = .ok s') : P s' := by
  induction xs generalizing s with
  | nil =>
    cases h
    exact hs
  | cons x xs ih =>
    rw [List.foldlM_cons] at h
    obtain ⟨t, ht, hrest⟩ := bind_eq_ok.mp h
    exact ih (hstep s x t hs ht) hrest

/-! ## Failures that cannot happen -/

/-- The computation does not fail with a bad error. -/
def Avoids (bad : ε → Prop) (x : Except ε α) : Prop := ∀ e, x = .error e → ¬ bad e

theorem avoids_ok {bad : ε → Prop} (a : α) : Avoids bad (.ok a) := fun _ h => nomatch h

theorem avoids_error {bad : ε → Prop} {e : ε} (h : ¬ bad e) :
    Avoids bad (.error e : Except ε α) := by
  intro e' he
  cases he
  exact h

theorem Avoids.bind {bad : ε → Prop} {x : Except ε α} {f : α → Except ε β} (hx : Avoids bad x)
    (hf : ∀ a, x = .ok a → Avoids bad (f a)) : Avoids bad (x >>= f) := by
  intro e he
  rcases bind_eq_error.mp he with hfail | ⟨a, ha, hfail⟩
  · exact hx e hfail
  · exact hf a ha e hfail

/-- A computation whose result is only repackaged. -/
theorem Avoids.map {bad : ε → Prop} {x : Except ε α} {f : α → β} (hx : Avoids bad x) :
    Avoids bad (x >>= fun a => .ok (f a)) :=
  hx.bind fun _ _ => avoids_ok _

theorem avoids_ite {bad : ε → Prop} {p : Prop} [Decidable p] {x y : Except ε α}
    (hx : p → Avoids bad x) (hy : ¬ p → Avoids bad y) : Avoids bad (if p then x else y) := by
  split
  · next h => exact hx h
  · next h => exact hy h

theorem avoids_foldlM {bad : ε → Prop} {step : α → β → Except ε α}
    (hstep : ∀ s x, Avoids bad (step s x)) (xs : List β) (s : α) :
    Avoids bad (xs.foldlM step s) := by
  induction xs generalizing s with
  | nil => exact avoids_ok s
  | cons x xs ih =>
    rw [List.foldlM_cons]
    exact (hstep s x).bind fun t _ => ih t

/-! ## Two computations that agree -/

/-- Both fail with the same error, or both succeed with related results. -/
inductive Relates (R : α → β → Prop) : Except ε α → Except ε β → Prop
  | error (e : ε) : Relates R (.error e) (.error e)
  | ok {a : α} {b : β} : R a b → Relates R (.ok a) (.ok b)

theorem Relates.bind {α' β' : Type u} {R : α → β → Prop} {S : α' → β' → Prop} {x : Except ε α}
    {y : Except ε β} {f : α → Except ε α'} {f' : β → Except ε β'} (h : Relates R x y)
    (hf : ∀ a b, x = .ok a → R a b → Relates S (f a) (f' b)) : Relates S (x >>= f) (y >>= f') := by
  cases h with
  | error e => exact .error e
  | ok hR => exact hf _ _ rfl hR

theorem Relates.imp {R S : α → β → Prop} {x : Except ε α} {y : Except ε β} (h : Relates R x y)
    (hRS : ∀ a b, x = .ok a → y = .ok b → R a b → S a b) : Relates S x y := by
  cases h with
  | error e => exact .error e
  | ok hR => exact .ok (hRS _ _ rfl rfl hR)

theorem Relates.flip {R : α → β → Prop} {x : Except ε α} {y : Except ε β} (h : Relates R x y) :
    Relates (fun b a => R a b) y x := by
  cases h with
  | error e => exact .error e
  | ok hR => exact .ok hR

/-- **Simulation rule**: what every input keeps related, a list of inputs keeps related. -/
theorem Relates.foldlM {γ : Type u} {R : α → β → Prop} {step : α → γ → Except ε α}
    {step' : β → γ → Except ε β} (hstep : ∀ a b c, R a b → Relates R (step a c) (step' b c))
    (cs : List γ) {a : α} {b : β} (h : R a b) :
    Relates R (cs.foldlM step a) (cs.foldlM step' b) := by
  induction cs generalizing a b with
  | nil => exact .ok h
  | cons c cs ih =>
    rw [List.foldlM_cons, List.foldlM_cons]
    exact (hstep a b c h).bind fun _ _ _ hR => ih hR

end Fallible
