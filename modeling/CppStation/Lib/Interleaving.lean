import CppStation.Lib.Fallible

/-!
# Interleavings of two sequences of steps

When every step of the second sequence can be moved before every step of the
first, each interleaving that succeeds ends where the second sequence followed
by the first ends; so all of them end in the same state.
-/

namespace Interleaving

open Fallible

variable {ε σ α : Type} {step : σ → α → Except ε σ}

/-- `Interleaves xs ys es`: `es` is `xs` and `ys` merged, each in its own order. -/
inductive Interleaves : List α → List α → List α → Prop
  | nil : Interleaves [] [] []
  | left {x : α} {xs ys es : List α} : Interleaves xs ys es → Interleaves (x :: xs) ys (x :: es)
  | right {y : α} {xs ys es : List α} : Interleaves xs ys es → Interleaves xs (y :: ys) (y :: es)

/-- A step `y` after a step `x` can also be made before it. -/
def Moves (step : σ → α → Except ε σ) (x y : α) : Prop :=
  ∀ s s1 s2, step s x = .ok s1 → step s1 y = .ok s2 →
    ∃ t, step s y = .ok t ∧ step t x = .ok s2

theorem run_moves {x : α} {ys : List α} (hmoves : ∀ y ∈ ys, Moves step x y) {s s1 s2 : σ}
    (hx : step s x = .ok s1) (hys : ys.foldlM step s1 = .ok s2) :
    ∃ t, ys.foldlM step s = .ok t ∧ step t x = .ok s2 := by
  induction ys generalizing s s1 with
  | nil =>
    cases hys
    exact ⟨s, rfl, hx⟩
  | cons y ys ih =>
    rw [List.foldlM_cons] at hys
    obtain ⟨u, hy, hrest⟩ := bind_eq_ok.mp hys
    obtain ⟨t, ht, hxt⟩ := hmoves y List.mem_cons_self s s1 u hx hy
    obtain ⟨t', ht', hx'⟩ := ih (fun z hz => hmoves z (List.mem_cons_of_mem y hz)) hxt hrest
    refine ⟨t', ?_, hx'⟩
    rw [List.foldlM_cons, ht, ok_bind, ht']

/-- **Normal form**: the second sequence, then the first. -/
theorem Interleaves.run_sorted {xs ys es : List α} (h : Interleaves xs ys es)
    (hmoves : ∀ x ∈ xs, ∀ y ∈ ys, Moves step x y) {s s' : σ} (hrun : es.foldlM step s = .ok s') :
    (ys ++ xs).foldlM step s = .ok s' := by
  induction h generalizing s with
  | nil => exact hrun
  | @left x xs ys es _ ih =>
    rw [List.foldlM_cons] at hrun
    obtain ⟨s1, hx, hrest⟩ := bind_eq_ok.mp hrun
    have hsorted := ih (fun z hz => hmoves z (List.mem_cons_of_mem x hz)) hrest
    rw [List.foldlM_append] at hsorted
    obtain ⟨s2, hys, hxs⟩ := bind_eq_ok.mp hsorted
    obtain ⟨t, ht, hxt⟩ := run_moves (hmoves x List.mem_cons_self) hx hys
    rw [List.foldlM_append, ht, ok_bind, List.foldlM_cons, hxt, ok_bind, hxs]
  | @right y xs ys es _ ih =>
    rw [List.foldlM_cons] at hrun
    obtain ⟨s1, hy, hrest⟩ := bind_eq_ok.mp hrun
    have hsorted := ih (fun x hx z hz => hmoves x hx z (List.mem_cons_of_mem y hz)) hrest
    rw [List.cons_append, List.foldlM_cons, hy, ok_bind, hsorted]

/-- **All interleavings agree.** -/
theorem Interleaves.run_unique {xs ys es es' : List α} (h : Interleaves xs ys es)
    (h' : Interleaves xs ys es') (hmoves : ∀ x ∈ xs, ∀ y ∈ ys, Moves step x y) {s t t' : σ}
    (hrun : es.foldlM step s = .ok t) (hrun' : es'.foldlM step s = .ok t') : t = t' := by
  have hsorted := h.run_sorted hmoves hrun
  have hsorted' := h'.run_sorted hmoves hrun'
  exact Except.ok.inj (hsorted.symm.trans hsorted')

end Interleaving
