import Mathlib.Data.Fintype.EquivFin
import Mathlib.Data.List.Basic
import Mathlib.Logic.Function.Iterate

/-!
# Walks along a chain

The entries of a chain are found one from the other by `next`; a walk collects
what each entry carries, up to and including the first entry that is `last`.
Two walks of one chain with different end tests are compared by `visited_eq_iff`.
A walk that ends meets no position twice (`EndsAt.lt_card`).
-/

namespace Chain

variable {α β : Type} (next : α → α) (visit : α → List β) (last : α → Bool)

/-- What the entries at positions `0, …, n` from `a` carry. -/
def visited : Nat → α → List β
  | 0, a => visit a
  | n + 1, a => visit a ++ visited n (next a)

/-- The first entry that is `last` is at position `n`. -/
structure EndsAt (a : α) (n : Nat) : Prop where
  atEnd : last (next^[n] a) = true
  before : ∀ i < n, last (next^[i] a) = false

/-- The walk, with a bound on the number of entries. -/
def walk : Nat → α → Option (List β)
  | 0, _ => none
  | fuel + 1, a => if last a then some (visit a) else (walk fuel (next a)).map (visit a ++ ·)

variable {next visit last}

theorem EndsAt.zero {a : α} (h : last a = true) : EndsAt next last a 0 :=
  ⟨h, fun _ hi => absurd hi (Nat.not_lt_zero _)⟩

theorem endsAt_succ_iff {a : α} {n : Nat} :
    EndsAt next last a (n + 1) ↔ last a = false ∧ EndsAt next last (next a) n := by
  constructor
  · intro h
    exact ⟨h.before 0 (Nat.succ_pos n), h.atEnd, fun i hi => h.before (i + 1) (Nat.succ_lt_succ hi)⟩
  · rintro ⟨hfirst, h⟩
    refine ⟨h.atEnd, fun i hi => ?_⟩
    cases i with
    | zero => exact hfirst
    | succ i => exact h.before i (Nat.lt_of_succ_lt_succ hi)

/-- **The walk** collects the entries up to the first that is `last`. -/
theorem walk_eq_some_iff {fuel : Nat} {a : α} {out : List β} :
    walk next visit last fuel a = some out ↔
      ∃ n < fuel, EndsAt next last a n ∧ visited next visit n a = out := by
  induction fuel generalizing a out with
  | zero =>
    constructor
    · intro h
      cases h
    · rintro ⟨n, hn, -⟩
      exact absurd hn (Nat.not_lt_zero n)
  | succ fuel ih =>
    simp only [walk]
    cases hlast : last a with
    | true =>
      constructor
      · intro h
        exact ⟨0, Nat.succ_pos fuel, .zero hlast, Option.some.inj h⟩
      · rintro ⟨n, -, hn, rfl⟩
        cases n with
        | zero => rfl
        | succ n =>
          rw [(endsAt_succ_iff.mp hn).1] at hlast
          cases hlast
    | false =>
      rw [if_neg Bool.false_ne_true, Option.map_eq_some_iff]
      constructor
      · rintro ⟨rest, hrest, rfl⟩
        obtain ⟨n, hn, hends, rfl⟩ := ih.mp hrest
        exact ⟨n + 1, Nat.succ_lt_succ hn, endsAt_succ_iff.mpr ⟨hlast, hends⟩, rfl⟩
      · rintro ⟨n, hn, hends, rfl⟩
        cases n with
        | zero =>
          rw [show last a = true from hends.atEnd] at hlast
          cases hlast
        | succ n =>
          exact ⟨_, ih.mpr ⟨n, Nat.lt_of_succ_lt_succ hn, (endsAt_succ_iff.mp hends).2, rfl⟩, rfl⟩

theorem visited_eq_flatMap (n : Nat) (a : α) :
    visited next visit n a = (List.range (n + 1)).flatMap fun i => visit (next^[i] a) := by
  induction n generalizing a with
  | zero => simp [visited]
  | succ n ih =>
    rw [visited, ih, List.range_succ_eq_map (n := n + 1), List.flatMap_cons, List.flatMap_map]
    rfl

theorem visited_add (m k : Nat) (a : α) :
    visited next visit (m + (k + 1)) a =
      visited next visit m a ++ visited next visit k (next^[m + 1] a) := by
  induction m generalizing a with
  | zero =>
    rw [Nat.zero_add]
    rfl
  | succ m ih =>
    rw [Nat.succ_add, visited, ih, visited, List.append_assoc, ← Function.iterate_succ_apply]

theorem visited_eq_nil_iff {k : Nat} {a : α} :
    visited next visit k a = [] ↔ ∀ i ≤ k, visit (next^[i] a) = [] := by
  induction k generalizing a with
  | zero =>
    constructor
    · intro h i hi
      obtain rfl := Nat.le_zero.mp hi
      exact h
    · intro h
      exact h 0 (Nat.le_refl 0)
  | succ k ih =>
    rw [visited, List.append_eq_nil_iff, ih]
    constructor
    · rintro ⟨hfirst, hrest⟩ i hi
      cases i with
      | zero => exact hfirst
      | succ i => exact hrest i (Nat.le_of_succ_le_succ hi)
    · intro h
      exact ⟨h 0 (Nat.zero_le _), fun i hi => h (i + 1) (Nat.succ_le_succ hi)⟩

/-- The entries after position `m` add nothing exactly when they carry nothing. -/
theorem visited_eq_iff_of_le {m n : Nat} (h : m ≤ n) {a : α} :
    visited next visit m a = visited next visit n a ↔
      ∀ i, m < i → i ≤ n → visit (next^[i] a) = [] := by
  obtain ⟨k, rfl⟩ := Nat.exists_eq_add_of_le h
  cases k with
  | zero =>
    constructor
    · intro _ i hlt hle
      omega
    · intro _
      rfl
  | succ k =>
    rw [visited_add, List.self_eq_append_right, visited_eq_nil_iff]
    constructor
    · intro hnil i hlt hle
      have hi := hnil (i - (m + 1)) (by omega)
      rwa [← Function.iterate_add_apply, Nat.sub_add_cancel hlt] at hi
    · intro hnil i hi
      rw [← Function.iterate_add_apply]
      exact hnil _ (by omega) (by omega)

/-- **Two ends of one chain** give the same walk exactly when the entries between carry nothing. -/
theorem visited_eq_iff {m n : Nat} {a : α} :
    visited next visit m a = visited next visit n a ↔
      ∀ i, min m n < i → i ≤ max m n → visit (next^[i] a) = [] := by
  rcases Nat.le_total m n with h | h
  · rw [Nat.min_eq_left h, Nat.max_eq_right h]
    exact visited_eq_iff_of_le h
  · rw [Nat.min_eq_right h, Nat.max_eq_left h, eq_comm]
    exact visited_eq_iff_of_le h

/-! ## The length of a walk -/

/-- A walk that came back to a position would never end. -/
theorem EndsAt.iterate_ne {a : α} {n i j : Nat} (h : EndsAt next last a n) (hij : i < j)
    (hj : j ≤ n) : next^[i] a ≠ next^[j] a := by
  intro heq
  have hback : next^[n - (j - i)] a = next^[n] a := by
    have hi : n - (j - i) = (n - j) + i := by omega
    have hn : n = (n - j) + j := by omega
    rw [hi, Function.iterate_add_apply, heq, ← Function.iterate_add_apply, ← hn]
  have hlast := h.before (n - (j - i)) (by omega)
  rw [hback, h.atEnd] at hlast
  cases hlast

/-- **A walk that ends** is shorter than the number of positions it can meet. -/
theorem EndsAt.lt_card {a : α} {n N : Nat} (h : EndsAt next last a n) (index : α → Nat)
    (hlt : ∀ i ≤ n, index (next^[i] a) < N)
    (hinj : ∀ i ≤ n, ∀ j ≤ n, index (next^[i] a) = index (next^[j] a) →
      next^[i] a = next^[j] a) : n < N := by
  let f : Fin (n + 1) → Fin N := fun i => ⟨index (next^[i] a), hlt i (Nat.le_of_lt_succ i.isLt)⟩
  have hf : Function.Injective f := by
    intro i j hij
    have heq := hinj i (Nat.le_of_lt_succ i.isLt) j (Nat.le_of_lt_succ j.isLt)
      (congrArg Fin.val hij)
    rcases Nat.lt_trichotomy i j with hlt | hsame | hlt
    · exact absurd heq (h.iterate_ne hlt (Nat.le_of_lt_succ j.isLt))
    · exact Fin.ext hsame
    · exact absurd heq.symm (h.iterate_ne hlt (Nat.le_of_lt_succ i.isLt))
  have hcard := Fintype.card_le_of_injective f hf
  rwa [Fintype.card_fin, Fintype.card_fin] at hcard

/-- The bound on the number of entries does not matter once it is large enough. -/
theorem walk_mono {fuel bound : Nat} {a : α} {out : List β}
    (h : walk next visit last fuel a = some out)
    (hbound : ∀ n, EndsAt next last a n → n < bound) :
    walk next visit last bound a = some out := by
  obtain ⟨n, -, hends, hout⟩ := walk_eq_some_iff.mp h
  exact walk_eq_some_iff.mpr ⟨n, hbound n hends, hends, hout⟩

/-- With a bound of fewer entries there is no walk. -/
theorem EndsAt.walk_eq_none {a : α} {n fuel : Nat} (h : EndsAt next last a n) (hfuel : fuel ≤ n) :
    walk next visit last fuel a = none := by
  refine Option.eq_none_iff_forall_ne_some.mpr fun out hout => ?_
  obtain ⟨m, hm, hends, -⟩ := walk_eq_some_iff.mp hout
  have hlast := h.before m (Nat.lt_of_lt_of_le hm hfuel)
  rw [hends.atEnd] at hlast
  cases hlast

/-! ## Chains given by their positions -/

variable (next last)

/-- The positions are those of a whole chain, in order. -/
def Linked : List α → Prop
  | [] => False
  | [a] => last a = true
  | a :: b :: as => last a = false ∧ next a = b ∧ Linked (b :: as)

variable {next last}

/-- The walk along them. -/
theorem Linked.walk {a : α} {as : List α} (h : Linked next last (a :: as)) {fuel : Nat}
    (hfuel : as.length < fuel) :
    Chain.walk next visit last fuel a = some ((a :: as).flatMap visit) := by
  induction as generalizing a fuel with
  | nil =>
    obtain ⟨bound, rfl⟩ := Nat.exists_eq_add_of_lt hfuel
    have hlast : last a = true := h
    rw [Chain.walk, if_pos hlast, List.flatMap_cons, List.flatMap_nil, List.append_nil]
  | cons b as ih =>
    obtain ⟨bound, rfl⟩ := Nat.exists_eq_add_of_lt hfuel
    obtain ⟨hlast, hnext, hrest⟩ := h
    have hbound : as.length < (b :: as).length + bound := by
      rw [List.length_cons]
      omega
    rw [Chain.walk, hlast, if_neg Bool.false_ne_true, hnext, ih hrest hbound, List.flatMap_cons]
    rfl

theorem EndsAt.linked {a : α} {n : Nat} (h : EndsAt next last a n) :
    Linked next last ((List.range (n + 1)).map fun i => next^[i] a) := by
  induction n generalizing a with
  | zero => exact h.atEnd
  | succ n ih =>
    obtain ⟨hlast, hrest⟩ := endsAt_succ_iff.mp h
    have htail := ih hrest
    rw [List.range_succ_eq_map, List.map_cons] at htail
    rw [List.range_succ_eq_map, List.map_cons, List.range_succ_eq_map, List.map_cons,
      List.map_cons]
    refine ⟨hlast, rfl, ?_⟩
    rw [List.map_map, List.map_map]
    rw [List.map_map] at htail
    exact htail

section

variable {next' : α → α} {last' : α → Bool}

theorem Linked.congr {as : List α} (h : Linked next last as)
    (hsame : ∀ a ∈ as, next' a = next a ∧ last' a = last a) : Linked next' last' as := by
  induction as with
  | nil => exact h
  | cons a as ih =>
    obtain ⟨hnext, hlast⟩ := hsame a List.mem_cons_self
    cases as with
    | nil => exact hlast.trans h
    | cons b as =>
      obtain ⟨hfirst, hb, hrest⟩ := h
      exact ⟨hlast.trans hfirst, hnext.trans hb, ih hrest fun x hx =>
        hsame x (List.mem_cons_of_mem a hx)⟩

/-- **Insertion.**  A position that takes over the link of `a` and that `a` leads to comes behind
`a`. -/
theorem Linked.insert {l r : List α} {a p : α} (h : Linked next last (l ++ a :: r))
    (hsame : ∀ x ∈ l ++ r, next' x = next x ∧ last' x = last x) (hnext : next' a = p)
    (hlast : last' a = false) (hnext' : next' p = next a) (hlast' : last' p = last a) :
    Linked next' last' (l ++ a :: p :: r) := by
  induction l with
  | nil =>
    refine ⟨hlast, hnext, ?_⟩
    cases r with
    | nil => exact hlast'.trans h
    | cons b r =>
      obtain ⟨hfirst, hb, hrest⟩ := h
      exact ⟨hlast'.trans hfirst, hnext'.trans hb, hrest.congr hsame⟩
  | cons c l ih =>
    obtain ⟨hnextc, hlastc⟩ := hsame c List.mem_cons_self
    -- the position after `c` stays the same
    cases l with
    | nil =>
      obtain ⟨hfirst, hc, hrest⟩ := h
      exact ⟨hlastc.trans hfirst, hnextc.trans hc, ih hrest fun x hx =>
        hsame x (List.mem_cons_of_mem c hx)⟩
    | cons d l =>
      obtain ⟨hfirst, hc, hrest⟩ := h
      exact ⟨hlastc.trans hfirst, hnextc.trans hc, ih hrest fun x hx =>
        hsame x (List.mem_cons_of_mem c hx)⟩

end

end Chain
