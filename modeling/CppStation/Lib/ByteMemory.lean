import Mathlib.Data.BitVec

/-!
# Byte-addressed little-endian memory

Words are composed of bytes, least significant first (`compose`), and split
into them (`byteOf`); a word is composed of its own bytes.  A memory is a map
from addresses to bytes.  A `Write` puts consecutive bytes at an address; after a history of
writes, each address holds the byte of the last write that covered it
(`replay_apply`).
-/

namespace ByteMemory

/-- Byte `k` of a word, least significant first. -/
def byteOf {w : Nat} (v : BitVec w) (k : Nat) : BitVec 8 := v.extractLsb' (8 * k) 8

/-- The word of width `w` whose `n` low bytes are `f 0, …, f (n - 1)`. -/
def compose (w : Nat) : Nat → (Nat → BitVec 8) → BitVec w
  | 0, _ => 0
  | n + 1, f => compose w n f ||| ((f n).setWidth w <<< (8 * n))

theorem getLsbD_compose (w n : Nat) (f : Nat → BitVec 8) (j : Nat) :
    (compose w n f).getLsbD j =
      (decide (j < w) && decide (j < 8 * n) && (f (j / 8)).getLsbD (j % 8)) := by
  induction n with
  | zero => simp [compose]
  | succ n ih =>
    simp only [compose, BitVec.getLsbD_or, ih, BitVec.getLsbD_shiftLeft, BitVec.getLsbD_setWidth]
    by_cases hw : j < w
    · rcases Nat.lt_trichotomy (j / 8) n with h | h | h
      · have h₁ : j < 8 * n := by omega
        simp [hw, h₁, show j < 8 * (n + 1) by omega]
      · have h₁ : ¬ j < 8 * n := by omega
        simp [hw, h₁, h, show j < 8 * (n + 1) by omega, show j - 8 * n = j % 8 by omega,
          show j % 8 < w by omega]
      · have h₁ : ¬ j < 8 * n := by omega
        simp [hw, h₁, show ¬ j < 8 * (n + 1) by omega,
          BitVec.getLsbD_of_ge (f n) (j - 8 * n) (by omega)]
    · simp [hw]

theorem getLsbD_byteOf {w : Nat} (v : BitVec w) (k j : Nat) :
    (byteOf v k).getLsbD j = (decide (j < 8) && v.getLsbD (8 * k + j)) := by
  simp [byteOf, BitVec.getLsbD_extractLsb']

/-- A word is composed of its own bytes. -/
theorem compose_byteOf {n : Nat} (v : BitVec (8 * n)) : compose (8 * n) n (byteOf v) = v := by
  apply BitVec.eq_of_getLsbD_eq
  intro j hj
  rw [getLsbD_compose, getLsbD_byteOf]
  simp [hj, show j % 8 < 8 by omega, show 8 * (j / 8) + j % 8 = j by omega]

theorem compose_congr {w n : Nat} {f g : Nat → BitVec 8} (h : ∀ k < n, f k = g k) :
    compose w n f = compose w n g := by
  induction n with
  | zero => rfl
  | succ n ih =>
    simp only [compose]
    rw [ih (fun k hk => h k (by omega)), h n (by omega)]

/-! ## Histories of writes -/

/-- Consecutive bytes put at an address. -/
structure Write where
  addr : Nat
  bytes : List (BitVec 8)

/-- The byte a write puts at `a`, if it covers `a`. -/
def Write.byte? (wr : Write) (a : Nat) : Option (BitVec 8) :=
  if wr.addr ≤ a then wr.bytes[a - wr.addr]? else none

/-- The memory after one write. -/
def Write.apply (wr : Write) (m : Nat → BitVec 8) (a : Nat) : BitVec 8 := (wr.byte? a).getD (m a)

/-- The memory after a history of writes, oldest first. -/
def replay (m : Nat → BitVec 8) (ws : List Write) : Nat → BitVec 8 :=
  ws.foldl (fun m wr => wr.apply m) m

/-- The byte most recently written at `a`. -/
def lastWritten : List Write → Nat → Option (BitVec 8)
  | [], _ => none
  | wr :: ws, a => (lastWritten ws a).or (wr.byte? a)

theorem replay_apply (m : Nat → BitVec 8) (ws : List Write) (a : Nat) :
    replay m ws a = (lastWritten ws a).getD (m a) := by
  induction ws generalizing m with
  | nil => rfl
  | cons wr ws ih =>
    simp only [replay, List.foldl_cons] at ih ⊢
    rw [ih, lastWritten]
    cases lastWritten ws a <;> simp [Write.apply]

theorem lastWritten_eq_some {ws : List Write} {a : Nat} {v : BitVec 8}
    (h : lastWritten ws a = some v) : ∃ wr ∈ ws, wr.byte? a = some v := by
  induction ws with
  | nil => cases h
  | cons wr ws ih =>
    rw [lastWritten] at h
    cases hlast : lastWritten ws a with
    | none =>
      rw [hlast, Option.none_or] at h
      exact ⟨wr, List.mem_cons_self, h⟩
    | some v' =>
      rw [hlast, Option.some_or] at h
      obtain ⟨wr', hmem, hv⟩ := ih (hlast.trans h)
      exact ⟨wr', List.mem_cons_of_mem _ hmem, hv⟩

theorem lastWritten_ne_none {ws : List Write} {a : Nat} {wr : Write} (hmem : wr ∈ ws)
    (h : wr.byte? a ≠ none) : lastWritten ws a ≠ none := by
  induction ws with
  | nil => cases hmem
  | cons wr' ws ih =>
    rw [lastWritten]
    intro hnone
    rw [Option.or_eq_none_iff] at hnone
    rcases List.mem_cons.mp hmem with rfl | hmem
    · exact h hnone.2
    · exact ih hmem hnone.1

/-- **Writes that do not overlap.**  A byte that one write of the history covers and no other has
the value of that write. -/
theorem replay_of_mem {ws : List Write} {wr : Write} {a : Nat} {v : BitVec 8} (hmem : wr ∈ ws)
    (hv : wr.byte? a = some v) (honly : ∀ wr' ∈ ws, wr'.byte? a ≠ none → wr' = wr)
    (m : Nat → BitVec 8) : replay m ws a = v := by
  have hne := lastWritten_ne_none (a := a) hmem (by rw [hv]; exact Option.some_ne_none v)
  obtain ⟨v', hlast⟩ := Option.ne_none_iff_exists'.mp hne
  obtain ⟨wr', hmem', hv'⟩ := lastWritten_eq_some hlast
  obtain rfl := honly wr' hmem' (by rw [hv']; exact Option.some_ne_none v')
  rw [replay_apply, hlast]
  exact Option.some.inj (hv'.symm.trans hv)

theorem replay_of_not_covered {ws : List Write} {a : Nat} (h : ∀ wr ∈ ws, wr.byte? a = none)
    (m : Nat → BitVec 8) : replay m ws a = m a := by
  rw [replay_apply]
  cases hlast : lastWritten ws a with
  | none => rfl
  | some v =>
    obtain ⟨wr, hmem, hv⟩ := lastWritten_eq_some hlast
    rw [h wr hmem] at hv
    cases hv

/-- A write changes no byte outside its own range. -/
theorem Write.apply_of_outside (wr : Write) (m : Nat → BitVec 8) {a : Nat}
    (h : a < wr.addr ∨ wr.addr + wr.bytes.length ≤ a) : wr.apply m a = m a := by
  unfold Write.apply Write.byte?
  rcases h with h | h
  · simp [show ¬ wr.addr ≤ a by omega]
  · simp [show wr.addr ≤ a by omega, show wr.bytes.length ≤ a - wr.addr by omega]

end ByteMemory
