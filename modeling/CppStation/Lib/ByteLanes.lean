import CppStation.Lib.ByteMemory
import CppStation.Lib.Bits

/-!
# Words put together by bytes

A word is determined by its bytes.  `joinUp` and `joinDown` keep some low bytes
of one word and OR in another, moved up or down by whole bytes; byte by byte,
`joinUp` is a choice, and `joinDown` an OR of what overlaps.
-/

namespace ByteMemory

theorem byteOf_compose {w n : Nat} (f : Nat → BitVec 8) {k : Nat} (hk : k < n)
    (hw : 8 * n ≤ w) : byteOf (compose w n f) k = f k := by
  apply BitVec.eq_of_getLsbD_eq
  intro j hj
  rw [getLsbD_byteOf, getLsbD_compose]
  simp [hj, show 8 * k + j < w by omega, show 8 * k + j < 8 * n by omega,
    show (8 * k + j) / 8 = k by omega, show (8 * k + j) % 8 = j by omega]

theorem eq_iff_byteOf {n : Nat} {x y : BitVec (8 * n)} :
    x = y ↔ ∀ k < n, byteOf x k = byteOf y k := by
  constructor
  · rintro rfl k _
    rfl
  · intro h
    rw [← compose_byteOf x, ← compose_byteOf y]
    exact compose_congr h

variable {w : Nat}

/-- The `q` low bytes of `x`, and above them the low bytes of `y`. -/
def joinUp (q : Nat) (x y : BitVec w) : BitVec w :=
  (x &&& BitVec.ofNat w (2 ^ (8 * q) - 1)) ||| (y <<< (8 * q))

/-- The `q` low bytes of `x`, over the bytes of `y` above its `q` low ones. -/
def joinDown (q : Nat) (x y : BitVec w) : BitVec w :=
  (x &&& BitVec.ofNat w (2 ^ (8 * q) - 1)) ||| (y >>> (8 * q))

theorem byteOf_or (x y : BitVec w) (k : Nat) : byteOf (x ||| y) k = byteOf x k ||| byteOf y k := by
  apply BitVec.eq_of_getLsbD_eq
  intro j hj
  simp only [getLsbD_byteOf, BitVec.getLsbD_or, hj, decide_true, Bool.true_and]

theorem byteOf_lowMask (x : BitVec w) {q k : Nat} (hq : 8 * q ≤ w) :
    byteOf (x &&& BitVec.ofNat w (2 ^ (8 * q) - 1)) k = if k < q then byteOf x k else 0 := by
  apply BitVec.eq_of_getLsbD_eq
  intro j hj
  have hfield := Bits.getLsbD_field x (n := 0) hq (8 * k + j)
  rw [BitVec.ushiftRight_zero, Nat.zero_add] at hfield
  rw [getLsbD_byteOf, hfield]
  by_cases hk : k < q
  · rw [if_pos hk, getLsbD_byteOf, decide_eq_true (show 8 * k + j < 8 * q by omega),
      Bool.true_and]
  · simp [hk, show ¬ 8 * k + j < 8 * q by omega]

theorem byteOf_shiftLeft (x : BitVec w) {q k : Nat} (hk : 8 * (k + 1) ≤ w) :
    byteOf (x <<< (8 * q)) k = if k < q then 0 else byteOf x (k - q) := by
  apply BitVec.eq_of_getLsbD_eq
  intro j hj
  rw [getLsbD_byteOf, BitVec.getLsbD_shiftLeft]
  by_cases hlt : k < q
  · simp [hlt, show 8 * k + j < 8 * q by omega]
  · rw [if_neg hlt, getLsbD_byteOf, show 8 * k + j - 8 * q = 8 * (k - q) + j by omega,
      decide_eq_true (show 8 * k + j < w by omega),
      decide_eq_false (show ¬ 8 * k + j < 8 * q by omega)]
    rfl

theorem byteOf_shiftRight (x : BitVec w) (q k : Nat) :
    byteOf (x >>> (8 * q)) k = byteOf x (k + q) := by
  apply BitVec.eq_of_getLsbD_eq
  intro j hj
  simp only [getLsbD_byteOf, BitVec.getLsbD_ushiftRight,
    show 8 * q + (8 * k + j) = 8 * (k + q) + j by omega]

/-- **`joinUp` is a choice.** -/
theorem byteOf_joinUp (x y : BitVec w) {q k : Nat} (hq : 8 * q ≤ w) (hk : 8 * (k + 1) ≤ w) :
    byteOf (joinUp q x y) k = if k < q then byteOf x k else byteOf y (k - q) := by
  rw [joinUp, byteOf_or, byteOf_lowMask x hq, byteOf_shiftLeft y hk]
  split
  · exact BitVec.or_zero
  · exact BitVec.zero_or

theorem byteOf_of_ge (x : BitVec w) {k : Nat} (hk : w ≤ 8 * k) : byteOf x k = 0 := by
  apply BitVec.eq_of_getLsbD_eq
  intro j hj
  rw [getLsbD_byteOf, BitVec.getLsbD_of_ge x _ (by omega)]
  simp

/-- **`joinDown` is an OR**; above its top byte, `y` gives zero. -/
theorem byteOf_joinDown (x y : BitVec w) {q k : Nat} (hq : 8 * q ≤ w) :
    byteOf (joinDown q x y) k =
      (if k < q then byteOf x k else 0) ||| byteOf y (k + q) := by
  rw [joinDown, byteOf_or, byteOf_lowMask x hq, byteOf_shiftRight]

end ByteMemory
