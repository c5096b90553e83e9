import Mathlib.Algebra.Group.Nat.Defs
import Mathlib.Data.Nat.Bits

/-! # Masks of low bits as remainders -/

namespace Bits

variable {w : Nat}

theorem toNat_and_le (x mask : BitVec w) : (x &&& mask).toNat ≤ mask.toNat := by
  rw [BitVec.toNat_and]
  exact Nat.and_le_right

/-- A masked value that fits in `k` bits survives being stored in them. -/
theorem setWidth_setWidth_and (x : BitVec w) {mask : BitVec w} {k : Nat}
    (h : mask.toNat < 2 ^ k) : ((x &&& mask).setWidth k).setWidth w = x &&& mask := by
  have hlt := Nat.lt_of_le_of_lt (toNat_and_le x mask) h
  apply BitVec.eq_of_toNat_eq
  rw [BitVec.toNat_setWidth, BitVec.toNat_setWidth, Nat.mod_eq_of_lt hlt,
    Nat.mod_eq_of_lt (x &&& mask).isLt]

theorem toNat_and_mask (x : BitVec w) {k : Nat} (hk : k ≤ w) :
    (x &&& BitVec.ofNat w (2 ^ k - 1)).toNat = x.toNat % 2 ^ k := by
  have hle : 2 ^ k ≤ 2 ^ w := Nat.pow_le_pow_right (by decide) hk
  have hpos : 0 < 2 ^ k := Nat.two_pow_pos k
  rw [BitVec.toNat_and, BitVec.toNat_ofNat, Nat.mod_eq_of_lt (by omega),
    Nat.and_two_pow_sub_one_eq_mod]

theorem toNat_and_shiftedMask (x : BitVec w) {j k : Nat} (hk : j + k ≤ w) :
    (x &&& BitVec.ofNat w ((2 ^ k - 1) * 2 ^ j)).toNat = x.toNat / 2 ^ j % 2 ^ k * 2 ^ j := by
  have hle : 2 ^ (j + k) ≤ 2 ^ w := Nat.pow_le_pow_right (by decide) hk
  have hlt : (2 ^ k - 1) * 2 ^ j < 2 ^ w := by
    refine Nat.lt_of_lt_of_le ?_ hle
    rw [Nat.pow_add, Nat.mul_comm (2 ^ j)]
    exact Nat.mul_lt_mul_of_pos_right (Nat.sub_lt (Nat.two_pow_pos k) Nat.one_pos)
      (Nat.two_pow_pos j)
  rw [BitVec.toNat_and, BitVec.toNat_ofNat, Nat.mod_eq_of_lt hlt]
  refine Nat.eq_of_testBit_eq fun i => ?_
  rw [Nat.testBit_and, Nat.testBit_mul_two_pow, Nat.testBit_mul_two_pow, Nat.testBit_mod_two_pow,
    Nat.testBit_two_pow_sub_one, Nat.testBit_div_two_pow]
  by_cases hj : j ≤ i
  · simp [hj, Nat.sub_add_cancel hj, Bool.and_comm]
  · simp [hj]

theorem getLsbD_setWidth_shiftLeft {v : Nat} (x : BitVec v) (n : Nat) {i : Nat} (hi : i < w) :
    ((x.setWidth w) <<< n).getLsbD i = (decide (n ≤ i) && x.getLsbD (i - n)) := by
  rw [BitVec.getLsbD_shiftLeft, BitVec.getLsbD_setWidth]
  by_cases hlt : i < n
  · simp [hlt, show ¬ n ≤ i by omega]
  · simp [hlt, hi, show i - n < w by omega, show n ≤ i by omega]

/-- The bits of the field of `k` bits at bit `n`. -/
theorem getLsbD_field (x : BitVec w) {n k : Nat} (hk : k ≤ w) (j : Nat) :
    ((x >>> n) &&& BitVec.ofNat w (2 ^ k - 1)).getLsbD j =
      (decide (j < k) && x.getLsbD (n + j)) := by
  rw [BitVec.getLsbD_and, BitVec.getLsbD_ushiftRight, BitVec.getLsbD_ofNat,
    Nat.testBit_two_pow_sub_one]
  by_cases hj : j < k
  · simp [hj, show j < w by omega]
  · simp [hj]

theorem ne_zero_iff (x : BitVec w) : x ≠ 0#w ↔ ∃ i < w, x.getLsbD i = true := by
  constructor
  · intro h
    refine Classical.byContradiction fun hnone =>
      h (BitVec.eq_of_getLsbD_eq fun i hi => ?_)
    rw [BitVec.getLsbD_zero, ← Bool.not_eq_true]
    exact fun hbit => hnone ⟨i, hi, hbit⟩
  · rintro ⟨i, -, hbit⟩ rfl
    exact Bool.false_ne_true (BitVec.getLsbD_zero.symm.trans hbit)

/-- The test of a single bit. -/
theorem and_one_shiftLeft_ne_zero_iff (x : BitVec w) {i : Nat} (hi : i < w) :
    x &&& (1#w <<< i) ≠ 0#w ↔ x.getLsbD i = true := by
  rw [← BitVec.twoPow_eq, BitVec.and_twoPow]
  cases x.getLsbD i with
  | false => simp
  | true =>
    have hne : BitVec.twoPow w i ≠ 0#w := fun h => by
      have hbit := congrArg (·.getLsbD i) h
      simp [hi] at hbit
    simpa using hne

/-- Words that agree above bit `k` agree under a mask of the high bits. -/
theorem and_highMask_congr {x y : BitVec w} {k : Nat} (h : x >>> k = y >>> k) :
    x &&& (BitVec.allOnes w <<< k) = y &&& (BitVec.allOnes w <<< k) := by
  ext i hi
  have hbit := congrArg (·.getLsbD (i - k)) h
  simp only [BitVec.getLsbD_ushiftRight] at hbit
  by_cases hk : i < k
  · simp [hk]
  · rw [Nat.add_sub_cancel' (by omega)] at hbit
    simp [hk, ← BitVec.getLsbD_eq_getElem, hbit]

/-- Words that agree under a mask and under its complement are the same. -/
theorem eq_of_and_eq {x y mask : BitVec w} (h : x &&& mask = y &&& mask)
    (hnot : x &&& ~~~mask = y &&& ~~~mask) : x = y := by
  have hsplit : ∀ z : BitVec w, z = (z &&& mask) ||| (z &&& ~~~mask) := fun z => by
    rw [← BitVec.and_or_distrib_left, BitVec.or_not_self, BitVec.and_allOnes]
  rw [hsplit x, hsplit y, h, hnot]

/-- Words that agree under a mask agree under a smaller one. -/
theorem and_congr_of_and {x y mask part : BitVec w} (h : x &&& mask = y &&& mask)
    (hpart : mask &&& part = part) : x &&& part = y &&& part := by
  rw [← hpart, ← BitVec.and_assoc, h, BitVec.and_assoc]

/-- Words that agree under a mask have the same fields under it. -/
theorem field_congr {x y mask field : BitVec w} {k : Nat} (h : x &&& mask = y &&& mask)
    (hfield : (mask >>> k) &&& field = field) : (x >>> k) &&& field = (y >>> k) &&& field := by
  refine and_congr_of_and ?_ hfield
  rw [← BitVec.ushiftRight_and_distrib, ← BitVec.ushiftRight_and_distrib, h]

theorem mod_eq_zero_iff (x : BitVec w) {n : Nat} (hn : n < 2 ^ w) :
    x % BitVec.ofNat w n = 0 ↔ x.toNat % n = 0 := by
  rw [← BitVec.toNat_inj, BitVec.toNat_umod, BitVec.toNat_ofNat, Nat.mod_eq_of_lt hn]
  exact Iff.rfl

/-- Clearing the two low bits gives the address of a word. -/
theorem toNat_wordAddress (x : BitVec 32) : (x &&& ~~~3).toNat = x.toNat / 4 * 4 := by
  have h := toNat_and_shiftedMask x (j := 2) (k := 30) (by decide)
  rw [show BitVec.ofNat 32 ((2 ^ 30 - 1) * 2 ^ 2) = ~~~(3 : BitVec 32) from by decide] at h
  have hlt := x.isLt
  omega

theorem toNat_wordAddress_mod (x : BitVec 32) : (x &&& ~~~3).toNat % 4 = 0 := by
  rw [toNat_wordAddress, Nat.mul_mod_left]

/-- Clearing the lowest bit does not change the half. -/
theorem toNat_and_not_one_div (x : BitVec 32) : (x &&& ~~~1).toNat / 2 = x.toNat / 2 := by
  have h : (x &&& ~~~1) >>> 1 = x >>> 1 := by
    rw [show ~~~(1 : BitVec 32) = BitVec.allOnes 32 <<< 1 from by decide]
    ext i hi
    simp only [BitVec.getElem_ushiftRight, BitVec.getLsbD_and, BitVec.getLsbD_shiftLeft,
      BitVec.getLsbD_allOnes]
    by_cases hlast : 1 + i < 32
    · simp [hlast, hi]
    · simp [BitVec.getLsbD_of_ge x (1 + i) (by omega)]
  simpa [Nat.shiftRight_eq_div_pow] using congrArg BitVec.toNat h

end Bits
