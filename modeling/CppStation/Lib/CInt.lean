import Mathlib.Algebra.Group.Int.Defs
import Mathlib.Algebra.Group.Nat.Defs

/-!
# Integer arithmetic of C

An operation on signed integers of `w` bits is undefined when its exact result
is not one of them; division and remainder are undefined for the divisor `0`
as well, and the remainder is undefined where the quotient is.  An undefined
operation has no value (`none`) here.  Unsigned arithmetic is that of `BitVec`
except for the divisor `0`.
-/

namespace CInt

variable {w : Nat}

/-- The signed integer of `w` bits with the exact value `x`. -/
def signed (w : Nat) (x : Int) : Option (BitVec w) :=
  if -2 ^ (w - 1) ≤ x ∧ x < 2 ^ (w - 1) then some (BitVec.ofInt w x) else none

def mul (a b : BitVec w) : Option (BitVec w) := signed w (a.toInt * b.toInt)

/-- Division truncates toward zero. -/
def div (a b : BitVec w) : Option (BitVec w) :=
  if b = 0#w then none else signed w (a.toInt.tdiv b.toInt)

def rem (a b : BitVec w) : Option (BitVec w) :=
  (div a b).map fun _ => BitVec.ofInt w (a.toInt.tmod b.toInt)

def udiv (a b : BitVec w) : Option (BitVec w) := if b = 0#w then none else some (a / b)

def urem (a b : BitVec w) : Option (BitVec w) := if b = 0#w then none else some (a % b)

theorem signed_toInt (x : BitVec w) : signed w x.toInt = some x := by
  rw [signed, if_pos ⟨BitVec.le_toInt x, BitVec.toInt_lt⟩, BitVec.ofInt_toInt]

theorem signed_eq_some_iff (hw : 0 < w) {x : Int} {y : BitVec w} :
    signed w x = some y ↔ y.toInt = x := by
  constructor
  · intro h
    rw [signed] at h
    split at h
    · rename_i hx
      rw [← Option.some.inj h, BitVec.toInt_ofInt_eq_self hw hx.1 hx.2]
    · exact nomatch h
  · rintro rfl
    exact signed_toInt y

/-! ## Division -/

theorem div_eq_some {a b : BitVec w} (hb : b ≠ 0#w) (h : a ≠ BitVec.intMin w ∨ b ≠ -1#w) :
    div a b = some (a.sdiv b) := by
  rw [div, if_neg hb, ← BitVec.toInt_sdiv_of_ne_or_ne a b h, signed_toInt]

theorem rem_eq_some {a b : BitVec w} (hb : b ≠ 0#w) (h : a ≠ BitVec.intMin w ∨ b ≠ -1#w) :
    rem a b = some (a.srem b) := by
  rw [rem, div_eq_some hb h, Option.map_some, ← BitVec.toInt_srem, BitVec.ofInt_toInt]

theorem udiv_eq_some {a b : BitVec w} (hb : b ≠ 0#w) : udiv a b = some (a / b) := if_neg hb

theorem urem_eq_some {a b : BitVec w} (hb : b ≠ 0#w) : urem a b = some (a % b) := if_neg hb

/-- The truncated quotient and the remainder make up the dividend. -/
theorem sdiv_mul_add_srem {a b : BitVec w} (h : a ≠ BitVec.intMin w ∨ b ≠ -1#w) :
    (a.sdiv b).toInt * b.toInt + (a.srem b).toInt = a.toInt := by
  rw [BitVec.toInt_sdiv_of_ne_or_ne a b h, BitVec.toInt_srem, Int.mul_comm]
  exact Int.mul_tdiv_add_tmod a.toInt b.toInt

theorem natAbs_srem_lt (a : BitVec w) {b : BitVec w} (hb : b ≠ 0#w) :
    (a.srem b).toInt.natAbs < b.toInt.natAbs := by
  have hne : b.toInt ≠ 0 := fun h => hb (BitVec.toInt_inj.mp (h.trans BitVec.toInt_zero.symm))
  rw [BitVec.toInt_srem, Int.natAbs_tmod]
  exact Nat.mod_lt _ (Int.natAbs_pos.mpr hne)

/-- A remainder other than zero has the sign of the dividend. -/
theorem sign_srem (a b : BitVec w) :
    (a.srem b).toInt = 0 ∨ (a.srem b).toInt.sign = a.toInt.sign := by
  rw [BitVec.toInt_srem]
  rcases Int.lt_trichotomy a.toInt 0 with ha | ha | ha
  · have h := Int.tmod_nonneg b.toInt (Int.neg_nonneg_of_nonpos (Int.le_of_lt ha))
    rw [Int.neg_tmod] at h
    rw [Int.sign_eq_neg_one_of_neg ha]
    by_cases hzero : a.toInt.tmod b.toInt = 0
    · exact .inl hzero
    · exact .inr (Int.sign_eq_neg_one_of_neg (by omega))
  · simp [ha]
  · have h := Int.tmod_nonneg b.toInt (Int.le_of_lt ha)
    rw [Int.sign_eq_one_of_pos ha]
    by_cases hzero : a.toInt.tmod b.toInt = 0
    · exact .inl hzero
    · exact .inr (Int.sign_eq_one_of_pos (by omega))

/-! ## Overflow by the sign bits -/

/-- A sum overflows exactly when its sign is that of neither operand. -/
theorem msb_add_test (x y : BitVec w) :
    (((x + y) ^^^ x) &&& ((x + y) ^^^ y)).msb = x.saddOverflow y := by
  rw [BitVec.saddOverflow_eq, BitVec.msb_and, BitVec.msb_xor, BitVec.msb_xor]
  cases x.msb <;> cases y.msb <;> cases (x + y).msb <;> rfl

/-- A difference overflows exactly when the operands have different signs and its sign is not that
of the first. -/
theorem msb_sub_test (x y : BitVec w) :
    (((x - y) ^^^ x) &&& (x ^^^ y)).msb = x.ssubOverflow y := by
  rw [BitVec.ssubOverflow_eq, BitVec.msb_and, BitVec.msb_xor, BitVec.msb_xor]
  cases x.msb <;> cases y.msb <;> cases (x - y).msb <;> rfl

/-! ## Multiplication of widened operands -/

theorem mul_eq_some {a b : BitVec w} (hlo : -2 ^ (w - 1) ≤ a.toInt * b.toInt)
    (hhi : a.toInt * b.toInt < 2 ^ (w - 1)) : mul a b = some (a * b) := by
  rw [mul, signed, if_pos ⟨hlo, hhi⟩, BitVec.ofInt_mul, BitVec.ofInt_toInt, BitVec.ofInt_toInt]

/-- A type of twice the width holds every product of signed integers. -/
theorem mul_signExtend {v : Nat} (hv : 0 < v) (h : 2 * v ≤ w) (a b : BitVec v) :
    mul (a.signExtend w) (b.signExtend w) = some (a.signExtend w * b.signExtend w) := by
  have hpow : (2 : Int) ^ (v * 2 - 2) < 2 ^ (w - 1) := by
    exact_mod_cast Nat.pow_lt_pow_right (by decide) (by omega)
  have hlo := @BitVec.le_toInt_mul_toInt v a b
  have hhi := @BitVec.toInt_mul_toInt_le v a b
  apply mul_eq_some
  all_goals
    rw [BitVec.toInt_signExtend_of_le (by omega), BitVec.toInt_signExtend_of_le (by omega)]
    omega

theorem toInt_mul_signExtend {v : Nat} (hv : 0 < v) (h : 2 * v ≤ w) (a b : BitVec v) :
    (a.signExtend w * b.signExtend w).toInt = a.toInt * b.toInt := by
  have hmul := mul_signExtend hv h a b
  rw [mul, signed_eq_some_iff (by omega), BitVec.toInt_signExtend_of_le (by omega),
    BitVec.toInt_signExtend_of_le (by omega)] at hmul
  exact hmul

/-- The same for unsigned integers. -/
theorem toNat_mul_setWidth {v : Nat} (h : 2 * v ≤ w) (a b : BitVec v) :
    (a.setWidth w * b.setWidth w).toNat = a.toNat * b.toNat := by
  have hpow : 2 ^ v * 2 ^ v ≤ 2 ^ w := by
    rw [← Nat.pow_add, ← Nat.two_mul]
    exact Nat.pow_le_pow_right (by decide) h
  have hlt : a.toNat * b.toNat < 2 ^ v * 2 ^ v := Nat.mul_lt_mul'' a.isLt b.isLt
  rw [BitVec.toNat_mul, BitVec.toNat_setWidth_of_le (by omega),
    BitVec.toNat_setWidth_of_le (by omega), Nat.mod_eq_of_lt (by omega)]

theorem toInt_setWidth_of_lt {v : Nat} (h : v < w) (a : BitVec v) :
    (a.setWidth w).toInt = a.toNat := by
  rw [BitVec.toInt_setWidth, Int.bmod_eq_of_le]
  all_goals
    have hlt : a.toNat < 2 ^ v := a.isLt
    have hpow : 2 ^ v ≤ 2 ^ (w - 1) := Nat.pow_le_pow_right (by decide) (by omega)
    have hw : 2 ^ w = 2 * 2 ^ (w - 1) := by rw [← Nat.pow_succ']; congr 1; omega
    omega

/-- The product of promoted unsigned integers is defined exactly when it is below the bound of
the signed type. -/
theorem mul_setWidth_eq_some_iff {v : Nat} (h : v < w) (a b : BitVec v) {y : BitVec w} :
    mul (a.setWidth w) (b.setWidth w) = some y ↔
      a.toNat * b.toNat < 2 ^ (w - 1) ∧ y.toNat = a.toNat * b.toNat := by
  rw [mul, signed_eq_some_iff (by omega), toInt_setWidth_of_lt h, toInt_setWidth_of_lt h]
  have hw : 2 ^ w = 2 * 2 ^ (w - 1) := by rw [← Nat.pow_succ']; congr 1; omega
  have hlt := y.isLt
  have hcond := BitVec.toInt_eq_toNat_cond y
  rw [← Int.natCast_mul]
  generalize a.toNat * b.toNat = n at *
  split at hcond
  · omega
  · omega

end CInt
