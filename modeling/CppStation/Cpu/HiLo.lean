import CppStation.Cpu.Opcodes
import CppStation.Lib.CInt

/-!
# HI and LO

The multiplications and divisions against exact arithmetic on integers.  The
opcode methods are stated a second time in `Cpu.Checked`, with the C++
operators of `CInt`, which have no value where C++ leaves the operation
undefined.
-/

namespace CppStation

open Instruction

namespace Cpu

/-! ## The opcode methods with checked arithmetic -/

namespace Checked

def opDiv (c : Cpu) (instruction : Word) : Option Cpu :=
  let n := c.reg (s instruction)
  let d := c.reg (t instruction)
  if d = 0 then
    let c := { c with mHi := n }
    if (0 : Word).sle n then some { c with mLo := 0xffffffff } else some { c with mLo := 1 }
  else if n = 0x80000000 ∧ d = -1 then
    some { c with mHi := 0, mLo := 0x80000000 }
  else do
    let hi ← CInt.rem n d
    let c := { c with mHi := hi }
    let lo ← CInt.div n d
    some { c with mLo := lo }

def opDivu (c : Cpu) (instruction : Word) : Option Cpu :=
  let n := c.reg (s instruction)
  let d := c.reg (t instruction)
  if d = 0 then
    some { c with mHi := n, mLo := 0xffffffff }
  else do
    let hi ← CInt.urem n d
    let c := { c with mHi := hi }
    let lo ← CInt.udiv n d
    some { c with mLo := lo }

/-- The product is one of unsigned integers and always defined. -/
def opMultu (c : Cpu) (instruction : Word) : Option Cpu :=
  let a : BitVec 64 := (c.reg (s instruction)).setWidth 64
  let b : BitVec 64 := (c.reg (t instruction)).setWidth 64
  let v := a * b
  some { c with mHi := (v >>> 32).setWidth 32, mLo := v.setWidth 32 }

def opMult (c : Cpu) (instruction : Word) : Option Cpu := do
  let a : BitVec 64 := (c.reg (s instruction)).signExtend 64
  let b : BitVec 64 := (c.reg (t instruction)).signExtend 64
  let v ← CInt.mul a b
  some { c with mHi := (v >>> 32).setWidth 32, mLo := v.setWidth 32 }

end Checked

variable (c : Cpu) (instruction : Word)

section

variable {n d : Word} (hn : c.reg (s instruction) = n) (ht : c.reg (t instruction) = d)
include hn ht

theorem opDiv_zero (hd : d = 0) :
    c.opDiv instruction =
      { c with mHi := n, mLo := if (0 : Word).sle n then 0xffffffff else 1 } := by
  simp only [opDiv, hn, ht, hd, if_true]
  split <;> rfl

theorem opDiv_min (hd : d ≠ 0) (hmin : n = 0x80000000 ∧ d = -1) :
    c.opDiv instruction = { c with mHi := 0, mLo := 0x80000000 } := by
  simp only [opDiv, hn, ht, if_neg hd, if_pos hmin]

theorem opDiv_regular (hd : d ≠ 0) (hmin : ¬ (n = 0x80000000 ∧ d = -1)) :
    c.opDiv instruction = { c with mHi := n.srem d, mLo := n.sdiv d } := by
  simp only [opDiv, hn, ht, if_neg hd, if_neg hmin]

theorem opDivu_zero (hd : d = 0) :
    c.opDivu instruction = { c with mHi := n, mLo := 0xffffffff } := by
  simp only [opDivu, hn, ht, hd, if_true]

theorem opDivu_regular (hd : d ≠ 0) :
    c.opDivu instruction = { c with mHi := n % d, mLo := n / d } := by
  simp only [opDivu, hn, ht, if_neg hd]

end

/-! ## Every operation that is evaluated is defined -/

theorem checked_opDiv : Checked.opDiv c instruction = some (c.opDiv instruction) := by
  unfold Checked.opDiv
  by_cases hd : c.reg (t instruction) = 0
  · rw [opDiv_zero c instruction rfl rfl hd]
    simp only [if_pos hd]
    split <;> rfl
  · by_cases hmin : c.reg (s instruction) = 0x80000000 ∧ c.reg (t instruction) = -1
    · rw [opDiv_min c instruction rfl rfl hd hmin]
      simp only [if_neg hd, if_pos hmin]
    · have hdef : c.reg (s instruction) ≠ BitVec.intMin 32 ∨ c.reg (t instruction) ≠ -1 :=
        not_and_or.mp hmin
      rw [opDiv_regular c instruction rfl rfl hd hmin]
      simp only [if_neg hd, if_neg hmin, CInt.rem_eq_some hd hdef, CInt.div_eq_some hd hdef,
        Option.bind_eq_bind, Option.bind_some]

theorem checked_opDivu : Checked.opDivu c instruction = some (c.opDivu instruction) := by
  unfold Checked.opDivu
  by_cases hd : c.reg (t instruction) = 0
  · rw [opDivu_zero c instruction rfl rfl hd]
    simp only [if_pos hd]
  · rw [opDivu_regular c instruction rfl rfl hd]
    simp only [if_neg hd, CInt.urem_eq_some hd, CInt.udiv_eq_some hd, Option.bind_eq_bind,
      Option.bind_some]

theorem checked_opMult : Checked.opMult c instruction = some (c.opMult instruction) := by
  simp only [Checked.opMult, CInt.mul_signExtend (v := 32) (w := 64) (by decide) (by decide),
    Option.bind_eq_bind, Option.bind_some]
  rfl

/-! ## The results -/

/-- HI and LO as one number of 64 bits. -/
def hiLo (c : Cpu) : BitVec 64 := c.mHi ++ c.mLo

theorem append_halves (v : BitVec 64) : (v >>> 32).setWidth 32 ++ v.setWidth 32 = v := by
  ext i hi
  rw [BitVec.getElem_append]
  by_cases hlow : i < 32
  · simp [hlow, BitVec.getLsbD_eq_getElem hi]
  · simp [hlow, show 32 + (i - 32) = i from by omega, BitVec.getLsbD_eq_getElem hi]

theorem opMultu_hiLo :
    (c.opMultu instruction).hiLo =
      (c.reg (s instruction)).setWidth 64 * (c.reg (t instruction)).setWidth 64 :=
  append_halves _

theorem opMult_hiLo :
    (c.opMult instruction).hiLo =
      (c.reg (s instruction)).signExtend 64 * (c.reg (t instruction)).signExtend 64 :=
  append_halves _

theorem toNat_hiLo : c.hiLo.toNat = c.mHi.toNat * 2 ^ 32 + c.mLo.toNat := by
  rw [hiLo, BitVec.toNat_append, ← Nat.shiftLeft_add_eq_or_of_lt c.mLo.isLt, Nat.shiftLeft_eq]

/-- What DIVU is to leave in HI and LO for the dividend `n` and the divisor `d`. -/
structure DivuResult (n d hi lo : Word) : Prop where
  zero : d = 0 → hi = n ∧ lo = 0xffffffff
  exact : d ≠ 0 → lo.toNat * d.toNat + hi.toNat = n.toNat
  small : d ≠ 0 → hi.toNat < d.toNat

/-- What DIV is to leave in HI and LO for the dividend `n` and the divisor `d`. -/
structure DivResult (n d hi lo : Word) : Prop where
  zero : d = 0 → hi = n ∧ lo = if 0 ≤ n.toInt then 0xffffffff else 1
  min : n = 0x80000000 ∧ d = -1 → hi = 0 ∧ lo = 0x80000000
  exact : d ≠ 0 → ¬ (n = 0x80000000 ∧ d = -1) → lo.toInt * d.toInt + hi.toInt = n.toInt
  small : d ≠ 0 → hi.toInt.natAbs < d.toInt.natAbs
  sign : d ≠ 0 → hi.toInt = 0 ∨ hi.toInt.sign = n.toInt.sign

theorem divu_result :
    DivuResult (c.reg (s instruction)) (c.reg (t instruction)) (c.opDivu instruction).mHi
      (c.opDivu instruction).mLo := by
  generalize hn : c.reg (s instruction) = n
  generalize ht : c.reg (t instruction) = d
  by_cases hd : d = 0
  · rw [opDivu_zero c instruction hn ht hd]
    exact ⟨fun _ => ⟨rfl, rfl⟩, fun h => absurd hd h, fun h => absurd hd h⟩
  · rw [opDivu_regular c instruction hn ht hd]
    have hpos : 0 < d.toNat := Nat.pos_of_ne_zero fun h => hd (BitVec.eq_of_toNat_eq h)
    refine ⟨fun h => absurd h hd, fun _ => ?_, fun _ => ?_⟩
    · rw [BitVec.toNat_udiv, BitVec.toNat_umod, Nat.mul_comm]
      exact Nat.div_add_mod n.toNat d.toNat
    · rw [BitVec.toNat_umod]
      exact Nat.mod_lt _ hpos

theorem div_result :
    DivResult (c.reg (s instruction)) (c.reg (t instruction)) (c.opDiv instruction).mHi
      (c.opDiv instruction).mLo := by
  generalize hn : c.reg (s instruction) = n
  generalize ht : c.reg (t instruction) = d
  by_cases hd : d = 0
  · have hmin : ¬ (n = 0x80000000 ∧ d = -1) := by simp [hd]
    have hsle : ((0 : Word).sle n = true) = (0 ≤ n.toInt) := by simp [BitVec.sle]
    rw [opDiv_zero c instruction hn ht hd]
    simp only [hsle]
    exact ⟨fun _ => ⟨rfl, rfl⟩, fun h => absurd h hmin, fun h => absurd hd h,
      fun h => absurd hd h, fun h => absurd hd h⟩
  · by_cases hmin : n = 0x80000000 ∧ d = -1
    · rw [opDiv_min c instruction hn ht hd hmin]
      exact ⟨fun h => absurd h hd, fun _ => ⟨rfl, rfl⟩, fun _ h => absurd hmin h,
        fun _ => by simp [hmin.2], fun _ => .inl rfl⟩
    · have hdef : n ≠ BitVec.intMin 32 ∨ d ≠ -1 := not_and_or.mp hmin
      rw [opDiv_regular c instruction hn ht hd hmin]
      exact ⟨fun h => absurd h hd, fun h => absurd h hmin,
        fun _ _ => CInt.sdiv_mul_add_srem hdef, fun _ => CInt.natAbs_srem_lt n hd,
        fun _ => CInt.sign_srem n d⟩

/-- The four instructions compute the exact product, and the exact quotient and remainder with
the special cases of the machine, and no operation that they evaluate is undefined. -/
theorem hiLo_arithmetic :
    (Checked.opMultu c instruction = some (c.opMultu instruction) ∧
      (c.opMultu instruction).mHi.toNat * 2 ^ 32 + (c.opMultu instruction).mLo.toNat =
        (c.reg (s instruction)).toNat * (c.reg (t instruction)).toNat) ∧
    (Checked.opMult c instruction = some (c.opMult instruction) ∧
      (c.opMult instruction).hiLo.toInt =
        (c.reg (s instruction)).toInt * (c.reg (t instruction)).toInt) ∧
    (Checked.opDivu c instruction = some (c.opDivu instruction) ∧
      DivuResult (c.reg (s instruction)) (c.reg (t instruction)) (c.opDivu instruction).mHi
        (c.opDivu instruction).mLo) ∧
    (Checked.opDiv c instruction = some (c.opDiv instruction) ∧
      DivResult (c.reg (s instruction)) (c.reg (t instruction)) (c.opDiv instruction).mHi
        (c.opDiv instruction).mLo) := by
  refine ⟨⟨rfl, ?_⟩, ⟨checked_opMult c instruction, ?_⟩,
    ⟨checked_opDivu c instruction, divu_result c instruction⟩,
    checked_opDiv c instruction, div_result c instruction⟩
  · rw [← toNat_hiLo, opMultu_hiLo]
    exact CInt.toNat_mul_setWidth (by decide) _ _
  · rw [opMult_hiLo, CInt.toInt_mul_signExtend (by decide) (by decide)]

end Cpu

end CppStation
