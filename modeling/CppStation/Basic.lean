import CppStation.Lib.Bits
import CppStation.Lib.Fallible

/-!
# Words, faults and conversions

The program computes on `uint8_t`, `uint16_t` and `uint32_t`; these are bit
vectors here.  A call that does not come back normally ends in a `Fault`:

* `panic`: the program prints a text and exits (`helpers.hpp`);
* `panicIp`: a panic of the bus that prints `mCpu.mIp` after the other
  arguments; the CPU puts it in when it calls the bus (`linkIp`);
* `outOfBounds`: an index outside one of the fixed-size C arrays, which is
  undefined behaviour in the source and stops the model;
* `outOfFuel`: the step bound given to the one unbounded loop
  (`Bus.linkedListLoop`) was used up.

Console output (`println`) is left out.
-/

namespace CppStation

open Fallible

abbrev Byte := BitVec 8
abbrev Half := BitVec 16
abbrev Word := BitVec 32

/-- The C arrays that the program indexes with a computed index. -/
inductive Buffer
  | ramData
  | biosBuffer
  | commandBuffer
  | vertexBuf
  deriving DecidableEq, Repr

inductive Fault
  | panic (format : String) (args : List Nat)
  | panicIp (format : String) (args : List Nat)
  | outOfBounds (buffer : Buffer) (index : Nat)
  | outOfFuel
  deriving DecidableEq, Repr

abbrev Result := Except Fault

def panic {α : Type} (format : String) (args : List Nat) : Result α :=
  .error (.panic format args)

def panicIp {α : Type} (format : String) (args : List Nat) : Result α :=
  .error (.panicIp format args)

/-- The fault with the instruction count in its text. -/
def Fault.withIp (mIp : Word) : Fault → Fault
  | .panicIp format args => .panic format (args ++ [mIp.toNat])
  | fault => fault

/-- A call of the bus from the CPU. -/
def linkIp {α : Type} (mIp : Word) (x : Result α) : Result α := x.mapError (Fault.withIp mIp)

@[simp] theorem linkIp_ok {α : Type} (mIp : Word) (a : α) : linkIp mIp (.ok a) = .ok a := rfl

theorem linkIp_eq_ok {α : Type} {mIp : Word} {x : Result α} {a : α} :
    linkIp mIp x = .ok a ↔ x = .ok a := by
  cases x with
  | error fault => exact iff_of_false (error_ne_ok _ a) (error_ne_ok fault a)
  | ok b => exact Iff.rfl

/-- A `bool` used as an integer. -/
def ofBool (b : Bool) : Word := if b then 1 else 0

/-- An integer used as a condition. -/
def truth (x : Word) : Bool := x != 0

/-- The C++ operator `!` on an integer, used as an integer again. -/
def lnot (x : Word) : Word := ofBool (x == 0)

/-! ## Single bits as flags -/

/-- The test of a bit, as a word. -/
theorem ofBool_bit (x : Word) {i : Nat} (hi : i < 32) :
    ofBool ((x &&& ((1 : Word) <<< i)) != 0) = (x >>> i) &&& 1 := by
  have hbit : ((x &&& ((1 : Word) <<< i)) != 0) = x.getLsbD i := by
    have h := Bits.and_one_shiftLeft_ne_zero_iff x hi
    rw [Bool.eq_iff_iff, bne_iff_ne]
    exact h
  apply BitVec.eq_of_getLsbD_eq
  intro j hj
  rw [hbit, BitVec.getLsbD_and, BitVec.getLsbD_ushiftRight]
  cases j with
  | zero => cases x.getLsbD i <;> rfl
  | succ j => cases x.getLsbD i <;> simp [ofBool]

theorem ofBool_and_one (x : Word) : ofBool ((x &&& 1) != 0) = x &&& 1 := by
  have h := ofBool_bit x (i := 0) (by decide)
  rwa [BitVec.shiftLeft_zero, BitVec.ushiftRight_zero] at h

theorem truth_and_one (v : Word) : truth (v &&& 1) = v.getLsbD 0 := by
  have h := Bits.and_one_shiftLeft_ne_zero_iff v (i := 0) (by decide)
  rw [BitVec.shiftLeft_zero] at h
  rw [truth, Bool.eq_iff_iff, bne_iff_ne]
  exact h

theorem ofBool_truth (x : Word) : ofBool (truth (x &&& 1)) = x &&& 1 := ofBool_and_one x

theorem getLsbD_ofBool (b : Bool) (j : Nat) : (ofBool b).getLsbD j = (decide (j = 0) && b) := by
  cases b <;> cases j <;> simp [ofBool]

theorem getLsbD_ofBool_shiftLeft (b : Bool) (n : Nat) {i : Nat} (hi : i < 32) :
    (ofBool b <<< n).getLsbD i = (decide (i = n) && b) := by
  rw [BitVec.getLsbD_shiftLeft, getLsbD_ofBool]
  by_cases hlt : i < n
  · simp [hlt, show i ≠ n by omega]
  · simp [hlt, hi, show i - n = 0 ↔ i = n by omega]

end CppStation
