import CppStation.Memory.Map
import CppStation.Lib.ByteMemory
import CppStation.Lib.Fallible
import Mathlib.Tactic.IntervalCases

/-!
# RAM and BIOS buffers (`memory/ram.cpp`, `memory/bios.cpp`)

Both are C arrays reached through an unchecked index; an index outside the
array is the fault `outOfBounds`.
-/

namespace CppStation

open ByteMemory Fallible

/-- The byte of a C array of `size` bytes at `index`. -/
def readByte (buffer : Buffer) (size : Nat) (data : Nat → Byte) (index : Nat) : Result Byte :=
  if index < size then .ok (data index) else .error (.outOfBounds buffer index)

/-- Store to a C array of `size` bytes. -/
def writeByte (buffer : Buffer) (size : Nat) (data : Nat → Byte) (index : Nat) (val : Byte) :
    Result (Nat → Byte) :=
  if index < size then .ok (Function.update data index val) else .error (.outOfBounds buffer index)

/-- `b0 | (b1 << 8) | (b2 << 16) | (b3 << 24)` -/
def word32 (b0 b1 b2 b3 : Byte) : Word :=
  b0.setWidth 32 ||| (b1.setWidth 32 <<< 8) ||| (b2.setWidth 32 <<< 16) ||| (b3.setWidth 32 <<< 24)

/-- `b0 | (b1 << 8)` -/
def word16 (b0 b1 : Byte) : Half := b0.setWidth 16 ||| (b1.setWidth 16 <<< 8)

/-! ## RAM -/

structure Ram where
  mData : Nat → Byte

namespace Ram

/-- Default RAM contents are garbage. -/
def new : Ram := ⟨fun _ => 0xca⟩

def load32 (r : Ram) (offset : Nat) : Result Word := do
  let b0 ← readByte .ramData ramSize r.mData (offset + 0)
  let b1 ← readByte .ramData ramSize r.mData (offset + 1)
  let b2 ← readByte .ramData ramSize r.mData (offset + 2)
  let b3 ← readByte .ramData ramSize r.mData (offset + 3)
  return word32 b0 b1 b2 b3

def store32 (r : Ram) (offset : Nat) (val : Word) : Result Ram := do
  let b0 : Byte := (val &&& 0xff).setWidth 8
  let b1 : Byte := ((val >>> 8) &&& 0xff).setWidth 8
  let b2 : Byte := ((val >>> 16) &&& 0xff).setWidth 8
  let b3 : Byte := ((val >>> 24) &&& 0xff).setWidth 8
  let d ← writeByte .ramData ramSize r.mData (offset + 0) b0
  let d ← writeByte .ramData ramSize d (offset + 1) b1
  let d ← writeByte .ramData ramSize d (offset + 2) b2
  let d ← writeByte .ramData ramSize d (offset + 3) b3
  return ⟨d⟩

def load16 (r : Ram) (offset : Nat) : Result Half := do
  let b0 ← readByte .ramData ramSize r.mData (offset + 0)
  let b1 ← readByte .ramData ramSize r.mData (offset + 1)
  return word16 b0 b1

def store16 (r : Ram) (offset : Nat) (val : Half) : Result Ram := do
  let b0 : Byte := (val &&& 0xff).setWidth 8
  let b1 : Byte := ((val >>> 8) &&& 0xff).setWidth 8
  let d ← writeByte .ramData ramSize r.mData (offset + 0) b0
  let d ← writeByte .ramData ramSize d (offset + 1) b1
  return ⟨d⟩

def load8 (r : Ram) (offset : Nat) : Result Byte := readByte .ramData ramSize r.mData offset

def store8 (r : Ram) (offset : Nat) (val : Byte) : Result Ram := do
  let d ← writeByte .ramData ramSize r.mData offset val
  return ⟨d⟩

end Ram

/-! ## BIOS -/

/-- The buffer holds what was read from the image file. -/
structure Bios where
  mBuffer : Nat → Byte

namespace Bios

/-- The image that starts with the words `ws`. -/
def ofWords (ws : List Word) : Bios := ⟨fun i => byteOf (ws.getD (i / 4) 0) (i % 4)⟩

def load8 (b : Bios) (offset : Nat) : Result Byte := readByte .biosBuffer biosSize b.mBuffer offset

def load32 (b : Bios) (offset : Nat) : Result Word := do
  let b0 ← readByte .biosBuffer biosSize b.mBuffer (offset + 0)
  let b1 ← readByte .biosBuffer biosSize b.mBuffer (offset + 1)
  let b2 ← readByte .biosBuffer biosSize b.mBuffer (offset + 2)
  let b3 ← readByte .biosBuffer biosSize b.mBuffer (offset + 3)
  return word32 b0 b1 b2 b3

end Bios

/-! ## Words as composed bytes -/

theorem word32_eq_compose (f : Nat → Byte) :
    word32 (f 0) (f 1) (f 2) (f 3) = compose 32 4 f := by
  simp [word32, compose]

theorem word16_eq_compose (f : Nat → Byte) : word16 (f 0) (f 1) = compose 16 2 f := by
  simp [word16, compose]

/-- The low byte of a shifted word is one of its bytes. -/
theorem shifted_byte {w : Nat} (v : BitVec w) (k : Nat) (hw : 8 ≤ w) :
    (((v >>> (8 * k)) &&& BitVec.ofNat w 0xff).setWidth 8 : Byte) = byteOf v k := by
  apply BitVec.eq_of_getLsbD_eq
  intro j hj
  rw [getLsbD_byteOf, BitVec.getLsbD_setWidth, BitVec.getLsbD_and, BitVec.getLsbD_ushiftRight,
    BitVec.getLsbD_ofNat]
  have h : Nat.testBit 255 j = true := by interval_cases j <;> rfl
  simp [hj, h, show j < w by omega]

/-! ## When an access is in range -/

/-- The `width` bytes at `offset` as one write. -/
def bytesOf {w : Nat} (width : Nat) (v : BitVec w) : List Byte := (List.range width).map (byteOf v)

theorem load32_of_inRange (r : Ram) {offset : Nat} (h : offset + 4 ≤ ramSize) :
    r.load32 offset = .ok (compose 32 4 fun k => r.mData (offset + k)) := by
  rw [← word32_eq_compose]
  simp only [Ram.load32, readByte]
  rw [if_pos (by omega), if_pos (by omega), if_pos (by omega), if_pos (by omega)]
  rfl

theorem bios_load32_of_inRange (b : Bios) {offset : Nat} (h : offset + 4 ≤ biosSize) :
    b.load32 offset = .ok (compose 32 4 fun k => b.mBuffer (offset + k)) := by
  rw [← word32_eq_compose]
  simp only [Bios.load32, readByte]
  rw [if_pos (by omega), if_pos (by omega), if_pos (by omega), if_pos (by omega)]
  rfl

theorem load16_of_inRange (r : Ram) {offset : Nat} (h : offset + 2 ≤ ramSize) :
    r.load16 offset = .ok (compose 16 2 fun k => r.mData (offset + k)) := by
  rw [← word16_eq_compose]
  simp only [Ram.load16, readByte]
  rw [if_pos (by omega), if_pos (by omega)]
  rfl

theorem load8_of_inRange (r : Ram) {offset : Nat} (h : offset < ramSize) :
    r.load8 offset = .ok (r.mData offset) := by
  simp only [Ram.load8, readByte]
  rw [if_pos h]

/-- Bounds of the write that a store makes. -/
theorem byte?_bytesOf {w : Nat} (width : Nat) (v : BitVec w) (offset a : Nat) :
    Write.byte? ⟨offset, bytesOf width v⟩ a =
      if offset ≤ a ∧ a < offset + width then some (byteOf v (a - offset)) else none := by
  simp only [Write.byte?, bytesOf, List.getElem?_map]
  by_cases h₁ : offset ≤ a
  · by_cases h₂ : a < offset + width
    · rw [List.getElem?_range (by omega)]
      simp [h₁, h₂]
    · rw [List.getElem?_eq_none (by simp; omega)]
      simp [h₁, h₂]
  · simp [h₁]

theorem apply_bytesOf {w : Nat} (width : Nat) (v : BitVec w) (m : Nat → Byte) (offset a : Nat) :
    Write.apply ⟨offset, bytesOf width v⟩ m a =
      if offset ≤ a ∧ a < offset + width then byteOf v (a - offset) else m a := by
  rw [Write.apply, byte?_bytesOf]
  split <;> rfl

theorem apply_bytesOf_zero {w : Nat} (v : BitVec w) (m : Nat → Byte) (offset : Nat) :
    Write.apply ⟨offset, bytesOf 0 v⟩ m = m := by
  funext a
  rw [apply_bytesOf]
  simp

/-- A longer write stores one more byte. -/
theorem apply_bytesOf_succ {w : Nat} (width : Nat) (v : BitVec w) (m : Nat → Byte) (offset : Nat) :
    Write.apply ⟨offset, bytesOf (width + 1) v⟩ m =
      Function.update (Write.apply ⟨offset, bytesOf width v⟩ m) (offset + width)
        (byteOf v width) := by
  funext a
  rw [apply_bytesOf, Function.update_apply, apply_bytesOf]
  by_cases h : a = offset + width
  · subst h
    simp
  · simp only [h, if_false]
    by_cases h₁ : offset ≤ a ∧ a < offset + width
    · rw [if_pos h₁, if_pos (by omega)]
    · rw [if_neg h₁, if_neg (by omega)]

theorem store32_of_inRange (r : Ram) {offset : Nat} (val : Word) (h : offset + 4 ≤ ramSize) :
    r.store32 offset val = .ok ⟨Write.apply ⟨offset, bytesOf 4 val⟩ r.mData⟩ := by
  have h₀ := shifted_byte val 0 (by omega)
  have h₁ := shifted_byte val 1 (by omega)
  have h₂ := shifted_byte val 2 (by omega)
  have h₃ := shifted_byte val 3 (by omega)
  simp only [Nat.mul_zero, Nat.mul_one, BitVec.ushiftRight_zero, Nat.reduceMul] at h₀ h₁ h₂ h₃
  simp only [Ram.store32, writeByte]
  rw [if_pos (by omega), ok_bind, if_pos (by omega), ok_bind, if_pos (by omega), ok_bind,
    if_pos (by omega), ok_bind]
  simp only [BitVec.ofNat_eq_ofNat, h₀, h₁, h₂, h₃, apply_bytesOf_succ, apply_bytesOf_zero]
  rfl

theorem store16_of_inRange (r : Ram) {offset : Nat} (val : Half) (h : offset + 2 ≤ ramSize) :
    r.store16 offset val = .ok ⟨Write.apply ⟨offset, bytesOf 2 val⟩ r.mData⟩ := by
  have h₀ := shifted_byte val 0 (by omega)
  have h₁ := shifted_byte val 1 (by omega)
  simp only [Nat.mul_zero, Nat.mul_one, BitVec.ushiftRight_zero] at h₀ h₁
  simp only [Ram.store16, writeByte]
  rw [if_pos (by omega), ok_bind, if_pos (by omega), ok_bind]
  simp only [BitVec.ofNat_eq_ofNat, h₀, h₁, apply_bytesOf_succ, apply_bytesOf_zero]
  rfl

theorem store8_of_inRange (r : Ram) {offset : Nat} (val : Byte) (h : offset < ramSize) :
    r.store8 offset val = .ok ⟨Write.apply ⟨offset, bytesOf 1 val⟩ r.mData⟩ := by
  simp only [Ram.store8, writeByte]
  rw [if_pos h, ok_bind, apply_bytesOf_succ, apply_bytesOf_zero]
  simp [byteOf]
  rfl

/-! ## When an access is out of range -/

/-- A word that starts in the array and ends after it: the first byte after the array is
read. -/
theorem readWord_crosses (buffer : Buffer) {size offset : Nat} (data : Nat → Byte)
    (h : offset < size) (hend : size < offset + 4) :
    (do
      let b0 ← readByte buffer size data (offset + 0)
      let b1 ← readByte buffer size data (offset + 1)
      let b2 ← readByte buffer size data (offset + 2)
      let b3 ← readByte buffer size data (offset + 3)
      return word32 b0 b1 b2 b3) = .error (.outOfBounds buffer size) := by
  simp only [readByte]
  rw [if_pos (by omega), ok_bind]
  by_cases h₁ : offset + 1 < size
  · rw [if_pos h₁, ok_bind]
    by_cases h₂ : offset + 2 < size
    · rw [if_pos h₂, ok_bind, if_neg (by omega), show offset + 3 = size by omega]
      rfl
    · rw [if_neg h₂, show offset + 2 = size by omega]
      rfl
  · rw [if_neg h₁, show offset + 1 = size by omega]
    rfl

theorem load32_crosses (r : Ram) {offset : Nat} (h : offset < ramSize)
    (hend : ramSize < offset + 4) : r.load32 offset = .error (.outOfBounds .ramData ramSize) :=
  readWord_crosses .ramData r.mData h hend

theorem bios_load32_crosses (b : Bios) {offset : Nat} (h : offset < biosSize)
    (hend : biosSize < offset + 4) : b.load32 offset = .error (.outOfBounds .biosBuffer biosSize) :=
  readWord_crosses .biosBuffer b.mBuffer h hend

theorem load16_crosses (r : Ram) {offset : Nat} (h : offset < ramSize)
    (hend : ramSize < offset + 2) : r.load16 offset = .error (.outOfBounds .ramData ramSize) := by
  simp only [Ram.load16, readByte]
  rw [if_pos (by omega), ok_bind, if_neg (by omega), show offset + 1 = ramSize by omega]
  rfl

end CppStation
