import CppStation.Basic
import CppStation.Lib.Bits

/-! # The memory map (`memory/map.hpp`, `memory/map.cpp`) -/

namespace CppStation

def ramSize : Nat := 2 * 1024 * 1024

def biosSize : Nat := 512 * 1024

namespace Map

/-- Mask of the region bits, selected by the three top bits of the address. -/
def regionMask (region : Nat) : Word :=
  match region with
  | 0 | 1 | 2 | 3 => 0xffffffff
  | 4 => 0x7fffffff
  | 5 => 0x1fffffff
  | _ => 0xffffffff

/-- Mask a CPU address to remove the region bits. -/
def maskRegion (addr : Word) : Word := addr &&& regionMask (addr >>> 29).toNat

/-- Only the region bits are removed. -/
theorem toNat_maskRegion (addr : Word) :
    ∃ k, 29 ≤ k ∧ k ≤ 32 ∧ (maskRegion addr).toNat = addr.toNat % 2 ^ k := by
  unfold maskRegion regionMask
  split
  case h_5 => exact ⟨31, by decide, by decide, Bits.toNat_and_mask addr (k := 31) (by decide)⟩
  case h_6 => exact ⟨29, by decide, by decide, Bits.toNat_and_mask addr (k := 29) (by decide)⟩
  all_goals exact ⟨32, by decide, by decide, Bits.toNat_and_mask addr (k := 32) (by decide)⟩

theorem maskRegion_mod (addr : Word) {j : Nat} (hj : j ≤ 29) :
    (maskRegion addr).toNat % 2 ^ j = addr.toNat % 2 ^ j := by
  obtain ⟨k, hk, -, h⟩ := toNat_maskRegion addr
  rw [h, Nat.mod_mod_of_dvd _ (Nat.pow_dvd_pow 2 (Nat.le_trans hj hk))]

structure Range where
  mBase : Word
  mSize : Word
  deriving DecidableEq, Repr

def Range.mEnd (r : Range) : Word := r.mBase + r.mSize

/-- The offset of `addr` in the range, or `-1`. -/
def contains (addr rangeEnd base : Word) : Word :=
  if base ≤ addr ∧ addr < rangeEnd then addr - base else -1

def mBios : Range := ⟨0x1fc00000, BitVec.ofNat 32 biosSize⟩
def mMemControl : Range := ⟨0x1f801000, 36⟩
def mRamSize : Range := ⟨0x1f801060, 4⟩
def mCacheControl : Range := ⟨0xfffe0130, 4⟩
def mRam : Range := ⟨0x00000000, BitVec.ofNat 32 ramSize⟩
def mSpu : Range := ⟨0x1f801c00, 640⟩
def mExpansion1 : Range := ⟨0x1f000000, 512 * 1024⟩
def mExpansion2 : Range := ⟨0x1f802000, 66⟩
def mIrqControl : Range := ⟨0x1f801070, 8⟩
def mTimers : Range := ⟨0x1f801100, 0x30⟩
def mDma : Range := ⟨0x1f801080, 0x80⟩
def mGpu : Range := ⟨0x1f801810, 8⟩

/-- `contains` applied to a range of the map. -/
def offsetIn (addr : Word) (r : Range) : Word := contains addr r.mEnd r.mBase

theorem offsetIn_of_mem {addr : Word} {r : Range}
    (h : r.mBase ≤ addr ∧ addr < r.mEnd) : offsetIn addr r = addr - r.mBase := by
  simp [offsetIn, contains, h]

theorem offsetIn_of_not_mem {addr : Word} {r : Range}
    (h : ¬ (r.mBase ≤ addr ∧ addr < r.mEnd)) : offsetIn addr r = -1 := by
  simp [offsetIn, contains, h]

theorem toNat_offsetIn {addr : Word} {r : Range} (h : r.mBase ≤ addr ∧ addr < r.mEnd) :
    (offsetIn addr r).toNat = addr.toNat - r.mBase.toNat := by
  rw [offsetIn_of_mem h, BitVec.toNat_sub_of_le h.1]

/-- The value `-1` is never the offset of an address of the range. -/
theorem offsetIn_ne_iff {addr : Word} {r : Range} :
    offsetIn addr r ≠ -1 ↔ r.mBase ≤ addr ∧ addr < r.mEnd := by
  by_cases h : r.mBase ≤ addr ∧ addr < r.mEnd
  · rw [offsetIn_of_mem h]
    refine ⟨fun _ => h, fun _ he => ?_⟩
    obtain ⟨h₁, h₂⟩ := h
    bv_omega
  · rw [offsetIn_of_not_mem h]
    simp [h]

theorem ram_selected_iff (addr : Word) : offsetIn addr mRam ≠ -1 ↔ addr.toNat < ramSize := by
  rw [offsetIn_ne_iff, BitVec.le_def, BitVec.lt_def]
  exact and_iff_right (Nat.zero_le _)

theorem bios_selected_iff (addr : Word) :
    offsetIn addr mBios ≠ -1 ↔ 0x1fc00000 ≤ addr.toNat ∧ addr.toNat < 0x1fc00000 + biosSize := by
  rw [offsetIn_ne_iff, BitVec.le_def, BitVec.lt_def]
  rfl

theorem ram_toNat_offset {addr : Word} (h : offsetIn addr mRam ≠ -1) :
    (offsetIn addr mRam).toNat = addr.toNat := toNat_offsetIn (offsetIn_ne_iff.mp h)

theorem bios_toNat_offset {addr : Word} (h : offsetIn addr mBios ≠ -1) :
    (offsetIn addr mBios).toNat = addr.toNat - 0x1fc00000 := toNat_offsetIn (offsetIn_ne_iff.mp h)

/-- An access of `width` bytes that starts in RAM and ends after it. -/
def CrossesRam (addr : Word) (width : Nat) : Prop :=
  (maskRegion addr).toNat < ramSize ∧ ramSize < (maskRegion addr).toNat + width

/-- An access of `width` bytes that starts in the BIOS and ends after it. -/
def CrossesBios (addr : Word) (width : Nat) : Prop :=
  0x1fc00000 ≤ (maskRegion addr).toNat ∧ (maskRegion addr).toNat < 0x1fc00000 + biosSize ∧
    0x1fc00000 + biosSize < (maskRegion addr).toNat + width

theorem not_crossesRam_word {addr : Word} (h : addr.toNat % 4 = 0) : ¬ CrossesRam addr 4 := by
  have hx : (maskRegion addr).toNat % 4 = 0 := (maskRegion_mod addr (j := 2) (by decide)).trans h
  simp only [CrossesRam, ramSize]
  omega

theorem not_crossesBios_word {addr : Word} (h : addr.toNat % 4 = 0) : ¬ CrossesBios addr 4 := by
  have hx : (maskRegion addr).toNat % 4 = 0 := (maskRegion_mod addr (j := 2) (by decide)).trans h
  simp only [CrossesBios, biosSize]
  omega

theorem not_crossesRam_half {addr : Word} (h : addr.toNat % 2 = 0) : ¬ CrossesRam addr 2 := by
  have hx : (maskRegion addr).toNat % 2 = 0 := (maskRegion_mod addr (j := 1) (by decide)).trans h
  simp only [CrossesRam, ramSize]
  omega

end Map

end CppStation
