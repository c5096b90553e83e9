import CppStation.Bus
import CppStation.Cpu.Instruction

/-!
# The CPU state and its primitive operations (`cpu/cpu.hpp`, `cpu/cpu.cpp`)

The fields of the CPU are split in two: `Control` has the program counters,
COP0, HI and LO and the branch flags; `Cpu` adds the two register files and
the pending load.  `raised` is a history variable and not in the source: the
causes that `exception` was called with.  Nothing reads it.
-/

namespace CppStation

structure Control where
  mPc : Word
  mIp : Word
  mNextPc : Word
  mCurrentPc : Word
  mSr : Word
  mCause : Word
  mEpc : Word
  mHi : Word
  mLo : Word
  mBranch : Bool
  mDelaySlot : Bool
  raised : List Exception

structure Cpu extends Control where
  mRegs : Fin 32 → Word
  mOutRegs : Fin 32 → Word
  mLoadRegIdx : RegisterIndex
  mLoadReg : Word

/-- The CPU linked to the communications bus. -/
structure Machine where
  mCpu : Cpu
  mBus : Bus

namespace Control

def exception (c : Control) (cause : Exception) : Control :=
  let handler : Word := if (c.mSr &&& ((1 : Word) <<< 22)) ≠ 0 then 0xbfc00180 else 0x80000080
  let mode := c.mSr &&& 0x3f
  -- `mSr &= !0x3f` with the logical `!`
  let c := { c with mSr := c.mSr &&& lnot 0x3f }
  let c := { c with mSr := c.mSr ||| ((mode <<< 2) &&& 0x3f) }
  let c := { c with mCause := cause.toWord <<< 2 }
  let c := { c with mEpc := c.mCurrentPc }
  let c :=
    if c.mDelaySlot then
      { c with mEpc := c.mEpc - 4, mCause := c.mCause ||| ((1 : Word) <<< 31) }
    else c
  { c with mPc := handler, mNextPc := handler + 4, raised := c.raised ++ [cause] }

section

variable (c : Control) (cause : Exception)

theorem exception_mPc :
    (c.exception cause).mPc =
      if (c.mSr &&& ((1 : Word) <<< 22)) ≠ 0 then 0xbfc00180 else 0x80000080 := by
  unfold exception
  cases c.mDelaySlot <;> rfl

theorem exception_mNextPc : (c.exception cause).mNextPc = (c.exception cause).mPc + 4 := by
  unfold exception
  cases c.mDelaySlot <;> rfl

theorem exception_mSr :
    (c.exception cause).mSr = (c.mSr &&& lnot 0x3f) ||| (((c.mSr &&& 0x3f) <<< 2) &&& 0x3f) := by
  unfold exception
  cases c.mDelaySlot <;> rfl

theorem exception_mEpc :
    (c.exception cause).mEpc = if c.mDelaySlot then c.mCurrentPc - 4 else c.mCurrentPc := by
  unfold exception
  cases c.mDelaySlot <;> rfl

theorem exception_mCause :
    (c.exception cause).mCause =
      if c.mDelaySlot then (cause.toWord <<< 2) ||| ((1 : Word) <<< 31)
      else cause.toWord <<< 2 := by
  unfold exception
  cases c.mDelaySlot <;> rfl

/-- The fields that an exception leaves alone. -/
theorem exception_frame :
    (c.exception cause).mBranch = c.mBranch ∧
      (c.exception cause).mDelaySlot = c.mDelaySlot ∧
      (c.exception cause).mCurrentPc = c.mCurrentPc ∧
      (c.exception cause).mIp = c.mIp ∧
      (c.exception cause).mHi = c.mHi ∧
      (c.exception cause).mLo = c.mLo := by
  unfold exception
  cases c.mDelaySlot <;> exact ⟨rfl, rfl, rfl, rfl, rfl, rfl⟩

theorem exception_raised : (c.exception cause).raised = c.raised ++ [cause] := by
  unfold exception
  cases c.mDelaySlot <;> rfl

end

/-- Branch to immediate value `offset`. -/
def branch (c : Control) (offset : Word) : Control :=
  let offset := offset <<< 2
  { c with mNextPc := c.mPc + offset, mBranch := true }

/-- The test of the cache isolation bit. -/
def cacheIsolated (c : Control) : Bool := (c.mSr &&& 0x10000) != 0

end Control

namespace Cpu

/-- The CPU as constructed. -/
def new : Cpu where
  mPc := 0xbfc00000
  mIp := 0
  mNextPc := 0xbfc00000 + 4
  mCurrentPc := 0
  mSr := 0
  mCause := 0
  mEpc := 0
  mHi := 0xdeadc0de
  mLo := 0xdeadc0de
  mBranch := false
  mDelaySlot := false
  raised := []
  mRegs := fun i => if i = 0 then 0 else 0xdeadc0de
  mOutRegs := fun i => if i = 0 then 0 else 0xdeadc0de
  mLoadRegIdx := ⟨0⟩
  mLoadReg := 0

@[reducible]
def reg (c : Cpu) (index : RegisterIndex) : Word := c.mRegs index.slot

def setReg (c : Cpu) (index : RegisterIndex) (val : Word) : Cpu :=
  let c := { c with mOutRegs := Function.update c.mOutRegs index.slot val }
  -- R0 is always set to 0
  { c with mOutRegs := Function.update c.mOutRegs 0 0 }

def exception (c : Cpu) (cause : Exception) : Cpu :=
  { c with toControl := c.toControl.exception cause }

def branch (c : Cpu) (offset : Word) : Cpu := { c with toControl := c.toControl.branch offset }

/-- Put the load in the delay slot. -/
def putLoad (c : Cpu) (index : RegisterIndex) (val : Word) : Cpu :=
  { c with mLoadRegIdx := ⟨index.val⟩, mLoadReg := val }

end Cpu

namespace Machine

/-- The machine as constructed, with the contents of the BIOS image. -/
def reset (bios : Bios) : Machine := ⟨Cpu.new, Bus.new bios⟩

@[reducible]
def load32 (m : Machine) (addr : Word) : Result Word := m.mBus.load32 addr

@[reducible]
def load16 (m : Machine) (addr : Word) : Result Half := m.mBus.load16 addr

@[reducible]
def load8 (m : Machine) (addr : Word) : Result Byte := m.mBus.load8 addr

def store32 (fuel : Nat) (m : Machine) (addr val : Word) : Result Machine :=
  if m.mCpu.cacheIsolated then .ok m
  else do
    let bus ← linkIp m.mCpu.mIp (m.mBus.store32 fuel addr val)
    return { m with mBus := bus }

def store16 (m : Machine) (addr : Word) (val : Half) : Result Machine :=
  if m.mCpu.cacheIsolated then .ok m
  else do
    let bus ← linkIp m.mCpu.mIp (m.mBus.store16 addr val)
    return { m with mBus := bus }

def store8 (m : Machine) (addr : Word) (val : Byte) : Result Machine :=
  if m.mCpu.cacheIsolated then .ok m
  else do
    let bus ← linkIp m.mCpu.mIp (m.mBus.store8 addr val)
    return { m with mBus := bus }

end Machine

end CppStation
