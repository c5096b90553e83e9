import CppStation.Cpu.Opcodes
import CppStation.Lib.Transition

/-! # One instruction step (`Cpu::decodeAndExecute`, `Cpu::runNextInstruction`) -/

namespace CppStation

namespace Cpu

/-- The part of `runNextInstruction` between the fetch and the execution:
advance the program counters, commit the pending load to the output registers
and shift the branch flags. -/
def beginInstruction (c : Cpu) : Cpu :=
  let c := { c with mPc := c.mNextPc, mNextPc := c.mNextPc + 4 }
  let reg := c.mLoadRegIdx
  let val := c.mLoadReg
  let c := c.setReg reg val
  let c := { c with mLoadRegIdx := ⟨0⟩, mLoadReg := 0 }
  { c with mDelaySlot := c.mBranch, mBranch := false }

/-- The part after the execution: the output registers become the input of the
next instruction. -/
def endInstruction (c : Cpu) : Cpu := { c with mRegs := c.mOutRegs, mIp := c.mIp + 1 }

end Cpu

namespace Machine

/-- Run a method that only touches the CPU. -/
def onCpu (m : Machine) (f : Cpu → Cpu) : Result Machine := .ok { m with mCpu := f m.mCpu }

/-- Run a method that only touches the CPU and may panic. -/
def onCpuM (m : Machine) (f : Cpu → Result Cpu) : Result Machine := do
  let c ← f m.mCpu
  return { m with mCpu := c }

/-- Call an opcode method. -/
def execOp (fuel : Nat) (m : Machine) (op : Op) (instruction : Word) : Result Machine :=
  match op with
  | .opSll => m.onCpu (·.opSll instruction)
  | .opOr => m.onCpu (·.opOr instruction)
  | .opSltu => m.onCpu (·.opSltu instruction)
  | .opAddu => m.onCpu (·.opAddu instruction)
  | .opJr => m.onCpu (·.opJr instruction)
  | .opAnd => m.onCpu (·.opAnd instruction)
  | .opAdd => m.onCpu (·.opAdd instruction)
  | .opJalr => m.onCpu (·.opJalr instruction)
  | .opSubu => m.onCpu (·.opSubu instruction)
  | .opSra => m.onCpu (·.opSra instruction)
  | .opDiv => m.onCpu (·.opDiv instruction)
  | .opMflo => m.onCpu (·.opMflo instruction)
  | .opSrl => m.onCpu (·.opSrl instruction)
  | .opDivu => m.onCpu (·.opDivu instruction)
  | .opMfhi => m.onCpu (·.opMfhi instruction)
  | .opSlt => m.onCpu (·.opSlt instruction)
  | .opSyscall => m.onCpu (·.opSyscall instruction)
  | .opMthi => m.onCpu (·.opMthi instruction)
  | .opMtlo => m.onCpu (·.opMtlo instruction)
  | .opSllv => m.onCpu (·.opSllv instruction)
  | .opNor => m.onCpu (·.opNor instruction)
  | .opSrav => m.onCpu (·.opSrav instruction)
  | .opSrlv => m.onCpu (·.opSrlv instruction)
  | .opMultu => m.onCpu (·.opMultu instruction)
  | .opXor => m.onCpu (·.opXor instruction)
  | .opBreak => m.onCpu (·.opBreak instruction)
  | .opMult => m.onCpu (·.opMult instruction)
  | .opSub => m.onCpu (·.opSub instruction)
  | .opLui => m.onCpu (·.opLui instruction)
  | .opOri => m.onCpu (·.opOri instruction)
  | .opSw => m.opSw fuel instruction
  | .opAddiu => m.onCpu (·.opAddiu instruction)
  | .opJ => m.onCpu (·.opJ instruction)
  | .opCop0 => m.onCpuM (·.opCop0 instruction)
  | .opBne => m.onCpu (·.opBne instruction)
  | .opAddi => m.onCpu (·.opAddi instruction)
  | .opLw => m.opLw instruction
  | .opSh => m.opSh instruction
  | .opJal => m.onCpu (·.opJal instruction)
  | .opAndi => m.onCpu (·.opAndi instruction)
  | .opSb => m.opSb instruction
  | .opLb => m.opLb instruction
  | .opBeq => m.onCpu (·.opBeq instruction)
  | .opBlez => m.onCpu (·.opBlez instruction)
  | .opBgtz => m.onCpu (·.opBgtz instruction)
  | .opLbu => m.opLbu instruction
  | .opBxx => m.onCpu (·.opBxx instruction)
  | .opSlti => m.onCpu (·.opSlti instruction)
  | .opSltiu => m.onCpu (·.opSltiu instruction)
  | .opLhu => m.opLhu instruction
  | .opLh => m.opLh instruction
  | .opXori => m.onCpu (·.opXori instruction)
  | .opCop1 => m.onCpu (·.opCop1 instruction)
  | .opCop2 => m.onCpuM (·.opCop2 instruction)
  | .opCop3 => m.onCpu (·.opCop3 instruction)
  | .opLwl => m.opLwl instruction
  | .opLwr => m.opLwr instruction
  | .opSwl => m.opSwl fuel instruction
  | .opSwr => m.opSwr fuel instruction
  | .opLwc0 => m.onCpu (·.opLwc0 instruction)
  | .opLwc1 => m.onCpu (·.opLwc1 instruction)
  | .opLwc2 => m.onCpuM (·.opLwc2 instruction)
  | .opLwc3 => m.onCpu (·.opLwc3 instruction)
  | .opSwc0 => m.onCpu (·.opSwc0 instruction)
  | .opSwc1 => m.onCpu (·.opSwc1 instruction)
  | .opSwc2 => m.onCpuM (·.opSwc2 instruction)
  | .opSwc3 => m.onCpu (·.opSwc3 instruction)
  | .opIllegal => m.onCpu (·.opIllegal instruction)

def decodeAndExecute (fuel : Nat) (m : Machine) (instruction : Word) : Result Machine :=
  m.execOp fuel (decode instruction) instruction

/-- `runNextInstruction` once the fetch has returned. -/
def runFetched (fuel : Nat) (m : Machine) (instruction : Word) : Result Machine := do
  let m := { m with mCpu := m.mCpu.beginInstruction }
  let m ← m.decodeAndExecute fuel instruction
  return { m with mCpu := m.mCpu.endInstruction }

def runNextInstruction (fuel : Nat) (m : Machine) : Result Machine :=
  let m := { m with mCpu := { m.mCpu with mCurrentPc := m.mCpu.mPc } }
  if m.mCpu.mCurrentPc % 4 ≠ 0 then
    -- PC is not correctly aligned!
    .ok { m with mCpu := m.mCpu.exception .loadAddressError }
  else do
    let instruction ← m.load32 m.mCpu.mPc
    m.runFetched fuel instruction

/-- The loop of `main`, for `n` instructions. -/
def run (fuel : Nat) : Nat → Machine → Result Machine
  | 0, m => .ok m
  | n + 1, m => do
    let m ← m.runNextInstruction fuel
    m.run fuel n

/-- One step of the machine that returns. -/
def Next (m m' : Machine) : Prop := ∃ fuel, m.runNextInstruction fuel = .ok m'

/-- The states between instructions of a machine started on a BIOS image. -/
def Reachable (bios : Bios) (m : Machine) : Prop := Transition.Reachable Next (reset bios) m

end Machine

end CppStation
