import CppStation.Cpu.State

/-!
# The opcode methods (`cpu/cpu.cpp`)

Methods that only touch the CPU are functions on `Cpu`; those that reach the
bus are functions on `Machine`.
-/

namespace CppStation

open Instruction

def addOverflow (oldValue addValue newValue : Word) : Bool :=
  (((newValue ^^^ oldValue) &&& (newValue ^^^ addValue)) &&& 0x80000000) != 0

def subOverflow (oldValue subValue newValue : Word) : Bool :=
  (((newValue ^^^ oldValue) &&& (oldValue ^^^ subValue)) &&& 0x80000000) != 0

namespace Cpu

/-! ## Arithmetic and logic -/

def opLui (c : Cpu) (instruction : Word) : Cpu :=
  let i := imm instruction
  let v := i <<< 16
  c.setReg (t instruction) v

def opOri (c : Cpu) (instruction : Word) : Cpu :=
  let i := imm instruction
  let v := c.reg (s instruction) ||| i
  c.setReg (t instruction) v

def opSll (c : Cpu) (instruction : Word) : Cpu :=
  let i := shift instruction
  let v := c.reg (t instruction) <<< i
  c.setReg (d instruction) v

def opAddiu (c : Cpu) (instruction : Word) : Cpu :=
  let i := immSe instruction
  let v := c.reg (s instruction) + i
  c.setReg (t instruction) v

def opOr (c : Cpu) (instruction : Word) : Cpu :=
  let v := c.reg (s instruction) ||| c.reg (t instruction)
  c.setReg (d instruction) v

def opAddi (c : Cpu) (instruction : Word) : Cpu :=
  let i := immSe instruction
  let s1 := c.reg (s instruction)
  let v := s1 + i
  let c := if addOverflow s1 i v then c.exception .overflow else c
  c.setReg (t instruction) v

def opSltu (c : Cpu) (instruction : Word) : Cpu :=
  let v := decide (c.reg (s instruction) < c.reg (t instruction))
  c.setReg (d instruction) (ofBool v)

def opAddu (c : Cpu) (instruction : Word) : Cpu :=
  let v := c.reg (s instruction) + c.reg (t instruction)
  c.setReg (d instruction) v

def opAndi (c : Cpu) (instruction : Word) : Cpu :=
  let i := imm instruction
  let v := c.reg (s instruction) &&& i
  c.setReg (t instruction) v

def opAnd (c : Cpu) (instruction : Word) : Cpu :=
  let v := c.reg (s instruction) &&& c.reg (t instruction)
  c.setReg (d instruction) v

def opAdd (c : Cpu) (instruction : Word) : Cpu :=
  let i_s := c.reg (s instruction)
  let i_t := c.reg (t instruction)
  let v := i_s + i_t
  let c := if addOverflow i_s i_t v then c.exception .overflow else c
  c.setReg (d instruction) v

def opSlti (c : Cpu) (instruction : Word) : Cpu :=
  let i := immSe instruction
  let v := (c.reg (s instruction)).slt i
  c.setReg (t instruction) (ofBool v)

def opSubu (c : Cpu) (instruction : Word) : Cpu :=
  let v := c.reg (s instruction) - c.reg (t instruction)
  c.setReg (d instruction) v

def opSra (c : Cpu) (instruction : Word) : Cpu :=
  let i := shift instruction
  let v := (c.reg (t instruction)).sshiftRight i.toNat
  c.setReg (d instruction) v

def opSrl (c : Cpu) (instruction : Word) : Cpu :=
  let i := shift instruction
  let v := c.reg (t instruction) >>> i
  c.setReg (d instruction) v

def opSltiu (c : Cpu) (instruction : Word) : Cpu :=
  let i := immSe instruction
  let v := decide (c.reg (s instruction) < i)
  c.setReg (t instruction) (ofBool v)

def opSlt (c : Cpu) (instruction : Word) : Cpu :=
  let s_i := c.reg (s instruction)
  let t_i := c.reg (t instruction)
  let v := s_i.slt t_i
  c.setReg (d instruction) (ofBool v)

def opSllv (c : Cpu) (instruction : Word) : Cpu :=
  let v := c.reg (t instruction) <<< (c.reg (s instruction) &&& 0x1f)
  c.setReg (d instruction) v

def opNor (c : Cpu) (instruction : Word) : Cpu :=
  let v := ~~~(c.reg (s instruction) ||| c.reg (t instruction))
  c.setReg (d instruction) v

def opSrav (c : Cpu) (instruction : Word) : Cpu :=
  let v := (c.reg (t instruction)).sshiftRight (c.reg (s instruction) &&& 0x1f).toNat
  c.setReg (d instruction) v

def opSrlv (c : Cpu) (instruction : Word) : Cpu :=
  let v := c.reg (t instruction) >>> (c.reg (s instruction) &&& 0x1f)
  c.setReg (d instruction) v

def opXor (c : Cpu) (instruction : Word) : Cpu :=
  let v := c.reg (s instruction) ^^^ c.reg (t instruction)
  c.setReg (d instruction) v

def opSub (c : Cpu) (instruction : Word) : Cpu :=
  let s_i := c.reg (s instruction)
  let t_i := c.reg (t instruction)
  let v := s_i - t_i
  if subOverflow s_i t_i v then c.exception .overflow else c.setReg (d instruction) v

def opXori (c : Cpu) (instruction : Word) : Cpu :=
  let i := imm instruction
  let v := c.reg (s instruction) ^^^ i
  c.setReg (t instruction) v

/-! ## HI and LO -/

def opDiv (c : Cpu) (instruction : Word) : Cpu :=
  let n := c.reg (s instruction)
  let d := c.reg (t instruction)
  if d = 0 then
    let c := { c with mHi := n }
    if (0 : Word).sle n then { c with mLo := 0xffffffff } else { c with mLo := 1 }
  else if n = 0x80000000 ∧ d = -1 then
    { c with mHi := 0, mLo := 0x80000000 }
  else
    { c with mHi := n.srem d, mLo := n.sdiv d }

def opMflo (c : Cpu) (instruction : Word) : Cpu := c.setReg (d instruction) c.mLo

def opDivu (c : Cpu) (instruction : Word) : Cpu :=
  let n := c.reg (s instruction)
  let d := c.reg (t instruction)
  if d = 0 then { c with mHi := n, mLo := 0xffffffff } else { c with mHi := n % d, mLo := n / d }

def opMfhi (c : Cpu) (instruction : Word) : Cpu := c.setReg (d instruction) c.mHi

def opMtlo (c : Cpu) (instruction : Word) : Cpu := { c with mLo := c.reg (s instruction) }

def opMthi (c : Cpu) (instruction : Word) : Cpu := { c with mHi := c.reg (s instruction) }

def opMultu (c : Cpu) (instruction : Word) : Cpu :=
  let a : BitVec 64 := (c.reg (s instruction)).setWidth 64
  let b : BitVec 64 := (c.reg (t instruction)).setWidth 64
  let v := a * b
  { c with mHi := (v >>> 32).setWidth 32, mLo := v.setWidth 32 }

def opMult (c : Cpu) (instruction : Word) : Cpu :=
  let a : BitVec 64 := (c.reg (s instruction)).signExtend 64
  let b : BitVec 64 := (c.reg (t instruction)).signExtend 64
  let v := a * b
  { c with mHi := (v >>> 32).setWidth 32, mLo := v.setWidth 32 }

/-! ## Jumps and branches -/

def opJ (c : Cpu) (instruction : Word) : Cpu :=
  let i := immJump instruction
  { c with mNextPc := (c.mNextPc &&& 0xf0000000) ||| (i <<< 2), mBranch := true }

def opJal (c : Cpu) (instruction : Word) : Cpu :=
  let ra := c.mNextPc
  let c := c.setReg ⟨31⟩ ra
  let c := c.opJ instruction
  { c with mBranch := true }

def opJr (c : Cpu) (instruction : Word) : Cpu :=
  { c with mNextPc := c.reg (s instruction), mBranch := true }

def opJalr (c : Cpu) (instruction : Word) : Cpu :=
  let ra := c.mNextPc
  let c := c.setReg (d instruction) ra
  { c with mNextPc := c.reg (s instruction), mBranch := true }

def opBne (c : Cpu) (instruction : Word) : Cpu :=
  let i := immSe instruction
  if c.reg (s instruction) ≠ c.reg (t instruction) then c.branch i else c

def opBeq (c : Cpu) (instruction : Word) : Cpu :=
  let i := immSe instruction
  if c.reg (s instruction) = c.reg (t instruction) then c.branch i else c

def opBgtz (c : Cpu) (instruction : Word) : Cpu :=
  let i := immSe instruction
  let v := c.reg (s instruction)
  if (0 : Word).slt v then c.branch i else c

def opBlez (c : Cpu) (instruction : Word) : Cpu :=
  let i := immSe instruction
  let v := c.reg (s instruction)
  if v.sle 0 then c.branch i else c

/-- BGEZ, BLTZ, BGEZAL, BLTZAL. -/
def opBxx (c : Cpu) (instruction : Word) : Cpu :=
  let i := immSe instruction
  let isBgez := truth ((instruction >>> 16) &&& 1)
  let isLink := ((instruction >>> 17) &&& 0xf) == 8
  let v := c.reg (s instruction)
  let test := ofBool (v.slt 0)
  -- "a >= 0" is "!(a < 0)"
  let test := test ^^^ ofBool isBgez
  let c := if isLink then c.setReg ⟨31⟩ c.mNextPc else c
  if test ≠ 0 then c.branch i else c

/-! ## Exceptions and COP0 -/

def opSyscall (c : Cpu) (_ : Word) : Cpu := c.exception .sysCall
def opBreak (c : Cpu) (_ : Word) : Cpu := c.exception .break
def opIllegal (c : Cpu) (_ : Word) : Cpu := c.exception .illegalInstruction
def opCop1 (c : Cpu) (_ : Word) : Cpu := c.exception .coprocessorError
def opCop3 (c : Cpu) (_ : Word) : Cpu := c.exception .coprocessorError
def opLwc0 (c : Cpu) (_ : Word) : Cpu := c.exception .coprocessorError
def opLwc1 (c : Cpu) (_ : Word) : Cpu := c.exception .coprocessorError
def opLwc3 (c : Cpu) (_ : Word) : Cpu := c.exception .coprocessorError
def opSwc0 (c : Cpu) (_ : Word) : Cpu := c.exception .coprocessorError
def opSwc1 (c : Cpu) (_ : Word) : Cpu := c.exception .coprocessorError
def opSwc3 (c : Cpu) (_ : Word) : Cpu := c.exception .coprocessorError

def opCop2 (_ : Cpu) (instruction : Word) : Result Cpu :=
  panic "unhandled GTE instruction: \x7b\x7d" [instruction.toNat]

def opLwc2 (_ : Cpu) (instruction : Word) : Result Cpu :=
  panic "unhandled GTE LWC: \x7b\x7d" [instruction.toNat]

def opSwc2 (_ : Cpu) (instruction : Word) : Result Cpu :=
  panic "unhandled GTE SWC: \x7b\x7d" [instruction.toNat]

def opMfc0 (c : Cpu) (instruction : Word) : Result Cpu := do
  let cpuR := t instruction
  let copR := (d instruction).val
  let v ← match copR.toNat with
    | 12 => (.ok c.mSr : Result Word)
    | 13 => .ok c.mCause
    | 14 => .ok c.mEpc
    | _ => panic "Unhandled read from cop0r\x7b\x7d" [copR.toNat]
  return c.putLoad cpuR v

def opMtc0 (c : Cpu) (instruction : Word) : Result Cpu :=
  let copR := (d instruction).val
  let v := c.reg (t instruction)
  match copR.toNat with
  | 3 | 5 | 6 | 7 | 9 | 11 =>
    if v ≠ 0 then panic "Unhandled write to cop0r\x7b\x7d" [copR.toNat] else .ok c
  | 12 => .ok { c with mSr := v }
  | 13 => if v ≠ 0 then panic "Unhandled write to CAUSE register." [] else .ok c
  | _ => panic "Unhandled cop0 register \x7b\x7d" [copR.toNat]

def opRfe (c : Cpu) (instruction : Word) : Result Cpu :=
  if (instruction &&& 0x3f) ≠ 0b010000 then
    panic "Invalid cop0 instruction: \x7b\x7d" [instruction.toNat]
  else
    let mode := c.mSr &&& 0x3f
    -- `mSr &= !0x3f` with the logical `!`
    let c := { c with mSr := c.mSr &&& lnot 0x3f }
    .ok { c with mSr := c.mSr ||| (mode >>> 2) }

def opCop0 (c : Cpu) (instruction : Word) : Result Cpu :=
  match (copOpcode instruction).toNat with
  | 0b00000 => c.opMfc0 instruction
  | 0b00100 => c.opMtc0 instruction
  | 0b10000 => c.opRfe instruction
  | _ => panic "unhandled cop0 instruction \x7b:08x\x7d" [instruction.toNat]

end Cpu

/-! ## The `switch` on the alignment in LWL, LWR, SWL and SWR -/

def mergeLwl (addr curV alignedWord : Word) : Result Word :=
  match (addr &&& 3).toNat with
  | 0 => .ok ((curV &&& 0x00ffffff) ||| (alignedWord <<< 24))
  | 1 => .ok ((curV &&& 0x0000ffff) ||| (alignedWord <<< 16))
  | 2 => .ok ((curV &&& 0x000000ff) ||| (alignedWord <<< 8))
  | 3 => .ok ((curV &&& 0x00000000) ||| (alignedWord <<< 0))
  | _ => panic "unreachable" []

def mergeLwr (addr curV alignedWord : Word) : Result Word :=
  match (addr &&& 3).toNat with
  | 0 => .ok ((curV &&& 0x00ffffff) ||| (alignedWord >>> 24))
  | 1 => .ok ((curV &&& 0x0000ffff) ||| (alignedWord >>> 16))
  | 2 => .ok ((curV &&& 0x000000ff) ||| (alignedWord >>> 8))
  | 3 => .ok ((curV &&& 0x00000000) ||| (alignedWord >>> 0))
  | _ => panic "unreachable" []

def mergeSwl (addr curMem v : Word) : Result Word :=
  match (addr &&& 3).toNat with
  | 0 => .ok ((curMem &&& 0x00ffffff) ||| (v >>> 24))
  | 1 => .ok ((curMem &&& 0x0000ffff) ||| (v >>> 16))
  | 2 => .ok ((curMem &&& 0x000000ff) ||| (v >>> 8))
  | 3 => .ok ((curMem &&& 0x00000000) ||| (v >>> 0))
  | _ => panic "unreachable" []

def mergeSwr (addr curMem v : Word) : Result Word :=
  match (addr &&& 3).toNat with
  | 0 => .ok ((curMem &&& 0x00ffffff) ||| (v <<< 24))
  | 1 => .ok ((curMem &&& 0x0000ffff) ||| (v <<< 16))
  | 2 => .ok ((curMem &&& 0x000000ff) ||| (v <<< 8))
  | 3 => .ok ((curMem &&& 0x00000000) ||| (v <<< 0))
  | _ => panic "unreachable" []

namespace Machine

/-- `reg(s) + imm_se`, the address of every load and store. -/
@[reducible]
def effectiveAddr (m : Machine) (instruction : Word) : Word :=
  m.mCpu.reg (s instruction) + immSe instruction

/-! ## Loads -/

def opLw (m : Machine) (instruction : Word) : Result Machine :=
  if m.mCpu.cacheIsolated then .ok m
  else do
    let v ← m.load32 (m.effectiveAddr instruction)
    return { m with mCpu := m.mCpu.putLoad (t instruction) v }

def opLb (m : Machine) (instruction : Word) : Result Machine := do
  let v ← m.load8 (m.effectiveAddr instruction)
  return { m with mCpu := m.mCpu.putLoad (t instruction) (v.signExtend 32) }

def opLbu (m : Machine) (instruction : Word) : Result Machine := do
  let v ← m.load8 (m.effectiveAddr instruction)
  return { m with mCpu := m.mCpu.putLoad (t instruction) (v.setWidth 32) }

def opLhu (m : Machine) (instruction : Word) : Result Machine := do
  let addr := m.effectiveAddr instruction
  if addr % 2 = 0 then
    let v ← m.load16 addr
    return { m with mCpu := m.mCpu.putLoad (t instruction) (v.setWidth 32) }
  else
    return { m with mCpu := m.mCpu.exception .loadAddressError }

def opLh (m : Machine) (instruction : Word) : Result Machine := do
  let v ← m.load16 (m.effectiveAddr instruction)
  return { m with mCpu := m.mCpu.putLoad (t instruction) (v.signExtend 32) }

def opLwl (m : Machine) (instruction : Word) : Result Machine := do
  let addr := m.effectiveAddr instruction
  -- Merges with the value currently being loaded
  let curV := m.mCpu.mOutRegs (t instruction).slot
  let alignedWord ← m.load32 (addr &&& ~~~3)
  let v ← mergeLwl addr curV alignedWord
  return { m with mCpu := m.mCpu.putLoad (t instruction) v }

def opLwr (m : Machine) (instruction : Word) : Result Machine := do
  let addr := m.effectiveAddr instruction
  let curV := m.mCpu.mOutRegs (t instruction).slot
  let alignedWord ← m.load32 (addr &&& ~~~3)
  let v ← mergeLwr addr curV alignedWord
  return { m with mCpu := m.mCpu.putLoad (t instruction) v }

/-! ## Stores -/

def opSw (fuel : Nat) (m : Machine) (instruction : Word) : Result Machine :=
  if m.mCpu.cacheIsolated then .ok m
  else
    let addr := m.effectiveAddr instruction
    let v := m.mCpu.reg (t instruction)
    if addr % 4 = 0 then m.store32 fuel addr v
    else .ok { m with mCpu := m.mCpu.exception .storeAddressError }

def opSh (m : Machine) (instruction : Word) : Result Machine :=
  let addr := m.effectiveAddr instruction
  let v : Half := (m.mCpu.reg (t instruction)).setWidth 16
  if addr % 2 = 0 then m.store16 addr v
  else .ok { m with mCpu := m.mCpu.exception .storeAddressError }

def opSb (m : Machine) (instruction : Word) : Result Machine :=
  let addr := m.effectiveAddr instruction
  let v := m.mCpu.reg (t instruction)
  m.store8 addr (v.setWidth 8)

def opSwl (fuel : Nat) (m : Machine) (instruction : Word) : Result Machine := do
  let addr := m.effectiveAddr instruction
  let v := m.mCpu.reg (t instruction)
  let curMem ← m.load32 (addr &&& ~~~3)
  let mem ← mergeSwl addr curMem v
  m.store32 fuel (addr &&& ~~~3) mem

def opSwr (fuel : Nat) (m : Machine) (instruction : Word) : Result Machine := do
  let addr := m.effectiveAddr instruction
  let v := m.mCpu.reg (t instruction)
  let curMem ← m.load32 (addr &&& ~~~3)
  let mem ← mergeSwr addr curMem v
  m.store32 fuel (addr &&& ~~~3) mem

end Machine

end CppStation
