import CppStation.Basic
import CppStation.Lib.Bits
import Mathlib.Algebra.GroupWithZero.Nat

/-! # Instruction words: fields and decoding (`cpu/cpu.hpp`, `Cpu::decodeAndExecute`) -/

namespace CppStation

structure RegisterIndex where
  val : Word
  deriving DecidableEq, Repr

/-- The register files have 32 slots. -/
instance instNeZeroSlots : NeZero 32 := ⟨Nat.succ_ne_zero 31⟩

/-- The array slot of a register index.  Every index formed by the program is
below 32 (`Instruction.t_lt`, `s_lt`, `d_lt`), where this is the index. -/
def RegisterIndex.slot (index : RegisterIndex) : Fin 32 := Fin.ofNat 32 index.val.toNat

inductive Exception
  | loadAddressError
  | storeAddressError
  | sysCall
  | «break»
  | illegalInstruction
  | coprocessorError
  | overflow
  deriving DecidableEq, Repr

def Exception.toWord : Exception → Word
  | .loadAddressError => 0x4
  | .storeAddressError => 0x5
  | .sysCall => 0x8
  | .break => 0x9
  | .illegalInstruction => 0xa
  | .coprocessorError => 0xb
  | .overflow => 0xc

namespace Instruction

/-- Bits [31:26]. -/
def function (instruction : Word) : Word := instruction >>> 26

/-- Bits [5:0]. -/
def subfunction (instruction : Word) : Word := instruction &&& 0x3f

/-- Coprocessor opcode in bits [25:21]. -/
def copOpcode (instruction : Word) : Word := (instruction >>> 21) &&& 0x1f

/-- Register index in bits [20:16]. -/
def t (instruction : Word) : RegisterIndex := ⟨(instruction >>> 16) &&& 0x1f⟩

/-- Register index in bits [25:21]. -/
def s (instruction : Word) : RegisterIndex := ⟨(instruction >>> 21) &&& 0x1f⟩

/-- Register index in bits [15:11]. -/
def d (instruction : Word) : RegisterIndex := ⟨(instruction >>> 11) &&& 0x1f⟩

/-- Immediate value in the low half. -/
def imm (instruction : Word) : Word := instruction &&& 0xffff

/-- Immediate value in the low half, sign-extended. -/
def immSe (instruction : Word) : Word := ((instruction &&& 0xffff).setWidth 16).signExtend 32

/-- Jump target in bits [25:0]. -/
def immJump (instruction : Word) : Word := instruction &&& 0x3ffffff

/-- Shift immediate in bits [10:6]. -/
def shift (instruction : Word) : Word := (instruction >>> 6) &&& 0x1f

theorem and_1f_lt (x : Word) : x &&& 0x1f < 32 := by
  rw [BitVec.lt_def]
  exact Nat.lt_of_le_of_lt (Bits.toNat_and_le x 0x1f) (by decide)

theorem t_lt (instruction : Word) : (t instruction).val < 32 := and_1f_lt _

end Instruction

/-- The opcode methods of the CPU. -/
inductive Op
  | opSll | opOr | opSltu | opAddu | opJr | opAnd | opAdd | opJalr | opSubu | opSra
  | opDiv | opMflo | opSrl | opDivu | opMfhi | opSlt | opSyscall | opMthi | opMtlo | opSllv
  | opNor | opSrav | opSrlv | opMultu | opXor | opBreak | opMult | opSub
  | opLui | opOri | opSw | opAddiu | opJ | opCop0 | opBne | opAddi | opLw | opSh | opJal
  | opAndi | opSb | opLb | opBeq | opBlez | opBgtz | opLbu | opBxx | opSlti | opSltiu
  | opLhu | opLh | opXori | opCop1 | opCop2 | opCop3 | opLwl | opLwr | opSwl | opSwr
  | opLwc0 | opLwc1 | opLwc2 | opLwc3 | opSwc0 | opSwc1 | opSwc2 | opSwc3
  | opIllegal
  deriving DecidableEq, Repr

/-- The inner `switch` of `decodeAndExecute`. -/
def decodeSpecial (instruction : Word) : Op :=
  match (Instruction.subfunction instruction).toNat with
  | 0b000000 => .opSll
  | 0b100101 => .opOr
  | 0b101011 => .opSltu
  | 0b100001 => .opAddu
  | 0b001000 => .opJr
  | 0b100100 => .opAnd
  | 0b100000 => .opAdd
  | 0b001001 => .opJalr
  | 0b100011 => .opSubu
  | 0b000011 => .opSra
  | 0b011010 => .opDiv
  | 0b010010 => .opMflo
  | 0b000010 => .opSrl
  | 0b011011 => .opDivu
  | 0b010000 => .opMfhi
  | 0b101010 => .opSlt
  | 0b001100 => .opSyscall
  | 0b010001 => .opMthi
  | 0b010011 => .opMtlo
  | 0b000100 => .opSllv
  | 0b100111 => .opNor
  | 0b000111 => .opSrav
  | 0b000110 => .opSrlv
  | 0b011001 => .opMultu
  | 0b100110 => .opXor
  | 0b001101 => .opBreak
  | 0b011000 => .opMult
  | 0b100010 => .opSub
  | _ => .opIllegal

/-- The method that `decodeAndExecute` calls. -/
def decode (instruction : Word) : Op :=
  match (Instruction.function instruction).toNat with
  | 0b000000 => decodeSpecial instruction
  | 0b001111 => .opLui
  | 0b001101 => .opOri
  | 0b101011 => .opSw
  | 0b001001 => .opAddiu
  | 0b000010 => .opJ
  | 0b010000 => .opCop0
  | 0b000101 => .opBne
  | 0b001000 => .opAddi
  | 0b100011 => .opLw
  | 0b101001 => .opSh
  | 0b000011 => .opJal
  | 0b001100 => .opAndi
  | 0b101000 => .opSb
  | 0b100000 => .opLb
  | 0b000100 => .opBeq
  | 0b000110 => .opBlez
  | 0b000111 => .opBgtz
  | 0b100100 => .opLbu
  | 0b000001 => .opBxx
  | 0b001010 => .opSlti
  | 0b001011 => .opSltiu
  | 0b100101 => .opLhu
  | 0b100001 => .opLh
  | 0b001110 => .opXori
  | 0b010001 => .opCop1
  | 0b010010 => .opCop2
  | 0b010011 => .opCop3
  | 0b100010 => .opLwl
  | 0b100110 => .opLwr
  | 0b101010 => .opSwl
  | 0b101110 => .opSwr
  | 0b110000 => .opLwc0
  | 0b110001 => .opLwc1
  | 0b110010 => .opLwc2
  | 0b110011 => .opLwc3
  | 0b111000 => .opSwc0
  | 0b111001 => .opSwc1
  | 0b111010 => .opSwc2
  | 0b111011 => .opSwc3
  | _ => .opIllegal

end CppStation
