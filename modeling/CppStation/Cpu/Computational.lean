import CppStation.Cpu.Effect
import CppStation.Lib.Bits

/-!
# The computational instructions

`Computational` lists the MIPS I instructions that compute a register from
registers and immediates and never trap.  Their encoding, destination and
result are stated in the terms of the architecture, with numbers; the decoder
and the opcode methods conform to them.
-/

namespace CppStation

open Instruction Fallible

/-! ## The architecture -/

inductive Computational
  | sll | srl | sra | sllv | srlv | srav | addu | subu | and | or | xor | nor | slt | sltu
  | addiu | slti | sltiu | andi | ori | xori | lui
  deriving DecidableEq, Repr

/-- The field of `width` bits of an instruction word that starts at bit `low`. -/
def bitField (w : Word) (low width : Nat) : Nat := w.toNat / 2 ^ low % 2 ^ width

/-- The immediate as a signed number. -/
def signedImmediate (w : Word) : Int :=
  if bitField w 0 16 < 2 ^ 15 then bitField w 0 16 else bitField w 0 16 - 2 ^ 16

/-- The field of `5` bits at `low`, as a register number. -/
def registerField (w : Word) (low : Nat) : Fin 32 := Fin.ofNat 32 (bitField w low 5)

/-- The outcome of a comparison. -/
def flag (p : Prop) [Decidable p] : Word := if p then 1 else 0

namespace Computational

/-- The major opcode, and for major opcode 0 the function. -/
def encoding : Computational → Nat × Option Nat
  | sll => (0x00, some 0x00)
  | srl => (0x00, some 0x02)
  | sra => (0x00, some 0x03)
  | sllv => (0x00, some 0x04)
  | srlv => (0x00, some 0x06)
  | srav => (0x00, some 0x07)
  | addu => (0x00, some 0x21)
  | subu => (0x00, some 0x23)
  | and => (0x00, some 0x24)
  | or => (0x00, some 0x25)
  | xor => (0x00, some 0x26)
  | nor => (0x00, some 0x27)
  | slt => (0x00, some 0x2a)
  | sltu => (0x00, some 0x2b)
  | addiu => (0x09, none)
  | slti => (0x0a, none)
  | sltiu => (0x0b, none)
  | andi => (0x0c, none)
  | ori => (0x0d, none)
  | xori => (0x0e, none)
  | lui => (0x0f, none)

/-- The word `w` is an instruction of this kind. -/
def Encodes (k : Computational) (w : Word) : Prop :=
  bitField w 26 6 = k.encoding.1 ∧ ∀ f ∈ k.encoding.2, bitField w 0 6 = f

/-- The register that is written: `rd` for the register forms, `rt` for the immediate forms. -/
def destination (k : Computational) (w : Word) : Fin 32 :=
  if k.encoding.2.isSome then registerField w 11 else registerField w 16

/-- The result, from the values of `rs` and `rt`. -/
def result (k : Computational) (w rs rt : Word) : Word :=
  match k with
  | sll => BitVec.ofNat 32 (rt.toNat * 2 ^ bitField w 6 5)
  | srl => BitVec.ofNat 32 (rt.toNat / 2 ^ bitField w 6 5)
  -- The quotient is rounded down, so the sign is replicated
  | sra => BitVec.ofInt 32 (rt.toInt / 2 ^ bitField w 6 5)
  | sllv => BitVec.ofNat 32 (rt.toNat * 2 ^ (rs.toNat % 32))
  | srlv => BitVec.ofNat 32 (rt.toNat / 2 ^ (rs.toNat % 32))
  | srav => BitVec.ofInt 32 (rt.toInt / 2 ^ (rs.toNat % 32))
  | addu => BitVec.ofNat 32 (rs.toNat + rt.toNat)
  | subu => BitVec.ofInt 32 (rs.toNat - rt.toNat)
  | and => rs &&& rt
  | or => rs ||| rt
  | xor => rs ^^^ rt
  | nor => ~~~(rs ||| rt)
  | slt => flag (rs.toInt < rt.toInt)
  | sltu => flag (rs.toNat < rt.toNat)
  | addiu => BitVec.ofInt 32 (rs.toInt + signedImmediate w)
  | slti => flag (rs.toInt < signedImmediate w)
  | sltiu => flag (rs.toNat < (BitVec.ofInt 32 (signedImmediate w)).toNat)
  | andi => rs &&& BitVec.ofNat 32 (bitField w 0 16)
  | ori => rs ||| BitVec.ofNat 32 (bitField w 0 16)
  | xori => rs ^^^ BitVec.ofNat 32 (bitField w 0 16)
  | lui => BitVec.ofNat 32 (bitField w 0 16 * 2 ^ 16)

end Computational

/-! ## The fields -/

theorem toNat_field (w : Word) (low : Nat) :
    ((w >>> low) &&& 0x1f).toNat = bitField w low 5 := by
  have h := Bits.toNat_and_mask (w >>> low) (k := 5) (by decide)
  rwa [BitVec.toNat_ushiftRight, Nat.shiftRight_eq_div_pow] at h

theorem slot_field (w : Word) (low : Nat) :
    (⟨(w >>> low) &&& 0x1f⟩ : RegisterIndex).slot = registerField w low :=
  congrArg (Fin.ofNat 32) (toNat_field w low)

/-- The destination of the register forms is `rd`, that of the immediate forms is `rt`. -/
theorem slot_destination (isRegisterForm : Bool) (w : Word) :
    (if isRegisterForm then d w else t w).slot =
      if isRegisterForm then registerField w 11 else registerField w 16 := by
  cases isRegisterForm
  · exact slot_field w 16
  · exact slot_field w 11

theorem toNat_function (w : Word) : (function w).toNat = bitField w 26 6 := by
  rw [function, BitVec.toNat_ushiftRight, Nat.shiftRight_eq_div_pow, bitField]
  have hlt := w.isLt
  omega

theorem toNat_subfunction (w : Word) : (subfunction w).toNat = bitField w 0 6 := by
  rw [bitField, Nat.pow_zero, Nat.div_one]
  exact Bits.toNat_and_mask w (k := 6) (by decide)

theorem toNat_imm (w : Word) : (imm w).toNat = bitField w 0 16 := by
  rw [bitField, Nat.pow_zero, Nat.div_one]
  exact Bits.toNat_and_mask w (k := 16) (by decide)

theorem imm_eq (w : Word) : imm w = BitVec.ofNat 32 (bitField w 0 16) := by
  rw [← toNat_imm, BitVec.ofNat_toNat, BitVec.setWidth_eq]

theorem toInt_immSe (w : Word) : (immSe w).toInt = signedImmediate w := by
  have hhalf : ((w &&& 0xffff).setWidth 16).toNat = bitField w 0 16 := by
    have hlt : bitField w 0 16 < 2 ^ 16 := Nat.mod_lt _ (by decide)
    rw [BitVec.toNat_setWidth, ← imm, toNat_imm]
    exact Nat.mod_eq_of_lt hlt
  rw [immSe, BitVec.toInt_signExtend_of_le (by decide), BitVec.toInt_eq_toNat_cond, hhalf,
    signedImmediate]
  split
  · rw [if_pos (by omega)]
  · rw [if_neg (by omega)]
    rfl

theorem immSe_eq (w : Word) : immSe w = BitVec.ofInt 32 (signedImmediate w) := by
  rw [← toInt_immSe, BitVec.ofInt_toInt]

/-! ## The operations -/

theorem shl_eq (x y : Word) {n : Nat} (h : y.toNat = n) :
    x <<< y = BitVec.ofNat 32 (x.toNat * 2 ^ n) := by
  apply BitVec.eq_of_toNat_eq
  rw [BitVec.shiftLeft_eq', BitVec.toNat_shiftLeft, Nat.shiftLeft_eq, h, BitVec.toNat_ofNat]

theorem shr_eq (x y : Word) {n : Nat} (h : y.toNat = n) :
    x >>> y = BitVec.ofNat 32 (x.toNat / 2 ^ n) := by
  apply BitVec.eq_of_toNat_eq
  rw [BitVec.ushiftRight_eq', BitVec.toNat_ushiftRight, Nat.shiftRight_eq_div_pow, h,
    BitVec.toNat_ofNat]
  exact (Nat.mod_eq_of_lt (Nat.lt_of_le_of_lt (Nat.div_le_self _ _) x.isLt)).symm

theorem sar_eq (x y : Word) {n : Nat} (h : y.toNat = n) :
    x.sshiftRight y.toNat = BitVec.ofInt 32 (x.toInt / 2 ^ n) := by
  rw [h, BitVec.sshiftRight, Int.shiftRight_eq_div_pow]
  rfl

theorem slt_eq (x y : Word) : ofBool (x.slt y) = flag (x.toInt < y.toInt) := by
  rw [BitVec.slt, ofBool, flag]
  simp only [decide_eq_true_eq]

theorem sltu_eq (x y : Word) : ofBool (decide (x < y)) = flag (x.toNat < y.toNat) := by
  rw [ofBool, flag]
  simp only [decide_eq_true_eq, BitVec.lt_def]

theorem add_eq (x y : Word) : x + y = BitVec.ofNat 32 (x.toNat + y.toNat) := by
  apply BitVec.eq_of_toNat_eq
  rw [BitVec.toNat_add, BitVec.toNat_ofNat]

theorem sub_eq (x y : Word) : x - y = BitVec.ofInt 32 (x.toNat - y.toNat) := by
  apply BitVec.eq_of_toNat_eq
  rw [BitVec.toNat_sub, BitVec.toNat_ofInt]
  have hx := x.isLt
  have hy := y.isLt
  omega

theorem addImmediate_eq (x w : Word) :
    x + immSe w = BitVec.ofInt 32 (x.toInt + signedImmediate w) := by
  rw [immSe_eq, BitVec.ofInt_add, BitVec.ofInt_toInt]

theorem lui_eq (w : Word) : imm w <<< 16 = BitVec.ofNat 32 (bitField w 0 16 * 2 ^ 16) := by
  rw [← toNat_imm]
  exact shl_eq (imm w) 16 rfl

/-! ## The program -/

namespace Computational

/-- The method of the instruction. -/
def op : Computational → Op
  | sll => .opSll
  | srl => .opSrl
  | sra => .opSra
  | sllv => .opSllv
  | srlv => .opSrlv
  | srav => .opSrav
  | addu => .opAddu
  | subu => .opSubu
  | and => .opAnd
  | or => .opOr
  | xor => .opXor
  | nor => .opNor
  | slt => .opSlt
  | sltu => .opSltu
  | addiu => .opAddiu
  | slti => .opSlti
  | sltiu => .opSltiu
  | andi => .opAndi
  | ori => .opOri
  | xori => .opXori
  | lui => .opLui

/-- **The decoder** finds the method. -/
theorem Encodes.decode {k : Computational} {w : Word} (h : k.Encodes w) : decode w = k.op := by
  obtain ⟨hmajor, hfunction⟩ := h
  rw [← toNat_function] at hmajor
  rw [← toNat_subfunction] at hfunction
  cases k
  case addiu | slti | sltiu | andi | ori | xori | lui =>
    simp only [encoding] at hmajor
    simp only [CppStation.decode, hmajor]
    rfl
  all_goals
    simp only [encoding, Option.mem_some_iff, forall_eq'] at hmajor hfunction
    simp only [CppStation.decode, hmajor, decodeSpecial, hfunction]
    rfl

/-- The register that the program writes. -/
def index (k : Computational) (w : Word) : RegisterIndex :=
  if k.encoding.2.isSome then d w else t w

theorem slot_index (k : Computational) (w : Word) : (k.index w).slot = k.destination w :=
  slot_destination k.encoding.2.isSome w

/-- **The methods** compute the result. -/
theorem effect_eq (k : Computational) (w : Word) (file merged : Fin 32 → Word) (c : Control)
    (b : Bus) :
    effect k.op w file merged c b = .ok {
      write := some (k.index w, k.result w (file (registerField w 21)) (file (registerField w 16))) } := by
  have hs : (s w).slot = registerField w 21 := slot_field w 21
  have ht : (t w).slot = registerField w 16 := slot_field w 16
  rw [← hs, ← ht]
  have hshift := toNat_field w 6
  have hamount : ∀ x : Word, (x &&& 0x1f).toNat = x.toNat % 32 := fun x =>
    Bits.toNat_and_mask x (k := 5) (by decide)
  cases k
  case sll => exact congrArg (writeD w) (shl_eq _ _ hshift)
  case srl => exact congrArg (writeD w) (shr_eq _ _ hshift)
  case sra => exact congrArg (writeD w) (sar_eq _ _ hshift)
  case sllv => exact congrArg (writeD w) (shl_eq _ _ (hamount _))
  case srlv => exact congrArg (writeD w) (shr_eq _ _ (hamount _))
  case srav => exact congrArg (writeD w) (sar_eq _ _ (hamount _))
  case addu => exact congrArg (writeD w) (add_eq _ _)
  case subu => exact congrArg (writeD w) (sub_eq _ _)
  case slt => exact congrArg (writeD w) (slt_eq _ _)
  case sltu => exact congrArg (writeD w) (sltu_eq _ _)
  case addiu => exact congrArg (writeT w) (addImmediate_eq _ w)
  case slti =>
    have h := slt_eq (file (s w).slot) (immSe w)
    rw [toInt_immSe] at h
    exact congrArg (writeT w) h
  case sltiu =>
    have h := sltu_eq (file (s w).slot) (immSe w)
    have hresult : flag ((file (s w).slot).toNat < (immSe w).toNat) =
        sltiu.result w (file (s w).slot) (file (t w).slot) := by
      rw [immSe_eq]
      rfl
    exact congrArg (writeT w) (h.trans hresult)
  case andi => exact congrArg (fun i => writeT w (file (s w).slot &&& i)) (imm_eq w)
  case ori => exact congrArg (fun i => writeT w (file (s w).slot ||| i)) (imm_eq w)
  case xori => exact congrArg (fun i => writeT w (file (s w).slot ^^^ i)) (imm_eq w)
  case lui => exact congrArg (writeT w) (lui_eq w)
  all_goals rfl

end Computational

namespace Machine

/-- The output registers after `v` is written to `i`; R0 stays 0. -/
def written (m : Machine) (i : Fin 32) (v : Word) (j : Fin 32) : Word :=
  if j = 0 then 0 else if j = i then v else m.mCpu.mOutRegs j

theorem update_clear_written (m : Machine) (i : Fin 32) (v : Word) :
    Function.update (Function.update m.mCpu.mOutRegs i v) 0 0 = m.written i v := by
  funext j
  rw [written, Function.update_apply, Function.update_apply]

/-- **The computational instructions conform.**  Each writes its result to its destination in the
output registers, clears R0 there, and changes nothing else. -/
theorem decodeAndExecute_computational {k : Computational} {w : Word} (h : k.Encodes w) (fuel : Nat)
    (m : Machine) :
    m.decodeAndExecute fuel w = .ok { m with
      mCpu := { m.mCpu with
        mOutRegs := m.written (k.destination w) (k.result w (m.mCpu.mRegs (registerField w 21))
          (m.mCpu.mRegs (registerField w 16))) } } := by
  rw [decodeAndExecute, h.decode, execOp_eq_effect, k.effect_eq, ok_bind,
    ← update_clear_written, ← k.slot_index]
  rfl

/-- `sltiu r2, r1, -1` compares with the largest word. -/
theorem decodeAndExecute_sltiu :
    ∃ m', (reset (.ofWords [])).decodeAndExecute 0 0x2c22ffff = .ok m' ∧
      m'.mCpu.mOutRegs 2 = 1 ∧ m'.mCpu.mOutRegs 3 = 0xdeadc0de := by
  have hencodes : Computational.sltiu.Encodes 0x2c22ffff := ⟨by decide, by decide⟩
  exact ⟨_, decodeAndExecute_computational hencodes 0 (reset (.ofWords [])), by decide, by decide⟩

end Machine

end CppStation
