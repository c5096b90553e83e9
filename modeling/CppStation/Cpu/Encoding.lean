import CppStation.Cpu.Run

/-!
# The format of instruction words

Every method but `opIllegal` has an opcode in bits [31:26], or in bits [5:0]
where those are zero.  The words that decode to it are those with its opcode,
and it executes alike for all words that agree on the bits it reads.
-/

namespace CppStation

open Fallible Instruction

namespace Op

/-- The opcode in bits [31:26]. -/
def function : Op → Nat
  | .opLui => 0b001111
  | .opOri => 0b001101
  | .opSw => 0b101011
  | .opAddiu => 0b001001
  | .opJ => 0b000010
  | .opCop0 => 0b010000
  | .opBne => 0b000101
  | .opAddi => 0b001000
  | .opLw => 0b100011
  | .opSh => 0b101001
  | .opJal => 0b000011
  | .opAndi => 0b001100
  | .opSb => 0b101000
  | .opLb => 0b100000
  | .opBeq => 0b000100
  | .opBlez => 0b000110
  | .opBgtz => 0b000111
  | .opLbu => 0b100100
  | .opBxx => 0b000001
  | .opSlti => 0b001010
  | .opSltiu => 0b001011
  | .opLhu => 0b100101
  | .opLh => 0b100001
  | .opXori => 0b001110
  | .opCop1 => 0b010001
  | .opCop2 => 0b010010
  | .opCop3 => 0b010011
  | .opLwl => 0b100010
  | .opLwr => 0b100110
  | .opSwl => 0b101010
  | .opSwr => 0b101110
  | .opLwc0 => 0b110000
  | .opLwc1 => 0b110001
  | .opLwc2 => 0b110010
  | .opLwc3 => 0b110011
  | .opSwc0 => 0b111000
  | .opSwc1 => 0b111001
  | .opSwc2 => 0b111010
  | .opSwc3 => 0b111011
  | _ => 0b000000

/-- The opcode in bits [5:0]. -/
def subfunction : Op → Option Nat
  | .opSll => some 0b000000
  | .opOr => some 0b100101
  | .opSltu => some 0b101011
  | .opAddu => some 0b100001
  | .opJr => some 0b001000
  | .opAnd => some 0b100100
  | .opAdd => some 0b100000
  | .opJalr => some 0b001001
  | .opSubu => some 0b100011
  | .opSra => some 0b000011
  | .opDiv => some 0b011010
  | .opMflo => some 0b010010
  | .opSrl => some 0b000010
  | .opDivu => some 0b011011
  | .opMfhi => some 0b010000
  | .opSlt => some 0b101010
  | .opSyscall => some 0b001100
  | .opMthi => some 0b010001
  | .opMtlo => some 0b010011
  | .opSllv => some 0b000100
  | .opNor => some 0b100111
  | .opSrav => some 0b000111
  | .opSrlv => some 0b000110
  | .opMultu => some 0b011001
  | .opXor => some 0b100110
  | .opBreak => some 0b001101
  | .opMult => some 0b011000
  | .opSub => some 0b100010
  | _ => none

/-- The word has the opcode of the method. -/
def Codes (op : Op) (w : Word) : Prop :=
  (Instruction.function w).toNat = op.function ∧
    ∀ k, op.subfunction = some k → (Instruction.subfunction w).toNat = k

/-- The bits of the opcode. -/
def opcodeBits (op : Op) : Word := if op.subfunction.isSome then 0xfc00003f else 0xfc000000

/-- The opcode in its place. -/
def code (op : Op) : Word :=
  (BitVec.ofNat 32 op.function <<< 26) ||| BitVec.ofNat 32 (op.subfunction.getD 0)

/-- The word of an instruction with the operands that `x` has in the other bits. -/
def encode (op : Op) (x : Word) : Word := op.code ||| (x &&& ~~~op.opcodeBits)

end Op

/-! ## Opcodes -/

theorem decodeSpecial_codes (w : Word) (h : (Instruction.function w).toNat = 0) :
    decodeSpecial w = .opIllegal ∨ (decodeSpecial w).Codes w := by
  unfold decodeSpecial
  split
  case h_29 => exact .inl rfl
  all_goals
    next heq =>
      refine .inr ⟨h, fun k hk => ?_⟩
      cases hk
      exact heq

theorem decode_codes (w : Word) : decode w = .opIllegal ∨ (decode w).Codes w := by
  unfold decode
  split
  case h_1 heq => exact decodeSpecial_codes w heq
  case h_41 => exact .inl rfl
  all_goals
    next heq =>
      refine .inr ⟨heq, fun k hk => ?_⟩
      cases hk

theorem decodeSpecial_congr {w w' : Word}
    (h : Instruction.subfunction w' = Instruction.subfunction w) :
    decodeSpecial w' = decodeSpecial w := by
  rw [decodeSpecial, h]
  rfl

/-- Only the opcode bits are decoded. -/
theorem decode_congr {w w' : Word} (hf : Instruction.function w' = Instruction.function w)
    (hs : Instruction.function w = 0 → Instruction.subfunction w' = Instruction.subfunction w) :
    decode w' = decode w := by
  unfold decode
  rw [hf]
  split
  case h_1 heq => exact decodeSpecial_congr (hs (BitVec.eq_of_toNat_eq heq))
  all_goals rfl

/-! ## Round trip -/

namespace Op

theorem code_function (op : Op) : (op.code >>> 26).toNat = op.function := by cases op <;> decide

theorem code_subfunction {op : Op} {k : Nat} (h : op.subfunction = some k) :
    (op.code &&& 0x3f).toNat = k := by
  cases op <;> cases h <;> decide

theorem opcodeBits_ushiftRight (op : Op) : ~~~op.opcodeBits >>> 26 = 0#32 := by
  unfold opcodeBits
  split <;> decide

theorem opcodeBits_low {op : Op} {k : Nat} (h : op.subfunction = some k) :
    ~~~op.opcodeBits &&& 0x3f = 0#32 := by
  rw [opcodeBits, h, Option.isSome_some, if_pos rfl]
  decide

theorem code_operands (op : Op) : op.code &&& ~~~op.opcodeBits = 0#32 := by cases op <;> decide

theorem encode_codes (op : Op) (x : Word) : op.Codes (op.encode x) := by
  constructor
  · rw [Instruction.function, encode, BitVec.ushiftRight_or_distrib,
      BitVec.ushiftRight_and_distrib, opcodeBits_ushiftRight, BitVec.and_zero, BitVec.or_zero]
    exact op.code_function
  · intro k hk
    rw [Instruction.subfunction, encode, BitVec.and_or_distrib_right, BitVec.and_assoc,
      opcodeBits_low hk, BitVec.and_zero, BitVec.or_zero]
    exact code_subfunction hk

/-- Two words with an opcode have it in the same bits. -/
theorem Codes.opcodeBits {op : Op} {w w' : Word} (h : op.Codes w) (h' : op.Codes w') :
    w &&& op.opcodeBits = w' &&& op.opcodeBits := by
  have hhigh : w &&& 0xfc000000 = w' &&& 0xfc000000 :=
    Bits.and_highMask_congr (k := 26) (BitVec.eq_of_toNat_eq (h.1.trans h'.1.symm))
  unfold Op.opcodeBits
  cases hk : op.subfunction with
  | none => exact hhigh
  | some k =>
    have hlow : w &&& 0x3f = w' &&& 0x3f :=
      BitVec.eq_of_toNat_eq ((h.2 k hk).trans (h'.2 k hk).symm)
    rw [Option.isSome_some, if_pos rfl, show (0xfc00003f : Word) = 0xfc000000 ||| 0x3f by decide,
      BitVec.and_or_distrib_left, BitVec.and_or_distrib_left, hhigh, hlow]

/-- The operands are in the bits that the opcode leaves. -/
theorem encode_operands (op : Op) (x : Word) :
    op.encode x &&& ~~~op.opcodeBits = x &&& ~~~op.opcodeBits := by
  rw [encode, BitVec.and_or_distrib_right, code_operands, BitVec.zero_or, BitVec.and_assoc,
    BitVec.and_self]

theorem Codes.encode {op : Op} {w : Word} (h : op.Codes w) : op.encode w = w :=
  Bits.eq_of_and_eq ((op.encode_codes w).opcodeBits h) (op.encode_operands w)

theorem Codes.decode {op : Op} {w : Word} (h : op.Codes w) (hop : op ≠ .opIllegal) :
    CppStation.decode w = op := by
  obtain ⟨hf, hs⟩ := h
  unfold CppStation.decode
  rw [hf]
  cases op
  case opIllegal => exact absurd rfl hop
  all_goals
    first
      | rfl
      | simp only [function, decodeSpecial, hs _ rfl]

end Op

theorem decode_iff {op : Op} (hop : op ≠ .opIllegal) (w : Word) :
    decode w = op ↔ ∃ x, op.encode x = w := by
  constructor
  · rintro rfl
    exact ⟨w, ((decode_codes w).resolve_left hop).encode⟩
  · rintro ⟨x, rfl⟩
    exact (op.encode_codes x).decode hop

/-- **Round trip**: the words that decode to a method are those that encode it, with any operands,
and the illegal words are those that encode no method. -/
theorem instruction_format :
    (∀ op : Op, op ≠ .opIllegal → ∀ w, decode w = op ↔ ∃ x, op.encode x = w) ∧
    (∀ w, decode w = .opIllegal ↔ ∀ op : Op, op ≠ .opIllegal → ∀ x, op.encode x ≠ w) ∧
    ∀ (op : Op) x, op.encode x &&& ~~~op.opcodeBits = x &&& ~~~op.opcodeBits := by
  refine ⟨fun op hop => decode_iff hop, fun w => ⟨?_, ?_⟩, Op.encode_operands⟩
  · intro hillegal op hop x hx
    exact hop (((decode_iff hop w).mpr ⟨x, hx⟩).symm.trans hillegal)
  · intro hnone
    by_contra hlegal
    obtain ⟨x, hx⟩ := (decode_iff hlegal w).mp rfl
    exact hnone _ hlegal x hx

/-! ## The bits that an instruction reads -/

/-- The operand bits that a method reads. -/
def Op.operandBits : Op → Word
  | .opSll | .opSrl | .opSra => 0x001fffc0
  | .opSllv | .opSrlv | .opSrav | .opOr | .opAnd | .opXor | .opNor | .opAddu | .opSubu | .opAdd
  | .opSub | .opSlt | .opSltu => 0x03fff800
  | .opDiv | .opDivu | .opMult | .opMultu => 0x03ff0000
  | .opMfhi | .opMflo => 0x0000f800
  | .opMthi | .opMtlo | .opJr => 0x03e00000
  | .opJalr => 0x03e0f800
  | .opLui => 0x001fffff
  | .opBlez | .opBgtz => 0x03e0ffff
  | .opCop0 => 0x03fff83f
  | .opSyscall | .opBreak | .opCop1 | .opCop2 | .opCop3 | .opLwc0 | .opLwc1 | .opLwc2 | .opLwc3
  | .opSwc0 | .opSwc1 | .opSwc2 | .opSwc3 => 0
  -- the low bits of a word with opcode zero that no method has
  | .opIllegal => 0x3f
  | _ => 0x03ffffff

/-- The bits of an instruction word that matter. -/
def Op.readBits (op : Op) : Word := op.opcodeBits ||| op.operandBits

section

variable {M w w' : Word}

theorem s_congr (h : w' &&& M = w &&& M) (hM : (M >>> 21) &&& 0x1f = 0x1f) : s w' = s w :=
  congrArg RegisterIndex.mk (Bits.field_congr h hM)

theorem t_congr (h : w' &&& M = w &&& M) (hM : (M >>> 16) &&& 0x1f = 0x1f) : t w' = t w :=
  congrArg RegisterIndex.mk (Bits.field_congr h hM)

theorem d_congr (h : w' &&& M = w &&& M) (hM : (M >>> 11) &&& 0x1f = 0x1f) : d w' = d w :=
  congrArg RegisterIndex.mk (Bits.field_congr h hM)

theorem shift_congr (h : w' &&& M = w &&& M) (hM : (M >>> 6) &&& 0x1f = 0x1f) :
    shift w' = shift w :=
  Bits.field_congr h hM

theorem imm_congr (h : w' &&& M = w &&& M) (hM : M &&& 0xffff = 0xffff) : imm w' = imm w :=
  Bits.and_congr_of_and h hM

theorem immSe_congr (h : w' &&& M = w &&& M) (hM : M &&& 0xffff = 0xffff) : immSe w' = immSe w :=
  congrArg (fun x : Word => (x.setWidth 16).signExtend 32) (Bits.and_congr_of_and h hM)

theorem immJump_congr (h : w' &&& M = w &&& M) (hM : M &&& 0x3ffffff = 0x3ffffff) :
    immJump w' = immJump w :=
  Bits.and_congr_of_and h hM

theorem function_and (x : Word) : (x >>> 26) &&& (0x3f : Word) = x >>> 26 := by
  have hlt := x.isLt
  have hdiv : (x >>> 26).toNat = x.toNat / 2 ^ 26 := by
    rw [BitVec.toNat_ushiftRight, Nat.shiftRight_eq_div_pow]
  apply BitVec.eq_of_toNat_eq
  rw [show (0x3f : Word) = BitVec.ofNat 32 (2 ^ 6 - 1) by decide, Bits.toNat_and_mask _ (by decide)]
  omega

theorem function_congr (h : w' &&& M = w &&& M) (hM : (M >>> 26) &&& 0x3f = 0x3f) :
    Instruction.function w' = Instruction.function w := by
  have hfield := Bits.field_congr h hM
  rwa [function_and, function_and] at hfield

theorem Op.readBits_function (op : Op) : (op.readBits >>> 26) &&& 0x3f = 0x3f := by
  cases op <;> decide

theorem Op.readBits_subfunction {op : Op} (h : op.function = 0) : op.readBits &&& 0x3f = 0x3f := by
  cases op <;> first | decide | cases h

/-- The opcode is among the bits that matter. -/
theorem decode_congr_of_readBits (h : w' &&& (decode w).readBits = w &&& (decode w).readBits) :
    decode w' = decode w := by
  refine decode_congr (function_congr h (decode w).readBits_function) fun hzero =>
    Bits.and_congr_of_and h (Op.readBits_subfunction ?_)
  rcases decode_codes w with hillegal | hcodes
  · rw [hillegal]
    rfl
  · rw [← hcodes.1, hzero]
    rfl

/-- The same outcome, but for the instruction word in the text of a panic. -/
inductive AgreeButWord {α : Type} (w w' : Word) (x x' : Result α) : Prop
  | same : x' = x → AgreeButWord w w' x x'
  | printed (format : String) : x = panic format [w.toNat] → x' = panic format [w'.toNat] →
      AgreeButWord w w' x x'

theorem AgreeButWord.ok_iff {α : Type} {x x' : Result α} (h : AgreeButWord w w' x x') (a : α) :
    x' = .ok a ↔ x = .ok a := by
  cases h with
  | same heq => rw [heq]
  | printed format hx hx' =>
    rw [hx, hx']
    exact iff_of_false (error_ne_ok _ a) (error_ne_ok _ a)

theorem AgreeButWord.bind {α β : Type} {x x' : Result α} (h : AgreeButWord w w' x x')
    (f : α → Result β) : AgreeButWord w w' (x >>= f) (x' >>= f) := by
  cases h with
  | same heq => exact .same (heq ▸ rfl)
  | printed format hx hx' =>
    refine .printed format ?_ ?_
    · rw [hx]
      rfl
    · rw [hx']
      rfl

theorem Cpu.opRfe_congr {c : Cpu} (h : w' &&& Op.opCop0.readBits = w &&& Op.opCop0.readBits) :
    AgreeButWord w w' (c.opRfe w) (c.opRfe w') := by
  have hlow : w' &&& 0x3f = w &&& 0x3f := Bits.and_congr_of_and h (by decide)
  unfold Cpu.opRfe
  rw [hlow]
  split
  · exact .printed _ rfl rfl
  · exact .same rfl

theorem Cpu.opCop0_congr {c : Cpu} (h : w' &&& Op.opCop0.readBits = w &&& Op.opCop0.readBits) :
    AgreeButWord w w' (c.opCop0 w) (c.opCop0 w') := by
  have ht : t w' = t w := t_congr h (by decide)
  have hd : d w' = d w := d_congr h (by decide)
  have hop : copOpcode w' = copOpcode w := Bits.field_congr h (by decide)
  unfold Cpu.opCop0
  rw [hop]
  split
  · exact .same (by rw [Cpu.opMfc0, Cpu.opMfc0, ht, hd])
  · exact .same (by rw [Cpu.opMtc0, Cpu.opMtc0, ht, hd])
  · exact Cpu.opRfe_congr h
  · exact .printed _ rfl rfl

namespace Machine

variable {fuel : Nat} {m m' : Machine}

/-- **Method lemma.** -/
theorem execOp_congr {op : Op} (h : w' &&& op.readBits = w &&& op.readBits) :
    AgreeButWord w w' (m.execOp fuel op w) (m.execOp fuel op w') := by
  cases op
  case opSll | opSrl | opSra =>
    have ht : t w' = t w := t_congr h (by decide)
    have hd : d w' = d w := d_congr h (by decide)
    have hshift : shift w' = shift w := shift_congr h (by decide)
    refine .same ?_
    simp only [execOp, Cpu.opSll, Cpu.opSrl, Cpu.opSra, ht, hd, hshift]
  case opSllv | opSrlv | opSrav | opOr | opAnd | opXor | opNor | opAddu | opSubu | opAdd
      | opSub | opSlt | opSltu =>
    have hs : s w' = s w := s_congr h (by decide)
    have ht : t w' = t w := t_congr h (by decide)
    have hd : d w' = d w := d_congr h (by decide)
    refine .same ?_
    simp only [execOp, Cpu.opSllv, Cpu.opSrlv, Cpu.opSrav, Cpu.opOr, Cpu.opAnd, Cpu.opXor,
      Cpu.opNor, Cpu.opAddu, Cpu.opSubu, Cpu.opAdd, Cpu.opSub, Cpu.opSlt, Cpu.opSltu, hs, ht, hd]
  case opDiv | opDivu | opMult | opMultu =>
    have hs : s w' = s w := s_congr h (by decide)
    have ht : t w' = t w := t_congr h (by decide)
    refine .same ?_
    simp only [execOp, Cpu.opDiv, Cpu.opDivu, Cpu.opMult, Cpu.opMultu, hs, ht]
  case opMfhi | opMflo =>
    have hd : d w' = d w := d_congr h (by decide)
    refine .same ?_
    simp only [execOp, Cpu.opMfhi, Cpu.opMflo, hd]
  case opMthi | opMtlo | opJr =>
    have hs : s w' = s w := s_congr h (by decide)
    refine .same ?_
    simp only [execOp, Cpu.opMthi, Cpu.opMtlo, Cpu.opJr, hs]
  case opJalr =>
    have hs : s w' = s w := s_congr h (by decide)
    have hd : d w' = d w := d_congr h (by decide)
    refine .same ?_
    simp only [execOp, Cpu.opJalr, hs, hd]
  case opLui =>
    have ht : t w' = t w := t_congr h (by decide)
    have himm : imm w' = imm w := imm_congr h (by decide)
    refine .same ?_
    simp only [execOp, Cpu.opLui, ht, himm]
  case opBlez | opBgtz =>
    have hs : s w' = s w := s_congr h (by decide)
    have himm : immSe w' = immSe w := immSe_congr h (by decide)
    refine .same ?_
    simp only [execOp, Cpu.opBlez, Cpu.opBgtz, hs, himm]
  case opJ | opJal =>
    have himm : immJump w' = immJump w := immJump_congr h (by decide)
    refine .same ?_
    simp only [execOp, Cpu.opJ, Cpu.opJal, himm]
  case opBxx =>
    have hs : s w' = s w := s_congr h (by decide)
    have himm : immSe w' = immSe w := immSe_congr h (by decide)
    have hgez : (w' >>> 16) &&& (1 : Word) = (w >>> 16) &&& 1 := Bits.field_congr h (by decide)
    have hlink : (w' >>> 17) &&& (0xf : Word) = (w >>> 17) &&& 0xf := Bits.field_congr h (by decide)
    refine .same ?_
    simp only [execOp, Cpu.opBxx, hs, himm, hgez, hlink]
  case opCop0 => exact (Cpu.opCop0_congr h).bind _
  case opCop2 | opLwc2 | opSwc2 => exact .printed _ rfl rfl
  case opSyscall | opBreak | opIllegal | opCop1 | opCop3 | opLwc0 | opLwc1 | opLwc3 | opSwc0
      | opSwc1 | opSwc3 =>
    exact .same rfl
  case opOri | opAndi | opXori | opAddi | opAddiu | opSlti | opSltiu | opBeq | opBne =>
    have hs : s w' = s w := s_congr h (by decide)
    have ht : t w' = t w := t_congr h (by decide)
    have himm : imm w' = imm w := imm_congr h (by decide)
    have himmSe : immSe w' = immSe w := immSe_congr h (by decide)
    refine .same ?_
    simp only [execOp, Cpu.opOri, Cpu.opAndi, Cpu.opXori, Cpu.opAddi, Cpu.opAddiu, Cpu.opSlti,
      Cpu.opSltiu, Cpu.opBeq, Cpu.opBne, hs, ht, himm, himmSe]
  all_goals
    have hs : s w' = s w := s_congr h (by decide)
    have ht : t w' = t w := t_congr h (by decide)
    have himmSe : immSe w' = immSe w := immSe_congr h (by decide)
    refine .same ?_
    simp only [execOp, opLw, opLb, opLbu, opLh, opLhu, opLwl, opLwr, opSw, opSh, opSb, opSwl,
      opSwr, effectiveAddr, hs, ht, himmSe]

/-- **Only the bits that a method reads matter**: words that agree on them decode to the same
method and do the same to every machine.  A panic has the same text, except that it may print the
word. -/
theorem decodeAndExecute_congr
    (h : w' &&& (decode w).readBits = w &&& (decode w).readBits) :
    decode w' = decode w ∧
      (m.decodeAndExecute fuel w' = .ok m' ↔ m.decodeAndExecute fuel w = .ok m') ∧
      AgreeButWord w w' (m.decodeAndExecute fuel w) (m.decodeAndExecute fuel w') := by
  have hdecode := decode_congr_of_readBits h
  have hagree : AgreeButWord w w' (m.decodeAndExecute fuel w) (m.decodeAndExecute fuel w') := by
    rw [decodeAndExecute, decodeAndExecute, hdecode]
    exact execOp_congr h
  exact ⟨hdecode, hagree.ok_iff m', hagree⟩

/-- The shift amount of ADDU does not matter. -/
theorem decodeAndExecute_congr_addu :
    decode 0x00000fe1 = .opAddu ∧ (reset (.ofWords [])).decodeAndExecute 0 0x00000fe1 =
      (reset (.ofWords [])).onCpu (·.opAddu 0x00000821) := by
  let m : Machine := reset (.ofWords [])
  let m' : Machine := ⟨m.mCpu.opAddu 0x00000821, m.mBus⟩
  have h := @decodeAndExecute_congr 0x00000821 0x00000fe1 0 m m' (by decide)
  exact ⟨h.1.trans (by decide), h.2.1.mpr rfl⟩

end Machine

end

end CppStation
