import CppStation.Cpu.Step

/-!
# What an instruction does

`effect` states the result of each opcode as a value: the exception it raises,
the register it writes, the load it schedules, the jump it takes, its writes to
HI, LO and SR, and the store it makes.  It reads the source operands from
`file` and the word that LWL and LWR merge with from `merged`.
`execOp_eq_effect` connects it to the opcode methods; every result about all
instructions is derived from it.
-/

namespace CppStation

open Instruction Fallible

/-- A store handed to the bus. -/
inductive StoreReq
  | word (addr val : Word)
  | half (addr : Word) (val : Half)
  | byte (addr : Word) (val : Byte)
  deriving DecidableEq, Repr

def StoreReq.perform (fuel : Nat) (b : Bus) : StoreReq → Result Bus
  | .word addr val => b.store32 fuel addr val
  | .half addr val => b.store16 addr val
  | .byte addr val => b.store8 addr val

/-- The address is a multiple of the width. -/
def StoreReq.Aligned : StoreReq → Prop
  | .word addr _ => addr.toNat % 4 = 0
  | .half addr _ => addr.toNat % 2 = 0
  | .byte _ _ => True

structure Effect where
  raise : Option Exception := none
  write : Option (RegisterIndex × Word) := none
  load : Option (RegisterIndex × Word) := none
  jump : Option Word := none
  hiLo : Option (Word × Word) := none
  sr : Option Word := none
  store : Option StoreReq := none

namespace Effect

/-- The control state after the effect. -/
def control (e : Effect) (c : Control) : Control :=
  let c := match e.raise with | some cause => c.exception cause | none => c
  let c := match e.hiLo with | some (hi, lo) => { c with mHi := hi, mLo := lo } | none => c
  let c := match e.sr with | some v => { c with mSr := v } | none => c
  match e.jump with | some target => { c with mNextPc := target, mBranch := true } | none => c

/-- The register file after the effect's own write. -/
def file (e : Effect) (f : Fin 32 → Word) : Fin 32 → Word :=
  match e.write with
  | some (index, v) => Function.update (Function.update f index.slot v) 0 0
  | none => f

/-- The pending load after the effect. -/
def pending (e : Effect) (p : RegisterIndex × Word) : RegisterIndex × Word := e.load.getD p

/-- The bus after the effect. -/
def bus (e : Effect) (fuel : Nat) (b : Bus) : Result Bus :=
  match e.store with
  | some request => request.perform fuel b
  | none => .ok b

end Effect

/-- The value read by MFC0. -/
def cop0Read (c : Control) (copR : Word) : Result Word :=
  match copR.toNat with
  | 12 => .ok c.mSr
  | 13 => .ok c.mCause
  | 14 => .ok c.mEpc
  | _ => panic "Unhandled read from cop0r\x7b\x7d" [copR.toNat]

/-- The effect of MTC0. -/
def cop0Write (copR v : Word) : Result Effect :=
  match copR.toNat with
  | 3 | 5 | 6 | 7 | 9 | 11 =>
    if v ≠ 0 then panic "Unhandled write to cop0r\x7b\x7d" [copR.toNat] else .ok {}
  | 12 => .ok { sr := some v }
  | 13 => if v ≠ 0 then panic "Unhandled write to CAUSE register." [] else .ok {}
  | _ => panic "Unhandled cop0 register \x7b\x7d" [copR.toNat]

/-- The effect of RFE. -/
def rfeEffect (c : Control) (instruction : Word) : Result Effect :=
  if (instruction &&& 0x3f) ≠ 0b010000 then
    panic "Invalid cop0 instruction: \x7b\x7d" [instruction.toNat]
  else
    .ok { sr := some ((c.mSr &&& lnot 0x3f) ||| ((c.mSr &&& 0x3f) >>> 2)) }

def cop0Effect (c : Control) (instruction rt : Word) : Result Effect :=
  match (copOpcode instruction).toNat with
  | 0b00000 => do
    let v ← cop0Read c (d instruction).val
    return { load := some (t instruction, v) }
  | 0b00100 => cop0Write (d instruction).val rt
  | 0b10000 => rfeEffect c instruction
  | _ => panic "unhandled cop0 instruction \x7b:08x\x7d" [instruction.toNat]

/-- HI and LO after DIV. -/
def divHiLo (n d : Word) : Word × Word :=
  if d = 0 then (n, if (0 : Word).sle n then 0xffffffff else 1)
  else if n = 0x80000000 ∧ d = -1 then (0, 0x80000000)
  else (n.srem d, n.sdiv d)

/-- HI and LO after DIVU. -/
def divuHiLo (n d : Word) : Word × Word := if d = 0 then (n, 0xffffffff) else (n % d, n / d)

/-- A 64-bit product as HI and LO. -/
def splitProduct (v : BitVec 64) : Word × Word := ((v >>> 32).setWidth 32, v.setWidth 32)

section

variable (instruction : Word)

def writeD (v : Word) : Result Effect := .ok { write := some (d instruction, v) }

def writeT (v : Word) : Result Effect := .ok { write := some (t instruction, v) }

def loadT (v : Word) : Result Effect := .ok { load := some (t instruction, v) }

/-- A conditional branch of `mPc + (imm << 2)`. -/
def branchIf (c : Control) (taken : Bool) : Option Word :=
  if taken then some (c.mPc + (immSe instruction <<< 2)) else none

/-- The jump target of J and JAL. -/
def jumpTarget (c : Control) : Word := (c.mNextPc &&& 0xf0000000) ||| (immJump instruction <<< 2)

/-- The test of BGEZ, BLTZ, BGEZAL and BLTZAL. -/
def bxxTaken (rs : Word) : Bool :=
  (ofBool (rs.slt 0) ^^^ ofBool (truth ((instruction >>> 16) &&& 1))) != 0

/-- The link bits of BGEZAL and BLTZAL. -/
def bxxLinks : Bool := ((instruction >>> 17) &&& 0xf) == 8

end

def effect (op : Op) (instruction : Word) (file merged : Fin 32 → Word) (c : Control) (b : Bus) :
    Result Effect :=
  let rs := file (s instruction).slot
  let rt := file (t instruction).slot
  let addr := rs + immSe instruction
  match op with
  | .opSll => writeD instruction (rt <<< shift instruction)
  | .opSrl => writeD instruction (rt >>> shift instruction)
  | .opSra => writeD instruction (rt.sshiftRight (shift instruction).toNat)
  | .opSllv => writeD instruction (rt <<< (rs &&& 0x1f))
  | .opSrlv => writeD instruction (rt >>> (rs &&& 0x1f))
  | .opSrav => writeD instruction (rt.sshiftRight (rs &&& 0x1f).toNat)
  | .opOr => writeD instruction (rs ||| rt)
  | .opAnd => writeD instruction (rs &&& rt)
  | .opXor => writeD instruction (rs ^^^ rt)
  | .opNor => writeD instruction (~~~(rs ||| rt))
  | .opAddu => writeD instruction (rs + rt)
  | .opSubu => writeD instruction (rs - rt)
  | .opSlt => writeD instruction (ofBool (rs.slt rt))
  | .opSltu => writeD instruction (ofBool (decide (rs < rt)))
  | .opMfhi => writeD instruction c.mHi
  | .opMflo => writeD instruction c.mLo
  | .opLui => writeT instruction (imm instruction <<< 16)
  | .opOri => writeT instruction (rs ||| imm instruction)
  | .opAndi => writeT instruction (rs &&& imm instruction)
  | .opXori => writeT instruction (rs ^^^ imm instruction)
  | .opAddiu => writeT instruction (rs + immSe instruction)
  | .opSlti => writeT instruction (ofBool (rs.slt (immSe instruction)))
  | .opSltiu => writeT instruction (ofBool (decide (rs < immSe instruction)))
  -- ADD and ADDI also write their destination when they overflow, SUB does not
  | .opAdd => .ok {
      raise := if addOverflow rs rt (rs + rt) then some .overflow else none
      write := some (d instruction, rs + rt) }
  | .opAddi => .ok {
      raise :=
        if addOverflow rs (immSe instruction) (rs + immSe instruction) then some .overflow else none
      write := some (t instruction, rs + immSe instruction) }
  | .opSub =>
    if subOverflow rs rt (rs - rt) then .ok { raise := some .overflow }
    else writeD instruction (rs - rt)
  | .opDiv => .ok { hiLo := some (divHiLo rs rt) }
  | .opDivu => .ok { hiLo := some (divuHiLo rs rt) }
  | .opMult => .ok { hiLo := some (splitProduct (rs.signExtend 64 * rt.signExtend 64)) }
  | .opMultu => .ok { hiLo := some (splitProduct (rs.setWidth 64 * rt.setWidth 64)) }
  | .opMthi => .ok { hiLo := some (rs, c.mLo) }
  | .opMtlo => .ok { hiLo := some (c.mHi, rs) }
  | .opJ => .ok { jump := some (jumpTarget instruction c) }
  | .opJal => .ok { write := some (⟨31⟩, c.mNextPc), jump := some (jumpTarget instruction c) }
  | .opJr => .ok { jump := some rs }
  | .opJalr => .ok { write := some (d instruction, c.mNextPc), jump := some rs }
  | .opBeq => .ok { jump := branchIf instruction c (decide (rs = rt)) }
  | .opBne => .ok { jump := branchIf instruction c (decide (rs ≠ rt)) }
  | .opBgtz => .ok { jump := branchIf instruction c ((0 : Word).slt rs) }
  | .opBlez => .ok { jump := branchIf instruction c (rs.sle 0) }
  | .opBxx => .ok {
      write := if bxxLinks instruction then some (⟨31⟩, c.mNextPc) else none
      jump := branchIf instruction c (bxxTaken instruction rs) }
  | .opSyscall => .ok { raise := some .sysCall }
  | .opBreak => .ok { raise := some .break }
  | .opIllegal => .ok { raise := some .illegalInstruction }
  | .opCop1 | .opCop3 | .opLwc0 | .opLwc1 | .opLwc3 | .opSwc0 | .opSwc1 | .opSwc3 =>
    .ok { raise := some .coprocessorError }
  | .opCop2 => panic "unhandled GTE instruction: \x7b\x7d" [instruction.toNat]
  | .opLwc2 => panic "unhandled GTE LWC: \x7b\x7d" [instruction.toNat]
  | .opSwc2 => panic "unhandled GTE SWC: \x7b\x7d" [instruction.toNat]
  | .opCop0 => cop0Effect c instruction rt
  | .opLw =>
    if c.cacheIsolated then .ok {}
    else b.load32 addr >>= fun v => loadT instruction v
  | .opLb => b.load8 addr >>= fun v => loadT instruction (v.signExtend 32)
  | .opLbu => b.load8 addr >>= fun v => loadT instruction (v.setWidth 32)
  | .opLh => b.load16 addr >>= fun v => loadT instruction (v.signExtend 32)
  | .opLhu =>
    if addr % 2 = 0 then b.load16 addr >>= fun v => loadT instruction (v.setWidth 32)
    else .ok { raise := some .loadAddressError }
  | .opLwl =>
    b.load32 (addr &&& ~~~3) >>= fun word =>
      mergeLwl addr (merged (t instruction).slot) word >>= fun v => loadT instruction v
  | .opLwr =>
    b.load32 (addr &&& ~~~3) >>= fun word =>
      mergeLwr addr (merged (t instruction).slot) word >>= fun v => loadT instruction v
  | .opSw =>
    if c.cacheIsolated then .ok {}
    else if addr % 4 = 0 then .ok { store := some (.word addr rt) }
    else .ok { raise := some .storeAddressError }
  | .opSh =>
    if addr % 2 = 0 then
      .ok { store := if c.cacheIsolated then none else some (.half addr (rt.setWidth 16)) }
    else .ok { raise := some .storeAddressError }
  | .opSb => .ok { store := if c.cacheIsolated then none else some (.byte addr (rt.setWidth 8)) }
  | .opSwl =>
    b.load32 (addr &&& ~~~3) >>= fun word =>
      mergeSwl addr word rt >>= fun v =>
        .ok { store := if c.cacheIsolated then none else some (.word (addr &&& ~~~3) v) }
  | .opSwr =>
    b.load32 (addr &&& ~~~3) >>= fun word =>
      mergeSwr addr word rt >>= fun v =>
        .ok { store := if c.cacheIsolated then none else some (.word (addr &&& ~~~3) v) }

namespace Machine

/-- Carry out an effect. -/
def applyEffect (fuel : Nat) (m : Machine) (e : Effect) : Result Machine := do
  let bus ← linkIp m.mCpu.mIp (e.bus fuel m.mBus)
  let pending := e.pending (m.mCpu.mLoadRegIdx, m.mCpu.mLoadReg)
  return ⟨{
    toControl := e.control m.mCpu.toControl
    mRegs := m.mCpu.mRegs
    mOutRegs := e.file m.mCpu.mOutRegs
    mLoadRegIdx := pending.1
    mLoadReg := pending.2 }, bus⟩

section

variable (fuel : Nat) (m : Machine) (instruction : Word)

/-- What `execOp_eq_effect` says of one opcode. -/
def HasEffect (op : Op) : Prop :=
  m.execOp fuel op instruction =
    effect op instruction m.mCpu.mRegs m.mCpu.mOutRegs m.mCpu.toControl m.mBus >>=
      m.applyEffect fuel

/-- ADD and ADDI write the sum whether or not it overflows. -/
theorem add_eq (overflows : Bool) (index : RegisterIndex) (v : Word) :
    m.onCpu (fun c => (if overflows then c.exception .overflow else c).setReg index v) =
      m.applyEffect fuel {
        raise := if overflows then some .overflow else none
        write := some (index, v) } := by
  cases overflows <;> rfl

theorem hasEffect_add : HasEffect fuel m instruction .opAdd := by
  delta HasEffect execOp effect
  exact add_eq fuel m _ _ _

theorem hasEffect_addi : HasEffect fuel m instruction .opAddi := by
  delta HasEffect execOp effect
  exact add_eq fuel m _ _ _

theorem hasEffect_sub : HasEffect fuel m instruction .opSub := by
  delta HasEffect execOp effect
  simp only [onCpu, Cpu.opSub, Cpu.reg]
  generalize subOverflow _ _ _ = o
  cases o <;> rfl

theorem hasEffect_div : HasEffect fuel m instruction .opDiv := by
  delta HasEffect execOp effect
  simp only [onCpu, Cpu.opDiv, Cpu.reg, divHiLo]
  generalize m.mCpu.mRegs (s instruction).slot = n
  generalize m.mCpu.mRegs (t instruction).slot = d
  by_cases hd : d = 0
  · cases (0 : Word).sle n <;> simp only [hd, if_true] <;> rfl
  · by_cases hm : n = 0x80000000 ∧ d = -1
    · simp only [if_neg hd, if_pos hm]
      rfl
    · simp only [if_neg hd, if_neg hm]
      rfl

theorem hasEffect_divu : HasEffect fuel m instruction .opDivu := by
  delta HasEffect execOp effect
  simp only [onCpu, Cpu.opDivu, Cpu.reg, divuHiLo]
  by_cases hd : m.mCpu.mRegs (t instruction).slot = 0
  · simp only [if_pos hd]
    rfl
  · simp only [if_neg hd]
    rfl

/-- A conditional branch. -/
theorem branch_eq (p : Prop) [Decidable p] :
    m.onCpu (fun c => if p then c.branch (immSe instruction) else c) =
      m.applyEffect fuel { jump := branchIf instruction m.mCpu.toControl (decide p) } := by
  by_cases hp : p
  · simp only [onCpu, branchIf, if_pos hp, decide_eq_true hp]
    rfl
  · simp only [onCpu, branchIf, if_neg hp, decide_eq_false hp]
    rfl

theorem hasEffect_beq : HasEffect fuel m instruction .opBeq := by
  delta HasEffect execOp effect
  exact branch_eq fuel m instruction _

theorem hasEffect_bne : HasEffect fuel m instruction .opBne := by
  delta HasEffect execOp effect
  exact branch_eq fuel m instruction _

theorem hasEffect_blez : HasEffect fuel m instruction .opBlez := by
  delta HasEffect execOp effect
  simp only [onCpu, Cpu.opBlez, Cpu.reg, branchIf]
  generalize BitVec.sle _ _ = o
  cases o <;> rfl

theorem hasEffect_bgtz : HasEffect fuel m instruction .opBgtz := by
  delta HasEffect execOp effect
  simp only [onCpu, Cpu.opBgtz, Cpu.reg, branchIf]
  generalize BitVec.slt _ _ = o
  cases o <;> rfl

theorem hasEffect_bxx : HasEffect fuel m instruction .opBxx := by
  delta HasEffect execOp effect
  simp only [onCpu, Cpu.opBxx, Cpu.reg, branchIf, ← bne_iff_ne]
  cases ht : bxxTaken instruction (m.mCpu.mRegs (s instruction).slot) <;>
    cases hl : bxxLinks instruction <;>
    simp only [bxxTaken, bxxLinks] at ht hl <;>
    simp only [ht, hl] <;> rfl

/-- A load into the register in `t`. -/
theorem load_eq {w : Nat} (x : Result (BitVec w)) (f : BitVec w → Word) :
    (x >>= fun v => .ok { m with mCpu := m.mCpu.putLoad (t instruction) (f v) }) =
      (x >>= fun v => loadT instruction (f v)) >>= m.applyEffect fuel := by
  cases x <;> rfl

theorem hasEffect_lw : HasEffect fuel m instruction .opLw := by
  delta HasEffect execOp effect
  simp only [opLw]
  cases m.mCpu.toControl.cacheIsolated with
  | true => rfl
  | false => exact load_eq fuel m instruction _ fun v => v

theorem hasEffect_lb : HasEffect fuel m instruction .opLb := by
  delta HasEffect execOp effect
  exact load_eq fuel m instruction _ _

theorem hasEffect_lbu : HasEffect fuel m instruction .opLbu := by
  delta HasEffect execOp effect
  exact load_eq fuel m instruction _ _

theorem hasEffect_lh : HasEffect fuel m instruction .opLh := by
  delta HasEffect execOp effect
  exact load_eq fuel m instruction _ _

theorem hasEffect_lhu : HasEffect fuel m instruction .opLhu := by
  delta HasEffect execOp effect
  simp only [opLhu, load16, effectiveAddr, Cpu.reg]
  by_cases h : (m.mCpu.mRegs (s instruction).slot + immSe instruction) % 2 = 0
  · simp only [if_pos h]
    exact load_eq fuel m instruction _ _
  · simp only [if_neg h]
    rfl

/-- An unaligned load, which merges the word read. -/
theorem mergeLoad_eq (x : Result Word) (merge : Word → Result Word) :
    (x >>= fun word => merge word >>= fun v =>
        .ok { m with mCpu := m.mCpu.putLoad (t instruction) v }) =
      (x >>= fun word => merge word >>= fun v => loadT instruction v) >>= m.applyEffect fuel := by
  cases x with
  | error => rfl
  | ok word => exact load_eq fuel m instruction (merge word) fun v => v

theorem hasEffect_lwl : HasEffect fuel m instruction .opLwl := by
  delta HasEffect execOp effect
  exact mergeLoad_eq fuel m instruction _ _

theorem hasEffect_lwr : HasEffect fuel m instruction .opLwr := by
  delta HasEffect execOp effect
  exact mergeLoad_eq fuel m instruction _ _

theorem hasEffect_sw : HasEffect fuel m instruction .opSw := by
  delta HasEffect execOp effect
  simp only [opSw, store32, effectiveAddr, Cpu.reg]
  cases h : m.mCpu.toControl.cacheIsolated
  · by_cases ha : (m.mCpu.mRegs (s instruction).slot + immSe instruction) % 4 = 0
    · simp only [if_pos ha]
      rfl
    · simp only [if_neg ha]
      rfl
  · rfl

theorem hasEffect_sh : HasEffect fuel m instruction .opSh := by
  delta HasEffect execOp effect
  simp only [opSh, store16, effectiveAddr, Cpu.reg]
  by_cases ha : (m.mCpu.mRegs (s instruction).slot + immSe instruction) % 2 = 0
  · simp only [if_pos ha]
    cases m.mCpu.toControl.cacheIsolated <;> rfl
  · simp only [if_neg ha]
    rfl

theorem hasEffect_sb : HasEffect fuel m instruction .opSb := by
  delta HasEffect execOp effect
  simp only [opSb, store8, effectiveAddr, Cpu.reg]
  cases m.mCpu.toControl.cacheIsolated <;> rfl

/-- An unaligned store, which merges the word read. -/
theorem mergeStore_eq (x : Result Word) (merge : Word → Result Word) (addr : Word) :
    (x >>= fun word => merge word >>= fun v => m.store32 fuel addr v) =
      (x >>= fun word => merge word >>= fun v =>
        (.ok { store := if m.mCpu.cacheIsolated then none else some (.word addr v) } :
          Result Effect)) >>= m.applyEffect fuel := by
  cases x with
  | error => rfl
  | ok word =>
    simp only [ok_bind, store32]
    cases merge word with
    | error => rfl
    | ok v => cases m.mCpu.toControl.cacheIsolated <;> rfl

theorem hasEffect_swl : HasEffect fuel m instruction .opSwl := by
  delta HasEffect execOp effect
  exact mergeStore_eq fuel m _ _ _

theorem hasEffect_swr : HasEffect fuel m instruction .opSwr := by
  delta HasEffect execOp effect
  exact mergeStore_eq fuel m _ _ _

theorem hasEffect_mfc0 :
    m.onCpuM (·.opMfc0 instruction) =
      (cop0Read m.mCpu.toControl (d instruction).val >>= fun v => loadT instruction v) >>=
        m.applyEffect fuel := by
  simp only [onCpuM, Cpu.opMfc0]
  split
  all_goals
    simp only [cop0Read, *]
    rfl

theorem hasEffect_mtc0 :
    m.onCpuM (·.opMtc0 instruction) =
      cop0Write (d instruction).val (m.mCpu.mRegs (t instruction).slot) >>=
        m.applyEffect fuel := by
  simp only [onCpuM, Cpu.opMtc0, Cpu.reg]
  split
  case h_7 | h_9 =>
    simp only [cop0Write, *]
    rfl
  all_goals
    simp only [cop0Write, *]
    split <;> rfl

theorem hasEffect_rfe :
    m.onCpuM (·.opRfe instruction) =
      rfeEffect m.mCpu.toControl instruction >>= m.applyEffect fuel := by
  simp only [onCpuM, Cpu.opRfe, rfeEffect]
  split <;> rfl

theorem hasEffect_cop0 : HasEffect fuel m instruction .opCop0 := by
  delta HasEffect execOp effect
  simp only [Cpu.opCop0]
  split
  case h_1 =>
    simp only [cop0Effect, *]
    exact hasEffect_mfc0 fuel m instruction
  case h_2 =>
    simp only [cop0Effect, *]
    exact hasEffect_mtc0 fuel m instruction
  case h_3 =>
    simp only [cop0Effect, *]
    exact hasEffect_rfe fuel m instruction
  case h_4 =>
    simp only [cop0Effect, *]
    rfl

end

/-- **Every opcode method carries out its effect.** -/
theorem execOp_eq_effect (fuel : Nat) (m : Machine) (op : Op) (instruction : Word) :
    m.execOp fuel op instruction =
      effect op instruction m.mCpu.mRegs m.mCpu.mOutRegs m.mCpu.toControl m.mBus >>=
        m.applyEffect fuel := by
  cases op
  case opAdd => exact hasEffect_add fuel m instruction
  case opAddi => exact hasEffect_addi fuel m instruction
  case opSub => exact hasEffect_sub fuel m instruction
  case opDiv => exact hasEffect_div fuel m instruction
  case opDivu => exact hasEffect_divu fuel m instruction
  case opBeq => exact hasEffect_beq fuel m instruction
  case opBne => exact hasEffect_bne fuel m instruction
  case opBlez => exact hasEffect_blez fuel m instruction
  case opBgtz => exact hasEffect_bgtz fuel m instruction
  case opBxx => exact hasEffect_bxx fuel m instruction
  case opLw => exact hasEffect_lw fuel m instruction
  case opLb => exact hasEffect_lb fuel m instruction
  case opLbu => exact hasEffect_lbu fuel m instruction
  case opLh => exact hasEffect_lh fuel m instruction
  case opLhu => exact hasEffect_lhu fuel m instruction
  case opLwl => exact hasEffect_lwl fuel m instruction
  case opLwr => exact hasEffect_lwr fuel m instruction
  case opSw => exact hasEffect_sw fuel m instruction
  case opSh => exact hasEffect_sh fuel m instruction
  case opSb => exact hasEffect_sb fuel m instruction
  case opSwl => exact hasEffect_swl fuel m instruction
  case opSwr => exact hasEffect_swr fuel m instruction
  case opCop0 => exact hasEffect_cop0 fuel m instruction
  all_goals rfl

end Machine

/-! ## The shapes of effects -/

/-- The jumps and branches. -/
def Op.transfers : Op → Bool
  | .opJ | .opJal | .opJr | .opJalr | .opBeq | .opBne | .opBgtz | .opBlez | .opBxx => true
  | _ => false

/-- The effects that opcodes can have.  Only ADD and ADDI both raise and write. -/
inductive Effect.Shape (op : Op) : Effect → Prop
  | quiet : Shape op {}
  | write (index : RegisterIndex) (v : Word) : Shape op { write := some (index, v) }
  | load (index : RegisterIndex) (v : Word) (h : index.val < 32) :
      Shape op { load := some (index, v) }
  | hiLo (p : Word × Word) : Shape op { hiLo := some p }
  | sr (v : Word) : Shape op { sr := some v }
  | jump (link : Option (RegisterIndex × Word)) (target : Option Word)
      (h : op.transfers = true) : Shape op { write := link, jump := target }
  | store (request : StoreReq) (h : request.Aligned) : Shape op { store := some request }
  | raise (cause : Exception) : Shape op { raise := some cause }
  | overflow (index : RegisterIndex) (v : Word) (h : op = .opAdd ∨ op = .opAddi) :
      Shape op { raise := some .overflow, write := some (index, v) }

section

variable {op : Op} {instruction : Word} {e : Effect} {c : Control}

theorem shape_writeD {v : Word} (h : writeD instruction v = .ok e) : e.Shape op := by
  cases h
  exact .write _ _

theorem shape_writeT {v : Word} (h : writeT instruction v = .ok e) : e.Shape op := by
  cases h
  exact .write _ _

theorem shape_raise {cause : Exception}
    (h : (.ok { raise := some cause } : Result Effect) = .ok e) : e.Shape op := by
  cases h
  exact .raise cause

theorem shape_hiLo {p : Word × Word}
    (h : (.ok { hiLo := some p } : Result Effect) = .ok e) : e.Shape op := by
  cases h
  exact .hiLo p

theorem shape_jump {link : Option (RegisterIndex × Word)} {target : Option Word}
    (hop : op.transfers = true)
    (h : (.ok { write := link, jump := target } : Result Effect) = .ok e) : e.Shape op := by
  cases h
  exact .jump link target hop

/-- Whether or not the sum overflows. -/
theorem shape_add {overflows : Bool} {index : RegisterIndex} {v : Word}
    (hop : op = .opAdd ∨ op = .opAddi)
    (h : (.ok { raise := if overflows then some .overflow else none, write := some (index, v) } :
      Result Effect) = .ok e) : e.Shape op := by
  cases h
  cases overflows
  · exact .write index v
  · exact .overflow index v hop

theorem shape_sub {overflows : Bool} {v : Word}
    (h : (if overflows then .ok { raise := some .overflow } else writeD instruction v) = .ok e) :
    e.Shape op := by
  cases overflows
  · exact shape_writeD h
  · exact shape_raise h

/-- A load into the register in `t`. -/
theorem shape_load {w : Nat} {x : Result (BitVec w)} {f : BitVec w → Word}
    (h : (x >>= fun v => loadT instruction (f v)) = .ok e) : e.Shape op := by
  obtain ⟨v, -, hv⟩ := bind_eq_ok.mp h
  cases hv
  exact .load _ _ (t_lt instruction)

/-- An unaligned load, which merges the word read. -/
theorem shape_mergeLoad {x : Result Word} {merge : Word → Result Word}
    (h : (x >>= fun word => merge word >>= fun v => loadT instruction v) = .ok e) :
    e.Shape op := by
  obtain ⟨word, -, hword⟩ := bind_eq_ok.mp h
  exact shape_load hword

theorem shape_store {isolated : Bool} {request : StoreReq} (ha : request.Aligned)
    (h : (.ok { store := if isolated then none else some request } : Result Effect) = .ok e) :
    e.Shape op := by
  cases h
  cases isolated
  · exact .store request ha
  · exact .quiet

/-- An unaligned store, which merges the word read. -/
theorem shape_mergeStore {isolated : Bool} {x : Result Word} {merge : Word → Result Word}
    {addr : Word} (ha : addr.toNat % 4 = 0)
    (h : (x >>= fun word => merge word >>= fun v =>
      (.ok { store := if isolated then none else some (.word addr v) } : Result Effect)) = .ok e) :
    e.Shape op := by
  obtain ⟨word, -, hword⟩ := bind_eq_ok.mp h
  obtain ⟨v, -, hv⟩ := bind_eq_ok.mp hword
  exact shape_store (show StoreReq.Aligned (.word addr v) from ha) hv

/-- An access that raises an exception when it is misaligned. -/
theorem shape_aligned {p : Prop} [Decidable p] {x : Result Effect} {cause : Exception}
    (hx : p → x = .ok e → e.Shape op)
    (h : (if p then x else .ok { raise := some cause }) = .ok e) : e.Shape op := by
  split at h
  · next hp => exact hx hp h
  · exact shape_raise h

/-- An access that does nothing when the cache is isolated. -/
theorem shape_isolated {isolated : Bool} {x : Result Effect} (hx : x = .ok e → e.Shape op)
    (h : (if isolated then .ok {} else x) = .ok e) : e.Shape op := by
  cases isolated
  · exact hx h
  · cases h
    exact .quiet

theorem shape_cop0Write {copR v : Word} (h : cop0Write copR v = .ok e) : e.Shape op := by
  unfold cop0Write at h
  split at h
  case h_7 =>
    cases h
    exact .sr v
  case h_9 => cases h
  all_goals
    split at h
    · cases h
    · cases h
      exact .quiet

theorem shape_rfe (h : rfeEffect c instruction = .ok e) : e.Shape op := by
  unfold rfeEffect at h
  split at h
  · cases h
  · cases h
    exact .sr _

theorem shape_cop0 {rt : Word} (h : cop0Effect c instruction rt = .ok e) : e.Shape op := by
  unfold cop0Effect at h
  split at h
  · exact shape_load h
  · exact shape_cop0Write h
  · exact shape_rfe h
  · cases h

end

/-- **Shape lemma.** -/
theorem effect_shape {op : Op} {instruction : Word} {file merged : Fin 32 → Word} {c : Control}
    {b : Bus} {e : Effect} (h : effect op instruction file merged c b = .ok e) : e.Shape op := by
  cases op
  case opAdd => exact shape_add (.inl rfl) h
  case opAddi => exact shape_add (.inr rfl) h
  case opSub => exact shape_sub h
  case opDiv | opDivu | opMult | opMultu | opMthi | opMtlo => exact shape_hiLo h
  case opJ | opJal | opJr | opJalr | opBeq | opBne | opBgtz | opBlez | opBxx =>
    exact shape_jump rfl h
  case opSyscall | opBreak | opIllegal => exact shape_raise h
  case opCop1 | opCop3 | opLwc0 | opLwc1 | opLwc3 | opSwc0 | opSwc1 | opSwc3 =>
    exact shape_raise h
  case opCop2 | opLwc2 | opSwc2 => cases h
  case opCop0 => exact shape_cop0 h
  case opLw => exact shape_isolated shape_load h
  case opLb | opLbu | opLh => exact shape_load h
  case opLhu => exact shape_aligned (fun _ => shape_load) h
  case opLwl | opLwr => exact shape_mergeLoad h
  case opSw =>
    refine shape_isolated (shape_aligned fun ha h => ?_) h
    cases h
    exact .store _ (congrArg BitVec.toNat ha)
  case opSh =>
    refine shape_aligned (fun ha h => shape_store ?_ h) h
    exact congrArg BitVec.toNat ha
  case opSb =>
    refine shape_store ?_ h
    trivial
  case opSwl | opSwr => exact shape_mergeStore (Bits.toNat_wordAddress_mod _) h
  case opLui | opOri | opAndi | opXori | opAddiu | opSlti | opSltiu => exact shape_writeT h
  all_goals exact shape_writeD h

end CppStation
