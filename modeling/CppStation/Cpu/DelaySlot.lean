import CppStation.Cpu.Run

/-!
# Branch delay slots

`archTarget` is the documented control transfer of an instruction word;
`effectOf_jump` connects it to the effect of the opcode method.
-/

namespace CppStation

open Instruction Fallible

/-! ## Control transfers as documented -/

/-- The register that a linking instruction writes. -/
def linkRegister (instruction : Word) : Option RegisterIndex :=
  match decode instruction with
  | .opJal => some ⟨31⟩
  | .opJalr => some (d instruction)
  | .opBxx =>
    -- BLTZAL and BGEZAL
    if (t instruction).val = 0b10000 ∨ (t instruction).val = 0b10001 then some ⟨31⟩ else none
  | _ => none

/-- Whether the condition of a branch holds of its operands. -/
def branchHolds (instruction rs rt : Word) : Bool :=
  match decode instruction with
  | .opBeq => decide (rs = rt)
  | .opBne => decide (rs ≠ rt)
  | .opBlez => decide (rs.toInt ≤ 0)
  | .opBgtz => decide (0 < rs.toInt)
  | .opBxx => if instruction.getLsbD 16 then decide (0 ≤ rs.toInt) else decide (rs.toInt < 0)
  | _ => false

/-- Where an instruction with its delay slot at `q` transfers control to, when J and JAL keep
the bits `region`. -/
def transferTarget (instruction : Word) (regs : Fin 32 → Word) (q region : Word) : Option Word :=
  match decode instruction with
  | .opJ | .opJal => some (region ||| (immJump instruction <<< 2))
  | .opJr | .opJalr => some (regs (s instruction).slot)
  | _ =>
    if branchHolds instruction (regs (s instruction).slot) (regs (t instruction).slot) then
      some (q + 4 * immSe instruction)
    else none

/-- The documented target. -/
def archTarget (instruction : Word) (regs : Fin 32 → Word) (q : Word) : Option Word :=
  transferTarget instruction regs q (q &&& 0xf0000000)

theorem transferTarget_isSome (instruction : Word) (regs : Fin 32 → Word)
    (q region q' region' : Word) :
    (transferTarget instruction regs q region).isSome =
      (transferTarget instruction regs q' region').isSome := by
  unfold transferTarget
  split
  · rfl
  · rfl
  · rfl
  · rfl
  · split <;> rfl

/-! ## The transfers of the code -/

theorem Effect.Shape.jump_eq_none {op : Op} {e : Effect} (h : e.Shape op)
    (hop : op.transfers = false) : e.jump = none := by
  cases h with
  | jump _ _ htransfers => exact absurd htransfers (by rw [hop]; decide)
  | _ => rfl

theorem branchIf_eq (instruction : Word) (c : Control) (taken : Bool) :
    branchIf instruction c taken =
      if taken then some (c.mPc + 4 * immSe instruction) else none := by
  unfold branchIf
  have h : immSe instruction <<< 2 = 4 * immSe instruction := by
    apply BitVec.eq_of_toNat_eq
    rw [BitVec.toNat_shiftLeft, Nat.shiftLeft_eq, BitVec.toNat_mul, Nat.mul_comm]
    rfl
  rw [h]

theorem truth_bit (instruction : Word) :
    truth ((instruction >>> 16) &&& 1) = instruction.getLsbD 16 := by
  have h := Bits.and_one_shiftLeft_ne_zero_iff (instruction >>> 16) (i := 0) (by decide)
  rw [BitVec.getLsbD_ushiftRight] at h
  exact Bool.eq_iff_iff.mpr (bne_iff_ne.trans h)

theorem bxxTaken_eq (instruction rs : Word) :
    bxxTaken instruction rs =
      if instruction.getLsbD 16 then decide (0 ≤ rs.toInt) else decide (rs.toInt < 0) := by
  have hslt : rs.slt 0 = decide (rs.toInt < 0) := by
    rw [BitVec.slt_eq_decide]
    rfl
  have hge : decide (0 ≤ rs.toInt) = !rs.slt 0 := by
    rw [hslt, ← decide_not]
    exact decide_eq_decide.mpr Int.not_lt.symm
  unfold bxxTaken
  rw [truth_bit, hge, ← hslt]
  cases instruction.getLsbD 16 <;> cases rs.slt 0 <;> rfl

theorem bxxLinks_iff (instruction : Word) :
    bxxLinks instruction = true ↔
      (t instruction).val = 0b10000 ∨ (t instruction).val = 0b10001 := by
  have hlink : ((instruction >>> 17) &&& 0xf).toNat = instruction.toNat / 2 ^ 17 % 2 ^ 4 := by
    rw [← Nat.shiftRight_eq_div_pow, ← BitVec.toNat_ushiftRight]
    exact Bits.toNat_and_mask _ (k := 4) (by decide)
  have ht : (t instruction).val.toNat = instruction.toNat / 2 ^ 16 % 2 ^ 5 := by
    rw [← Nat.shiftRight_eq_div_pow, ← BitVec.toNat_ushiftRight]
    exact Bits.toNat_and_mask _ (k := 5) (by decide)
  rw [bxxLinks, beq_iff_eq, ← BitVec.toNat_inj, ← BitVec.toNat_inj, ← BitVec.toNat_inj, hlink, ht]
  simp only [BitVec.reduceToNat]
  omega

namespace Machine

variable {m : Machine} {instruction : Word} {e : Effect}

theorem effectOf_jump (h : m.effectOf instruction = .ok e) :
    e.jump =
      transferTarget instruction m.mCpu.mRegs m.mCpu.mNextPc
        ((m.mCpu.mNextPc + 4) &&& 0xf0000000) := by
  have hshape := effect_shape h
  unfold effectOf at h
  unfold transferTarget branchHolds
  generalize decode instruction = op at h hshape ⊢
  cases op
  case opJ | opJal | opJr | opJalr =>
    cases h
    rfl
  case opBeq | opBne =>
    cases h
    exact branchIf_eq _ _ _
  case opBlez | opBgtz =>
    cases h
    exact branchIf_eq _ _ _
  case opBxx =>
    cases h
    simp only [← bxxTaken_eq]
    exact branchIf_eq _ _ _
  all_goals exact hshape.jump_eq_none rfl

/-- A linking instruction writes the address after its delay slot. -/
theorem effectOf_link (h : m.effectOf instruction = .ok e) {index : RegisterIndex}
    (hlink : linkRegister instruction = some index) :
    e.write = some (index, m.mCpu.mNextPc + 4) := by
  unfold effectOf at h
  unfold linkRegister at hlink
  generalize decode instruction = op at h hlink
  cases op
  case opJal | opJalr =>
    cases h
    cases hlink
    rfl
  case opBxx =>
    cases h
    simp only [← bxxLinks_iff] at hlink
    cases hl : bxxLinks instruction with
    | true =>
      rw [hl] at hlink
      cases hlink
      rfl
    | false =>
      rw [hl] at hlink
      cases hlink
  all_goals cases hlink

/-! ## The jump region -/

/-- The ranges that can be fetched from end inside the region they start in. -/
theorem range_region :
    ∀ r ∈ [Map.mRam, Map.mBios, Map.mIrqControl, Map.mDma, Map.mGpu, Map.mTimers],
    r.mBase.toNat / 2 ^ 28 = r.mEnd.toNat / 2 ^ 28 ∧ r.mEnd.toNat % 2 ^ 28 + 4 ≤ 2 ^ 28 := by
  decide

/-- A mapped word is not the last of its 256 MiB region. -/
theorem region_next {b : Bus} {q v : Word} (h : b.load32 q = .ok v) :
    (q + 4) &&& 0xf0000000 = q &&& 0xf0000000 := by
  have hlow : q.toNat % 2 ^ 28 + 4 < 2 ^ 28 := by
    rw [← Map.maskRegion_mod q (by decide)]
    obtain ⟨r, hr, hbase, hend⟩ := Bus.load32_mapped h
    obtain ⟨hregion, hlast⟩ := range_region r hr
    rw [BitVec.le_def] at hbase
    rw [BitVec.lt_def] at hend
    omega
  refine Bits.and_highMask_congr (k := 28) ?_
  apply BitVec.eq_of_toNat_eq
  rw [BitVec.toNat_ushiftRight, BitVec.toNat_ushiftRight, Nat.shiftRight_eq_div_pow,
    Nat.shiftRight_eq_div_pow, BitVec.toNat_add]
  have hq := q.isLt
  simp only [BitVec.reduceToNat]
  omega

/-! ## Control flow over the delay slot -/

/-- The step `m → m'` executes `instruction` and raises no exception. -/
structure RunsQuietly (m : Machine) (instruction : Word) (m' : Machine) : Prop where
  aligned : m.mCpu.mPc % 4 = 0
  fetched : m.mBus.load32 m.mCpu.mPc = .ok instruction
  next : m.Next m'
  quiet : m'.mCpu.raised = m.mCpu.raised

/-- What the step `m → m'` that executes `instruction` does to the control flow, with the
delay slot at `m'.mCpu.mPc`. -/
structure TransfersControl (m : Machine) (instruction : Word) (m' : Machine) : Prop where
  taken : ∀ target, archTarget instruction m.mCpu.mRegs m'.mCpu.mPc = some target →
    ∀ slot m'', m'.RunsQuietly slot m'' →
      m''.mCpu.mCurrentPc = m'.mCpu.mPc ∧ m''.mCpu.mPc = target
  untaken : archTarget instruction m.mCpu.mRegs m'.mCpu.mPc = none →
    m'.mCpu.mNextPc = m'.mCpu.mPc + 4
  link : ∀ index, linkRegister instruction = some index → index.slot ≠ 0 →
    m'.mCpu.mRegs index.slot = m'.mCpu.mPc + 4
  sequential : m'.mCpu.mPc = m.mCpu.mNextPc

theorem RunsQuietly.executed {m m' : Machine} {instruction : Word}
    (h : m.RunsQuietly instruction m') :
    ∃ e, m.Executed instruction e m' ∧ e.raise = none := by
  rcases next_iff.mp h.next with ⟨hpc, -⟩ | ⟨w, e, hx⟩
  · exact absurd h.aligned hpc
  · cases (h.fetched.symm.trans hx.fetched)
    refine ⟨e, hx, ?_⟩
    have hq := h.quiet
    rw [hx.after, raised_after, List.append_right_eq_self, Option.toList_eq_nil_iff] at hq
    exact hq

/-- **Branch delay slots.**  A step that executes an instruction without exception goes on to
the delay slot; a taken branch or jump then continues at its target after exactly one more
instruction, and linking instructions save the address after the delay slot. -/
theorem transfersControl {m m' : Machine} {instruction : Word} (h : m.RunsQuietly instruction m') :
    m.TransfersControl instruction m' := by
  obtain ⟨e, hx, hno⟩ := h.executed
  obtain ⟨hpc, -, hnext, -⟩ := pcs_after m m'.mBus hno
  rw [← hx.after] at hpc hnext
  have hjump := effectOf_jump hx.effectOf
  constructor
  case sequential => exact hpc
  case untaken =>
    intro hnone
    have hsome : e.jump.isSome = (archTarget instruction m.mCpu.mRegs m'.mCpu.mPc).isSome := by
      rw [hjump]
      exact transferTarget_isSome ..
    rw [hnone, Option.isSome_none, Option.isSome_eq_false_iff, Option.isNone_iff_eq_none] at hsome
    rw [hnext, hsome, hpc, Option.getD_none]
  case link =>
    intro index hlink hne
    have hw := effectOf_link hx.effectOf hlink
    rw [hpc, hx.after]
    change e.file m.mCpu.committed index.slot = _
    unfold Effect.file
    rw [hw]
    simp only [Function.update_apply, if_neg hne, if_true]
  case taken =>
    intro target htarget slot m'' hslot
    obtain ⟨e', hx', hno'⟩ := hslot.executed
    obtain ⟨hpc', hcur', -, -⟩ := pcs_after m' m''.mBus hno'
    rw [← hx'.after] at hpc' hcur'
    refine ⟨hcur', ?_⟩
    rw [archTarget, ← region_next hx'.fetched, hpc, ← hjump] at htarget
    rw [hpc', hnext, htarget, Option.getD_some]

/-- `bgezal r0` at the reset vector. -/
theorem transfersControl_bgezal :
    ∃ m', (reset (.ofWords [0x04110004])).RunsQuietly 0x04110004 m' ∧
      (reset (.ofWords [0x04110004])).TransfersControl 0x04110004 m' := by
  have hrun : okAnd ((reset (.ofWords [0x04110004])).runNextInstruction 0)
      (fun m => m.mCpu.raised == []) = true := by decide +kernel
  obtain ⟨m', hm', hquiet⟩ := exists_of_okAnd hrun
  have h : (reset (.ofWords [0x04110004])).RunsQuietly 0x04110004 m' :=
    ⟨by decide, rfl, ⟨0, hm'⟩, beq_iff_eq.mp hquiet⟩
  exact ⟨m', h, transfersControl h⟩

end Machine

end CppStation
