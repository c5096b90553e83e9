import CppStation.Cpu.Run

/-!
# The load delay slot

`Reference` is the machine as documented: one register file and at most one
pending load, which becomes visible after the next instruction has read its
operands.  The implementation, with two files and the pair `mLoadRegIdx`,
`mLoadReg`, simulates it.
-/

namespace CppStation

open Instruction Fallible Transition

/-! ## The reference machine -/

structure Reference where
  file : Fin 32 → Word
  pending : Option (Fin 32 × Word)
  control : Control
  bus : Bus

/-- A write to the register file; R0 is not written. -/
def writeFile (file : Fin 32 → Word) (index : Fin 32) (v : Word) : Fin 32 → Word :=
  if index = 0 then file else Function.update file index v

namespace Reference

/-- The file after the pending load is committed. -/
def commit (r : Reference) : Fin 32 → Word :=
  match r.pending with
  | some (index, v) => writeFile r.file index v
  | none => r.file

/-- Execute an instruction: read the operands from the file, commit the pending load, make the
instruction's own write, and schedule its load. -/
def execute (fuel : Nat) (r : Reference) (instruction : Word) : Result Reference := do
  let e ← effect (decode instruction) instruction r.file r.commit r.control.advance r.bus
  let bus ← linkIp r.control.mIp (e.bus fuel r.bus)
  return {
    file :=
      match e.write with
      | some (index, v) => writeFile r.commit index.slot v
      | none => r.commit
    pending :=
      match e.load with
      | some (index, v) => if index.slot = 0 then none else some (index.slot, v)
      | none => none
    control := (e.control r.control.advance).retire
    bus := bus }

def step (fuel : Nat) (r : Reference) : Result Reference :=
  if r.control.mPc % 4 ≠ 0 then
    .ok { r with
      control := ({ r.control with mCurrentPc := r.control.mPc }).exception .loadAddressError }
  else do
    let instruction ← r.bus.load32 r.control.mPc
    r.execute fuel instruction

def Next (r r' : Reference) : Prop := ∃ fuel, r.step fuel = .ok r'

end Reference

namespace Machine

/-- The reference state that a machine state stands for. -/
def abstract (m : Machine) : Reference where
  file := m.mCpu.mRegs
  pending :=
    if m.mCpu.mLoadRegIdx.slot = 0 then none
    else some (m.mCpu.mLoadRegIdx.slot, m.mCpu.mLoadReg)
  control := m.mCpu.toControl
  bus := m.mBus

/-! ## Simulation -/

/-- Clearing R0 after a write is the same as not writing it. -/
theorem update_clear {f : Fin 32 → Word} (hf : f 0 = 0) (index : Fin 32) (v : Word) :
    Function.update (Function.update f index v) 0 0 = writeFile f index v := by
  unfold writeFile
  split
  · next hindex => rw [hindex, Function.update_idem, ← hf, Function.update_eq_self]
  · next hindex =>
    rw [Function.update_comm hindex, ← hf, Function.update_eq_self]

theorem commit_abstract {m : Machine} (h : m.mCpu.Settled) :
    m.abstract.commit = m.mCpu.committed := by
  have hzero : m.mCpu.mOutRegs 0 = 0 := h.files ▸ h.zero
  rw [Cpu.committed, update_clear hzero, ← h.files]
  simp only [Reference.commit, abstract]
  by_cases hslot : m.mCpu.mLoadRegIdx.slot = 0
  · simp only [if_pos hslot, writeFile]
  · simp only [if_neg hslot]

theorem file_eq_writeFile {f : Fin 32 → Word} (hf : f 0 = 0) (e : Effect) :
    e.file f =
      match e.write with
      | some (index, v) => writeFile f index.slot v
      | none => f := by
  unfold Effect.file
  cases e.write with
  | none => rfl
  | some p => exact update_clear hf p.1.slot p.2

theorem pending_eq (e : Effect) :
    (if (e.pending (⟨0⟩, 0)).1.slot = 0 then none
      else some ((e.pending (⟨0⟩, 0)).1.slot, (e.pending (⟨0⟩, 0)).2)) =
      match e.load with
      | some (index, v) => if index.slot = 0 then none else some (index.slot, v)
      | none => none := by
  unfold Effect.pending
  cases e.load <;> rfl

theorem abstract_execute {m : Machine} (h : m.mCpu.Settled) (fuel : Nat) (instruction : Word) :
    (m.execute fuel instruction).map abstract = m.abstract.execute fuel instruction := by
  rw [execute_eq, Reference.execute, commit_abstract h]
  change _ = (m.effectOf instruction >>= _)
  cases m.effectOf instruction with
  | error => rfl
  | ok e =>
    simp only [ok_bind]
    change _ = (linkIp m.mCpu.mIp (e.bus fuel m.mBus) >>= _)
    cases e.bus fuel m.mBus with
    | error => rfl
    | ok bus =>
      refine congrArg Except.ok ?_
      simp only [after, abstract, file_eq_writeFile m.mCpu.committed_zero, pending_eq]

/-- **Step simulation.** -/
theorem abstract_step {m : Machine} (h : m.mCpu.Settled) (fuel : Nat) :
    (m.runNextInstruction fuel).map abstract = m.abstract.step fuel := by
  rw [runNextInstruction_eq, Reference.step]
  change _ = if m.mCpu.mPc % 4 ≠ 0 then _ else _
  split
  · rfl
  · change _ = (m.mBus.load32 m.mCpu.mPc >>= _)
    cases m.mBus.load32 m.mCpu.mPc with
    | error => rfl
    | ok instruction => exact abstract_execute h fuel instruction

/-- **Run simulation.** -/
theorem abstract_run {bios : Bios} {n : Nat} {s : Nat → Machine}
    (h : IsRun Next (reset bios) n s) :
    IsRun Reference.Next (reset bios).abstract n fun i => (s i).abstract := by
  refine h.map (P := fun m => m.mCpu.Settled) abstract
    (fun i hi => settled_of_reachable (h.reachable hi)) ?_
  rintro m m' hm ⟨fuel, hnext⟩
  refine ⟨fuel, ?_⟩
  rw [← abstract_step hm, hnext]
  rfl

/-! ## What the next two instructions see -/

/-- Only LWL and LWR read the file with the pending load committed. -/
theorem effect_merged {op : Op} (hl : op ≠ .opLwl) (hr : op ≠ .opLwr) (instruction : Word)
    (file merged merged' : Fin 32 → Word) (c : Control) (b : Bus) :
    effect op instruction file merged c b = effect op instruction file merged' c b := by
  cases op
  case opLwl => exact absurd rfl hl
  case opLwr => exact absurd rfl hr
  all_goals rfl

/-- The load of `v` into register `index` that the step `m → m'` schedules, as seen by the step
`m' → m''` that executes `instruction` with effect `e`. -/
structure LoadVisible (index : RegisterIndex) (v : Word) (m m' : Machine) (instruction : Word)
    (e : Effect) (m'' : Machine) : Prop where
  oldFile : ∀ i, m'.mCpu.mRegs i = m.mCpu.withPendingLoad i
  operands : decode instruction ≠ .opLwl → decode instruction ≠ .opLwr →
    effect (decode instruction) instruction m'.mCpu.mRegs m'.mCpu.mRegs m'.mCpu.toControl.advance
      m'.mBus = .ok e
  merged : effect (decode instruction) instruction m'.mCpu.mRegs
      (Function.update m'.mCpu.mRegs index.slot v) m'.mCpu.toControl.advance m'.mBus = .ok e
  result : m''.mCpu.mRegs index.slot =
    match e.write with
    | some (own, x) => if own.slot = index.slot then x else v
    | none => v

theorem writeFile_update {f : Fin 32 → Word} {index : Fin 32} (hne : index ≠ 0) (own : Fin 32)
    (x v : Word) :
    writeFile (Function.update f index v) own x index = if own = index then x else v := by
  unfold writeFile
  by_cases hown : own = index
  · rw [if_pos hown, hown, if_neg hne, Function.update_self]
  · rw [if_neg hown]
    split
    · exact Function.update_self ..
    · rw [Function.update_of_ne (Ne.symm hown), Function.update_self]

theorem loadVisible_of_executed {m m' m'' : Machine} {w instruction : Word} {e₀ e : Effect}
    {index : RegisterIndex} {v : Word} (hm : m.mCpu.Settled) (hx : m.Executed w e₀ m')
    (hx' : m'.Executed instruction e m'') (hload : e₀.load = some (index, v))
    (hne : index.slot ≠ 0) : LoadVisible index v m m' instruction e m'' := by
  have hm' : m'.mCpu.Settled := by
    rw [hx.after]
    exact settled_after (effect_shape hx.effectOf) _
  have hwrite : e₀.write = none := by
    cases effect_shape hx.effectOf with
    | load => rfl
    | _ => cases hload
  have hpending : m'.mCpu.mLoadRegIdx = index ∧ m'.mCpu.mLoadReg = v := by
    rw [hx.after]
    simp only [after, Effect.pending, hload, Option.getD_some, and_self]
  have hcommitted : m'.mCpu.committed = Function.update m'.mCpu.mRegs index.slot v := by
    rw [Cpu.committed, hpending.1, hpending.2, update_clear (hm'.files ▸ hm'.zero), ← hm'.files,
      writeFile, if_neg hne]
  have he := hx'.effectOf
  unfold effectOf at he
  rw [hcommitted] at he
  constructor
  case oldFile =>
    intro i
    rw [← hm.committed_eq, hx.after]
    simp only [after, Effect.file, hwrite]
  case operands =>
    intro hl hr
    rwa [effect_merged hl hr] at he
  case merged => exact he
  case result =>
    rw [hx'.after]
    change e.file m'.mCpu.committed index.slot = _
    rw [file_eq_writeFile m'.mCpu.committed_zero, hcommitted]
    cases e.write with
    | none => exact Function.update_self ..
    | some own => exact writeFile_update hne own.1.slot own.2 v

/-- **The load delay slot.**  Every run is a run of the reference machine; a load scheduled by
one instruction is not seen by the operands of the next and is visible after it, unless the
next one writes the register; a fetch fault leaves both files and the pending load alone. -/
theorem load_delay (bios : Bios) (n : Nat) (s : Nat → Machine)
    (h : IsRun Next (reset bios) n s) :
    IsRun Reference.Next (reset bios).abstract n (fun i => (s i).abstract) ∧
      (∀ k, k + 2 ≤ n → ∀ w e₀ instruction e index v,
        (s k).Executed w e₀ (s (k + 1)) → (s (k + 1)).Executed instruction e (s (k + 2)) →
          e₀.load = some (index, v) → index.slot ≠ 0 →
            LoadVisible index v (s k) (s (k + 1)) instruction e (s (k + 2))) ∧
      (∀ k < n, (s k).mCpu.mPc % 4 ≠ 0 →
        (s (k + 1)).mCpu.mRegs = (s k).mCpu.mRegs ∧
          (s (k + 1)).mCpu.mOutRegs = (s k).mCpu.mOutRegs ∧
          (s (k + 1)).mCpu.mLoadRegIdx = (s k).mCpu.mLoadRegIdx ∧
          (s (k + 1)).mCpu.mLoadReg = (s k).mCpu.mLoadReg) := by
  refine ⟨abstract_run h, ?_, ?_⟩
  · intro k hk w e₀ instruction e index v hx hx' hload hne
    have hm := settled_of_reachable (h.reachable (i := k) (by omega))
    exact loadVisible_of_executed hm hx hx' hload hne
  · intro k hk hpc
    rcases next_iff.mp (h.next k hk) with ⟨-, hfault⟩ | ⟨instruction, e, hx⟩
    · rw [hfault]
      exact ⟨rfl, rfl, rfl, rfl⟩
    · exact absurd hx.aligned hpc

/-- `mfc0 r1, SR` followed by `addu r2, r1, r1`. -/
theorem load_delay_mfc0 :
    ∃ s, IsRun Next (reset (.ofWords [0x40016000, 0x00211021])) 2 s ∧
      (s 2).mCpu.mRegs 2 = 0xdeadc0de + 0xdeadc0de ∧
      IsRun Reference.Next (reset (.ofWords [0x40016000, 0x00211021])).abstract 2
        (fun i => (s i).abstract) := by
  have hrun : okAnd ((reset (.ofWords [0x40016000, 0x00211021])).run 0 2)
      (fun m => m.mCpu.mRegs 2 == 0xdeadc0de + 0xdeadc0de) = true := by decide +kernel
  obtain ⟨m, hm, -⟩ := exists_of_okAnd hrun
  obtain ⟨s, hs, hstates⟩ := exists_isRun hm
  rw [hstates 2 (by decide), okAnd_ok, beq_iff_eq] at hrun
  exact ⟨s, hs, hrun, (load_delay _ 2 s hs).1⟩

end Machine

end CppStation
