import CppStation.Cpu.Effect

/-!
# Steps and runs of the machine

`runNextInstruction_eq` gives one step in closed form, and `next_iff` says
which two steps there are: a fetch fault (`Machine.faulted`) or an executed
instruction (`Machine.Executed`).  The invariant of the CPU state follows.
-/

namespace CppStation

open Fallible

/-- The control state that an instruction executes in. -/
def Control.advance (c : Control) : Control :=
  { c with
    mCurrentPc := c.mPc
    mPc := c.mNextPc
    mNextPc := c.mNextPc + 4
    mDelaySlot := c.mBranch
    mBranch := false }

def Control.retire (c : Control) : Control := { c with mIp := c.mIp + 1 }

/-- The output registers with the pending load written. -/
def Cpu.committed (c : Cpu) : Fin 32 → Word :=
  Function.update (Function.update c.mOutRegs c.mLoadRegIdx.slot c.mLoadReg) 0 0

namespace Machine

/-- The effect of an instruction word in this state. -/
def effectOf (m : Machine) (instruction : Word) : Result Effect :=
  effect (decode instruction) instruction m.mCpu.mRegs m.mCpu.committed m.mCpu.toControl.advance
    m.mBus

theorem effectOf_eq {m : Machine} {instruction : Word} {op : Op} (hop : decode instruction = op) :
    m.effectOf instruction =
      effect op instruction m.mCpu.mRegs m.mCpu.committed m.mCpu.toControl.advance m.mBus := by
  rw [← hop]
  rfl

/-- The state after an instruction with effect `e`, which left the bus as `bus`. -/
def after (m : Machine) (e : Effect) (bus : Bus) : Machine :=
  ⟨{
    toControl := (e.control m.mCpu.toControl.advance).retire
    mRegs := e.file m.mCpu.committed
    mOutRegs := e.file m.mCpu.committed
    mLoadRegIdx := (e.pending (⟨0⟩, 0)).1
    mLoadReg := (e.pending (⟨0⟩, 0)).2 }, bus⟩

/-- The state after a fetch from a misaligned `mPc`. -/
def faulted (m : Machine) : Machine :=
  ⟨{ m.mCpu with
    toControl :=
      ({ m.mCpu.toControl with mCurrentPc := m.mCpu.mPc }).exception .loadAddressError }, m.mBus⟩

/-- `runNextInstruction` when the fetch from an aligned `mPc` returns `instruction`. -/
def execute (fuel : Nat) (m : Machine) (instruction : Word) : Result Machine :=
  ({ m with mCpu := { m.mCpu with mCurrentPc := m.mCpu.mPc } } : Machine).runFetched fuel instruction

theorem execute_eq (fuel : Nat) (m : Machine) (instruction : Word) :
    m.execute fuel instruction =
      m.effectOf instruction >>= fun e =>
        linkIp m.mCpu.mIp (e.bus fuel m.mBus) >>= fun bus => .ok (m.after e bus) := by
  simp only [execute, runFetched, decodeAndExecute, execOp_eq_effect]
  change ((m.effectOf instruction >>= _) >>= _) = _
  cases m.effectOf instruction with
  | error => rfl
  | ok e =>
    simp only [ok_bind, applyEffect]
    cases e.bus fuel m.mBus with
    | error => rfl
    | ok bus =>
      simp only [linkIp_ok, ok_bind, Cpu.endInstruction, after]
      rfl

theorem execute_eq_ok {fuel : Nat} {m m' : Machine} {instruction : Word} :
    m.execute fuel instruction = .ok m' ↔
      ∃ e, m.effectOf instruction = .ok e ∧ e.bus fuel m.mBus = .ok m'.mBus ∧
        m' = m.after e m'.mBus := by
  simp only [execute_eq, bind_eq_ok, linkIp_eq_ok]
  constructor
  · rintro ⟨e, he, bus, hbus, h⟩
    cases h
    exact ⟨e, he, hbus, rfl⟩
  · rintro ⟨e, he, hbus, h⟩
    exact ⟨e, he, m'.mBus, hbus, congrArg _ h.symm⟩

/-- **One step in closed form.** -/
theorem runNextInstruction_eq (fuel : Nat) (m : Machine) :
    m.runNextInstruction fuel =
      if m.mCpu.mPc % 4 ≠ 0 then .ok m.faulted
      else m.mBus.load32 m.mCpu.mPc >>= fun instruction => m.execute fuel instruction := rfl

/-- The step `m → m'` executes `instruction`, with effect `e`. -/
structure Executed (m : Machine) (instruction : Word) (e : Effect) (m' : Machine) : Prop where
  aligned : m.mCpu.mPc % 4 = 0
  fetched : m.mBus.load32 m.mCpu.mPc = .ok instruction
  effectOf : m.effectOf instruction = .ok e
  bus : ∃ fuel, e.bus fuel m.mBus = .ok m'.mBus
  after : m' = m.after e m'.mBus

/-- **Step inversion.** -/
theorem next_iff {m m' : Machine} :
    m.Next m' ↔
      (m.mCpu.mPc % 4 ≠ 0 ∧ m' = m.faulted) ∨ ∃ instruction e, m.Executed instruction e m' := by
  simp only [Next, runNextInstruction_eq]
  by_cases ha : m.mCpu.mPc % 4 = 0
  · simp only [ne_eq, ha, not_true_eq_false, if_false, false_and, false_or, bind_eq_ok,
      execute_eq_ok]
    constructor
    · rintro ⟨fuel, w, hw, e, he, hbus, h⟩
      exact ⟨w, e, ha, hw, he, ⟨fuel, hbus⟩, h⟩
    · rintro ⟨w, e, -, hw, he, ⟨fuel, hbus⟩, h⟩
      exact ⟨fuel, w, hw, e, he, hbus, h⟩
  · simp only [ne_eq, ha, not_false_eq_true, if_true, true_and]
    constructor
    · rintro ⟨-, h⟩
      cases h
      exact .inl rfl
    · rintro (rfl | ⟨w, e, hx⟩)
      · exact ⟨0, rfl⟩
      · exact absurd hx.aligned ha

theorem raised_control (e : Effect) (c : Control) :
    (e.control c).raised = c.raised ++ e.raise.toList := by
  unfold Effect.control
  cases e.raise <;> cases e.hiLo <;> cases e.sr <;> cases e.jump <;>
    simp [Control.exception_raised]

theorem raised_after (m : Machine) (e : Effect) (bus : Bus) :
    (m.after e bus).mCpu.raised = m.mCpu.raised ++ e.raise.toList :=
  raised_control e m.mCpu.toControl.advance

/-- The program counters after an instruction without exception. -/
theorem pcs_after (m : Machine) {e : Effect} (bus : Bus) (hno : e.raise = none) :
    (m.after e bus).mCpu.mPc = m.mCpu.mNextPc ∧
      (m.after e bus).mCpu.mCurrentPc = m.mCpu.mPc ∧
      (m.after e bus).mCpu.mNextPc = e.jump.getD (m.mCpu.mNextPc + 4) ∧
      (m.after e bus).mCpu.mBranch = e.jump.isSome := by
  obtain ⟨raise, write, load, jump, hiLo, sr, store⟩ := e
  subst hno
  cases hiLo <;> cases sr <;> cases jump <;> exact ⟨rfl, rfl, rfl, rfl⟩

/-- The branch flags after any instruction. -/
theorem flags_after (m : Machine) (e : Effect) (bus : Bus) :
    (m.after e bus).mCpu.mCurrentPc = m.mCpu.mPc ∧
      (m.after e bus).mCpu.mBranch = e.jump.isSome ∧
      (m.after e bus).mCpu.mDelaySlot = m.mCpu.mBranch := by
  obtain ⟨raise, write, load, jump, hiLo, sr, store⟩ := e
  cases raise with
  | none => cases hiLo <;> cases sr <;> cases jump <;> exact ⟨rfl, rfl, rfl⟩
  | some cause =>
    obtain ⟨hbranch, hslot, hcur, -⟩ := Control.exception_frame m.mCpu.toControl.advance cause
    cases hiLo <;> cases sr <;> cases jump <;> first
      | exact ⟨hcur, rfl, hslot⟩
      | exact ⟨hcur, hbranch, hslot⟩

/-- The loop of `main` only goes through reachable states. -/
theorem reachable_of_run {bios : Bios} {fuel n : Nat} {m m' : Machine} (hm : Reachable bios m)
    (h : m.run fuel n = .ok m') : Reachable bios m' := by
  induction n generalizing m with
  | zero =>
    cases h
    exact hm
  | succ n ih =>
    obtain ⟨next, hnext, hrest⟩ := bind_eq_ok.mp h
    exact ih (hm.tail ⟨fuel, hnext⟩) hrest

/-- The states that the loop of `main` goes through are a run. -/
theorem exists_isRun {fuel n : Nat} {m m' : Machine} (h : m.run fuel n = .ok m') :
    ∃ s, Transition.IsRun Next m n s ∧ ∀ i ≤ n, m.run fuel i = .ok (s i) := by
  induction n generalizing m with
  | zero => exact ⟨fun _ => m, ⟨rfl, by omega⟩, fun i hi => by rw [Nat.le_zero.mp hi]; rfl⟩
  | succ n ih =>
    obtain ⟨next, hnext, hrest⟩ := bind_eq_ok.mp h
    obtain ⟨s, hs, hrun⟩ := ih hrest
    refine ⟨fun i => Nat.casesOn i m s, ⟨rfl, ?_⟩, ?_⟩
    · rintro (_ | i) hi
      · exact ⟨fuel, hnext.trans (congrArg _ hs.start.symm)⟩
      · exact hs.next i (by omega)
    · rintro (_ | i) hi
      · rfl
      · exact bind_eq_ok.mpr ⟨next, hnext, hrun i (by omega)⟩

end Machine

/-! ## The invariant of the CPU state -/

theorem Cpu.committed_zero (c : Cpu) : c.committed 0 = 0 := Function.update_self ..

theorem Effect.file_zero (e : Effect) {f : Fin 32 → Word} (h : f 0 = 0) : e.file f 0 = 0 := by
  unfold Effect.file
  cases e.write with
  | none => exact h
  | some => exact Function.update_self ..

/-- The effect writes another register than `i`. -/
def Effect.Keeps (e : Effect) (i : Fin 32) : Prop := ∀ p, e.write = some p → p.1.slot ≠ i

theorem Effect.Keeps.file {e : Effect} {i : Fin 32} (h : e.Keeps i) (hi : i ≠ 0)
    (f : Fin 32 → Word) : e.file f i = f i := by
  unfold Effect.file
  cases hw : e.write with
  | none => rfl
  | some p =>
    change Function.update (Function.update f p.1.slot p.2) 0 0 i = f i
    rw [Function.update_of_ne hi, Function.update_of_ne (h p hw).symm]

/-- A state between two instructions. -/
structure Cpu.Settled (c : Cpu) : Prop where
  files : c.mRegs = c.mOutRegs
  zero : c.mRegs 0 = 0
  loadIdx : c.mLoadRegIdx.val < 32
  sequential : c.mBranch = false → c.mNextPc = c.mPc + 4

/-- The registers of a state between instructions with the pending load written. -/
def Cpu.withPendingLoad (c : Cpu) (i : Fin 32) : Word :=
  if i = 0 then 0 else if i = c.mLoadRegIdx.slot then c.mLoadReg else c.mRegs i

theorem Cpu.Settled.committed_eq {c : Cpu} (h : c.Settled) : c.committed = c.withPendingLoad := by
  funext i
  simp only [Cpu.committed, Cpu.withPendingLoad, Function.update_apply, h.files]

theorem Cpu.Settled.committed_of_noLoad {c : Cpu} (h : c.Settled) (hload : c.mLoadRegIdx.slot = 0) :
    c.committed = c.mRegs := by
  rw [h.committed_eq]
  funext i
  rw [Cpu.withPendingLoad, hload]
  split
  · next hi => rw [hi, h.zero]
  · rfl

theorem settled_new : Cpu.new.Settled where
  files := rfl
  zero := rfl
  loadIdx := by decide
  sequential _ := rfl

theorem Effect.Shape.pending_lt {op : Op} {e : Effect} (h : e.Shape op) :
    (e.pending (⟨0⟩, 0)).1.val < 32 := by
  cases h with
  | load _ _ hlt => exact hlt
  | _ => exact (by decide : (0 : Word) < 32)

/-- Without a jump the program counter goes on to the next word. -/
theorem Effect.Shape.sequential {op : Op} {e : Effect} (h : e.Shape op) (c : Control)
    (hb : (e.control c.advance).mBranch = false) :
    (e.control c.advance).mNextPc = (e.control c.advance).mPc + 4 := by
  cases h with
  | jump link target _ =>
    cases target with
    | none => rfl
    | some => cases hb
  | raise cause => exact Control.exception_mNextPc _ _
  | overflow => exact Control.exception_mNextPc _ _
  | _ => rfl

namespace Machine

theorem settled_faulted {m : Machine} (h : m.mCpu.Settled) : m.faulted.mCpu.Settled where
  files := h.files
  zero := h.zero
  loadIdx := h.loadIdx
  sequential _ := Control.exception_mNextPc _ _

theorem settled_after {m : Machine} {op : Op} {e : Effect} (he : e.Shape op) (bus : Bus) :
    (m.after e bus).mCpu.Settled where
  files := rfl
  zero := e.file_zero m.mCpu.committed_zero
  loadIdx := he.pending_lt
  sequential := he.sequential m.mCpu.toControl

/-- **Step lemma.** -/
theorem settled_next {m m' : Machine} (h : m.mCpu.Settled) (hm : m.Next m') :
    m'.mCpu.Settled := by
  rcases next_iff.mp hm with ⟨-, rfl⟩ | ⟨instruction, e, hx⟩
  · exact settled_faulted h
  · rw [hx.after]
    exact settled_after (effect_shape hx.effectOf) _

/-- **Run lemma.** -/
theorem settled_of_reachable {bios : Bios} {m : Machine} (h : Reachable bios m) :
    m.mCpu.Settled :=
  h.invariant (P := fun m => m.mCpu.Settled) settled_new fun _ _ => settled_next

/-- **CPU state invariant.**  In every reachable state both register files agree, R0 is zero,
the pending load has a register index, and `mNextPc` follows `mPc` unless a branch was
taken. -/
theorem cpu_state_invariant (bios : Bios) (m : Machine) (h : Reachable bios m) :
    (∀ i, m.mCpu.mRegs i = m.mCpu.mOutRegs i) ∧ m.mCpu.mRegs 0 = 0 ∧ m.mCpu.mOutRegs 0 = 0 ∧
      m.mCpu.mLoadRegIdx.val < 32 ∧
      (m.mCpu.mBranch = false → m.mCpu.mNextPc = m.mCpu.mPc + 4) := by
  have hs := settled_of_reachable h
  exact ⟨congrFun hs.files, hs.zero, hs.files ▸ hs.zero, hs.loadIdx, hs.sequential⟩

/-- A jump with `mfc0 r31, SR` in its delay slot. -/
theorem cpu_state_invariant_mfc0 :
    ∃ m : Machine, m.mCpu.mLoadRegIdx.val = 31 ∧
      (∀ i, m.mCpu.mRegs i = m.mCpu.mOutRegs i) ∧ m.mCpu.mRegs 0 = 0 ∧ m.mCpu.mOutRegs 0 = 0 ∧
      m.mCpu.mLoadRegIdx.val < 32 ∧
      (m.mCpu.mBranch = false → m.mCpu.mNextPc = m.mCpu.mPc + 4) := by
  have hrun : okAnd ((reset (.ofWords [0x0bf00004, 0x401f6000])).run 0 2)
      (fun m => m.mCpu.mLoadRegIdx.val == 31) = true := by decide +kernel
  obtain ⟨m, hm, hidx⟩ := exists_of_okAnd hrun
  exact ⟨m, beq_iff_eq.mp hidx,
    cpu_state_invariant _ m (reachable_of_run (Transition.Reachable.refl _ _) hm)⟩

end Machine

end CppStation
