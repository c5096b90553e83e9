import CppStation.Cpu.Run
import CppStation.Lib.Bits

/-!
# Cache isolation

With SR bit 16 set no instruction hands a store to the bus.  Loads and the
fetch leave the bus as it is, so a whole step does.
-/

namespace CppStation

open Fallible

theorem Control.cacheIsolated_iff (c : Control) :
    c.cacheIsolated = true ↔ c.mSr.getLsbD 16 = true := by
  rw [Control.cacheIsolated, bne_iff_ne]
  exact Bits.and_one_shiftLeft_ne_zero_iff c.mSr (i := 16) (by decide)

section

variable {op : Op} {instruction : Word} {file merged : Fin 32 → Word} {c : Control} {b : Bus}
  {e : Effect}

theorem store_loadT {w : Nat} {x : Result (BitVec w)} {f : BitVec w → Word}
    (h : (x >>= fun v => loadT instruction (f v)) = .ok e) : e.store = none := by
  obtain ⟨v, -, hv⟩ := bind_eq_ok.mp h
  cases hv
  rfl

theorem store_mergeLoad {x : Result Word} {merge : Word → Result Word}
    (h : (x >>= fun word => merge word >>= fun v => loadT instruction v) = .ok e) :
    e.store = none := by
  obtain ⟨word, -, hword⟩ := bind_eq_ok.mp h
  exact store_loadT hword

theorem store_mergeStore {isolated : Bool} (hisolated : isolated = true) {x : Result Word}
    {merge : Word → Result Word} {addr : Word}
    (h : (x >>= fun word => merge word >>= fun v =>
      (.ok { store := if isolated then none else some (.word addr v) } : Result Effect)) = .ok e) :
    e.store = none := by
  obtain ⟨word, -, hword⟩ := bind_eq_ok.mp h
  obtain ⟨v, -, hv⟩ := bind_eq_ok.mp hword
  cases hv
  exact if_pos hisolated

theorem store_cop0 {rt : Word} (h : cop0Effect c instruction rt = .ok e) : e.store = none := by
  unfold cop0Effect at h
  split at h
  · exact store_loadT h
  · unfold cop0Write at h
    split at h
    case h_7 =>
      cases h
      rfl
    case h_9 => cases h
    all_goals
      split at h
      · cases h
      · cases h
        rfl
  · unfold rfeEffect at h
    split at h
    · cases h
    · cases h
      rfl
  · cases h

/-- **No opcode stores** when the cache is isolated: SW tests the bit itself, the other stores
through their helpers. -/
theorem store_of_isolated (hc : c.cacheIsolated = true)
    (h : effect op instruction file merged c b = .ok e) : e.store = none := by
  cases op
  case opSub =>
    simp only [effect] at h
    split at h
    · cases h
      rfl
    · cases h
      rfl
  case opCop2 | opLwc2 | opSwc2 => cases h
  case opCop0 => exact store_cop0 h
  case opLw =>
    simp only [effect, hc] at h
    cases h
    rfl
  case opLb | opLbu | opLh => exact store_loadT h
  case opLhu =>
    simp only [effect] at h
    split at h
    · exact store_loadT h
    · cases h
      rfl
  case opLwl | opLwr => exact store_mergeLoad h
  case opSw =>
    simp only [effect, hc] at h
    cases h
    rfl
  case opSh =>
    simp only [effect, hc, if_true] at h
    split at h
    · cases h
      rfl
    · cases h
      rfl
  case opSb =>
    cases h
    exact if_pos hc
  case opSwl | opSwr => exact store_mergeStore hc h
  all_goals
    cases h
    rfl

end

namespace Machine

theorem execute_isolated {fuel : Nat} {m m' : Machine} {instruction : Word}
    (hisolated : m.mCpu.mSr.getLsbD 16 = true) (h : m.execute fuel instruction = .ok m') :
    (∀ e, m.effectOf instruction = .ok e → e.store = none) ∧ m'.mBus = m.mBus := by
  have hc : m.mCpu.toControl.advance.cacheIsolated = true :=
    (Control.cacheIsolated_iff _).mpr hisolated
  have hstore : ∀ e, m.effectOf instruction = .ok e → e.store = none := fun e he =>
    store_of_isolated hc he
  obtain ⟨e, he, hbus, -⟩ := execute_eq_ok.mp h
  rw [Effect.bus, hstore e he] at hbus
  exact ⟨hstore, (Except.ok.inj hbus).symm⟩

/-- **Cache isolation blocks every write.**  With SR bit 16 set, a step that returns hands no
store to the bus, so it starts no DMA transfer, and leaves RAM, the DMA registers and the GPU as
they were, whatever the instruction. -/
theorem cacheIsolation {m : Machine} (hisolated : m.mCpu.mSr.getLsbD 16 = true) (fuel : Nat) :
    (∀ instruction m', m.execute fuel instruction = .ok m' →
      (∀ e, m.effectOf instruction = .ok e → e.store = none) ∧ m'.mBus = m.mBus) ∧
      ∀ m', m.runNextInstruction fuel = .ok m' →
        m'.mBus.mRam = m.mBus.mRam ∧ m'.mBus.mDma = m.mBus.mDma ∧ m'.mBus.mGpu = m.mBus.mGpu := by
  refine ⟨fun instruction m' h => execute_isolated hisolated h, ?_⟩
  intro m' h
  have hbus : m'.mBus = m.mBus := by
    rw [runNextInstruction_eq] at h
    split at h
    · cases h
      rfl
    · obtain ⟨instruction, -, hexecute⟩ := bind_eq_ok.mp h
      exact (execute_isolated hisolated hexecute).2
  rw [hbus]
  exact ⟨rfl, rfl, rfl⟩

/-- A store word to the control register of the ordering table channel, which would start it. -/
theorem cacheIsolation_sw :
    ∃ m m' : Machine, m.runNextInstruction 0 = .ok m' ∧ m'.mCpu.mPc = 0xbfc00004 ∧
      m'.mBus.mRam = m.mBus.mRam ∧ m'.mBus.mDma = m.mBus.mDma ∧ m'.mBus.mGpu = m.mBus.mGpu := by
  let regs : Fin 32 → Word := fun i =>
    if i = 1 then 0x1f8010e8 else if i = 2 then 0x11000002 else 0
  let m : Machine := { reset (.ofWords [0xac220000]) with
    mCpu := { Cpu.new with mSr := 0x10000, mRegs := regs, mOutRegs := regs } }
  have hrun : okAnd (m.runNextInstruction 0) (fun m' => m'.mCpu.mPc == 0xbfc00004) = true := by
    decide +kernel
  obtain ⟨m', hm', hpc⟩ := exists_of_okAnd hrun
  exact ⟨m, m', hm', beq_iff_eq.mp hpc, (cacheIsolation (by decide) 0).2 m' hm'⟩

end Machine

end CppStation
