import CppStation.Cpu.ExceptionPc
import CppStation.Cpu.Status

/-!
# COP0 and the instruction count over a run

SR, CAUSE and EPC are a replay of the exceptions, the RFE instructions and the
writes to SR; nothing else changes them.  `mIp` counts the steps that execute an
instruction, and a step that only faults is followed by one that does.
-/

namespace CppStation

open Fallible Instruction Transition

/-! ## The registers on their own -/

/-- What COP0 reacts to. -/
inductive Cop0Event
  /-- An exception at `pc`, which may be in a delay slot. -/
  | raised (cause : Exception) (pc : Word) (inSlot : Bool)
  /-- RFE. -/
  | returned
  /-- MTC0 to SR. -/
  | wrote (val : Word)
  deriving DecidableEq, Repr

structure Cop0 where
  mSr : Word
  mCause : Word
  mEpc : Word
  deriving DecidableEq, Repr

namespace Cop0

/-- An exception and RFE shift the three modes, and leave nothing else in SR. -/
def obey (c : Cop0) : Cop0Event → Cop0
  | .raised cause pc inSlot => {
      mSr := ((c.mSr &&& 0x3f) <<< 2) &&& 0x3f
      mCause := (cause.toWord <<< 2) ||| if inSlot then 0x80000000 else 0
      mEpc := if inSlot then pc - 4 else pc }
  | .returned => { c with mSr := (c.mSr &&& 0x3f) >>> 2 }
  | .wrote val => { c with mSr := val }

end Cop0

def Control.cop0 (c : Control) : Cop0 := ⟨c.mSr, c.mCause, c.mEpc⟩

theorem Control.cop0_exception (c : Control) (cause : Exception) :
    (c.exception cause).cop0 = c.cop0.obey (.raised cause c.mCurrentPc c.mDelaySlot) := by
  rw [cop0, exception_mSr, exception_mCause, exception_mEpc, Cpu.and_lnot_or]
  cases c.mDelaySlot with
  | true => rfl
  | false =>
    have hzero : cause.toWord <<< 2 = (cause.toWord <<< 2) ||| 0 := BitVec.or_zero.symm
    exact congrArg (fun x => Cop0.mk _ x _) hzero

/-! ## The effects on SR -/

theorem sr_eq_none {op : Op} {instruction : Word} {file merged : Fin 32 → Word} {c : Control}
    {b : Bus} {e : Effect} (hop : op ≠ .opCop0)
    (h : effect op instruction file merged c b = .ok e) : e.sr = none := by
  have hload {w : Nat} {x : Result (BitVec w)} {f : BitVec w → Word}
      (h : (x >>= fun v => loadT instruction (f v)) = .ok e) : e.sr = none := by
    obtain ⟨v, -, hv⟩ := bind_eq_ok.mp h
    cases hv
    rfl
  have hmergeLoad {x : Result Word} {merge : Word → Result Word}
      (h : (x >>= fun word => merge word >>= fun v => loadT instruction v) = .ok e) :
      e.sr = none := by
    obtain ⟨word, -, hword⟩ := bind_eq_ok.mp h
    exact hload hword
  have hmergeStore {x : Result Word} {merge : Word → Result Word} {f : Word → Option StoreReq}
      (h : (x >>= fun word => merge word >>= fun v =>
        (.ok { store := f v } : Result Effect)) = .ok e) : e.sr = none := by
    obtain ⟨word, -, hword⟩ := bind_eq_ok.mp h
    obtain ⟨v, -, hv⟩ := bind_eq_ok.mp hword
    cases hv
    rfl
  have hite {p : Prop} [Decidable p] {x y : Result Effect} (hx : x = .ok e → e.sr = none)
      (hy : y = .ok e → e.sr = none) (h : (if p then x else y) = .ok e) : e.sr = none := by
    split at h
    · exact hx h
    · exact hy h
  have hok {e' : Effect} (hsr : e'.sr = none) (h : (.ok e' : Result Effect) = .ok e) :
      e.sr = none := by
    cases h
    exact hsr
  cases op
  case opCop0 => exact absurd rfl hop
  case opCop2 | opLwc2 | opSwc2 => cases h
  case opSub => exact hite (hok rfl) (hok rfl) h
  case opLw => exact hite (hok rfl) hload h
  case opLb | opLbu | opLh => exact hload h
  case opLhu => exact hite hload (hok rfl) h
  case opLwl | opLwr => exact hmergeLoad h
  case opSwl | opSwr => exact hmergeStore h
  case opSw => exact hite (hok rfl) (hite (hok rfl) (hok rfl)) h
  case opSh => exact hite (hok rfl) (hok rfl) h
  all_goals exact hok rfl h

namespace Machine

/-! ## The event of a step -/

/-- What the next step makes COP0 react to. -/
def cop0Event (m : Machine) : Option Cop0Event :=
  if m.mCpu.mPc % 4 ≠ 0 then
    -- `mDelaySlot` is the one of the instruction before
    some (.raised .loadAddressError m.mCpu.mPc m.mCpu.mDelaySlot)
  else
    match m.mBus.load32 m.mCpu.mPc with
    | .error _ => none
    | .ok instruction =>
      match (m.effectOf instruction).toOption.bind Effect.raise with
      | some cause => some (.raised cause m.mCpu.mPc m.mCpu.mBranch)
      | none =>
        if decode instruction ≠ .opCop0 then none
        else
          match (copOpcode instruction).toNat with
          | 0b00100 =>
            if (d instruction).val.toNat = 12 then some (.wrote (m.mCpu.reg (t instruction)))
            else none
          | 0b10000 => some .returned
          | _ => none

variable {m m' : Machine} {instruction : Word} {e : Effect}

/-- The registers after an effect without exception. -/
theorem cop0_after (m : Machine) (bus : Bus) (hno : e.raise = none) :
    (m.after e bus).mCpu.cop0 =
      match e.sr with
      | some v => { m.mCpu.cop0 with mSr := v }
      | none => m.mCpu.cop0 := by
  obtain ⟨raise, write, load, jump, hiLo, sr, store⟩ := e
  cases hno
  cases hiLo <;> cases sr <;> cases jump <;> rfl

theorem cop0_after_raise (m : Machine) {op : Op} (bus : Bus) (hs : e.Shape op) {cause : Exception}
    (hraise : e.raise = some cause) :
    (m.after e bus).mCpu.cop0 =
      m.mCpu.cop0.obey (.raised cause m.mCpu.mPc m.mCpu.mBranch) := by
  have hexception := m.mCpu.toControl.advance.cop0_exception cause
  cases hs with
  | raise => cases hraise; exact hexception
  | overflow => cases hraise; exact hexception
  | _ => cases hraise

/-- COP0 instructions that return. -/
theorem cop0_effect (h : m.effectOf instruction = .ok e) (hop : decode instruction = .opCop0)
    (bus : Bus) :
    e.raise = none ∧ (m.after e bus).mCpu.cop0 =
      match (copOpcode instruction).toNat with
      | 0b00100 =>
        if (d instruction).val.toNat = 12 then
          m.mCpu.cop0.obey (.wrote (m.mCpu.reg (t instruction)))
        else m.mCpu.cop0
      | 0b10000 => m.mCpu.cop0.obey .returned
      | _ => m.mCpu.cop0 := by
  rw [effectOf_eq hop] at h
  simp only [effect, cop0Effect] at h
  split at h
  · next hcop =>
    obtain ⟨v, -, hv⟩ := bind_eq_ok.mp h
    cases hv
    rw [hcop]
    exact ⟨rfl, cop0_after m bus rfl⟩
  · next hcop =>
    rw [hcop]
    unfold cop0Write at h
    split at h
    case h_7 heq =>
      cases h
      exact ⟨rfl, (cop0_after m bus rfl).trans (if_pos heq).symm⟩
    case h_9 => cases h
    all_goals
      next heq =>
        have hne : ¬ (d instruction).val.toNat = 12 := by omega
        split at h
        · cases h
        · cases h
          exact ⟨rfl, (cop0_after m bus rfl).trans (if_neg hne).symm⟩
  · next hcop =>
    rw [hcop]
    unfold rfeEffect at h
    split at h
    · cases h
    · cases h
      refine ⟨rfl, (cop0_after m bus rfl).trans ?_⟩
      simp only [Cpu.and_lnot_or]
      rfl
  · cases h

/-- **Step lemma.** -/
theorem cop0_next (h : m.Next m') :
    m'.mCpu.cop0 = m.cop0Event.elim m.mCpu.cop0 m.mCpu.cop0.obey := by
  rcases next_iff.mp h with ⟨hfault, rfl⟩ | ⟨instruction, e, hx⟩
  · rw [cop0Event, if_pos hfault]
    exact Control.cop0_exception _ _
  · rw [cop0Event, if_neg (not_not.mpr hx.aligned), hx.fetched, hx.after]
    simp only [hx.effectOf, Except.toOption, Option.bind_some]
    cases hraise : e.raise with
    | some cause => exact cop0_after_raise m _ (effect_shape hx.effectOf) hraise
    | none =>
      by_cases hop : decode instruction = .opCop0
      · simp only [hop, ne_eq, not_true_eq_false, if_false]
        rw [(cop0_effect hx.effectOf hop m'.mBus).2]
        split
        · split <;> rfl
        · rfl
        · rfl
      · simp only [ne_eq, hop, not_false_eq_true, if_true]
        rw [cop0_after m m'.mBus hraise, sr_eq_none hop hx.effectOf]
        rfl

/-! ## Runs -/

/-- The events before step `i` of a run. -/
def cop0Events (s : Nat → Machine) (i : Nat) : List Cop0Event :=
  (List.range i).filterMap fun k => (s k).cop0Event

/-- **COP0 over a run.**  SR, CAUSE and EPC are those of a new COP0 that obeyed the exceptions, the
RFE instructions and the writes to SR, in order. -/
theorem cop0_replay (bios : Bios) (n : Nat) (s : Nat → Machine) (h : IsRun Next (reset bios) n s)
    (i : Nat) (hi : i ≤ n) :
    (s i).mCpu.cop0 = (cop0Events s i).foldl Cop0.obey ⟨0, 0, 0⟩ := by
  induction i with
  | zero =>
    rw [h.start]
    rfl
  | succ i ih =>
    rw [cop0_next (h.next i hi), ih (by omega), cop0Events, cop0Events, List.range_succ,
      List.filterMap_append, List.foldl_append]
    cases hevent : (s i).cop0Event with
    | none => simp [hevent]
    | some event => simp [hevent]

/-- `lui r1, 1; ori r1, r1, 1; mtc0 r1, SR; syscall`. -/
def statusProgram : List Word := [0x3c010001, 0x34210001, 0x40816000, 0x0000000c]

/-- SYSCALL after SR was set to `0x10001`: CAUSE and EPC are those of the call, and only the mode
bit is left of SR. -/
theorem cop0_replay_syscall : ∃ s, IsRun Next (reset (.ofWords statusProgram)) 4 s ∧
    (cop0Events s 4).foldl Cop0.obey ⟨0, 0, 0⟩ = ⟨4, 0x20, 0xbfc0000c⟩ := by
  have hrun : okAnd ((reset (.ofWords statusProgram)).run 0 4)
      (fun m => m.mCpu.cop0 = ⟨4, 0x20, 0xbfc0000c⟩) = true := by decide +kernel
  obtain ⟨m, hm, hcop0⟩ := exists_of_okAnd hrun
  obtain ⟨s, hs, hstates⟩ := exists_isRun hm
  have hlast : s 4 = m := Except.ok.inj ((hstates 4 (Nat.le_refl 4)).symm.trans hm)
  refine ⟨s, hs, ?_⟩
  rw [← cop0_replay _ 4 s hs 4 (Nat.le_refl 4), hlast]
  exact of_decide_eq_true hcop0

/-- The number of instructions executed before step `i` of a run. -/
def executed (s : Nat → Machine) (i : Nat) : Nat :=
  (List.range i).countP fun k => (s k).mCpu.mPc % 4 = 0

theorem executed_succ (s : Nat → Machine) (i : Nat) :
    executed s (i + 1) = executed s i + if (s i).mCpu.mPc % 4 = 0 then 1 else 0 := by
  simp [executed, List.range_succ]

theorem mIp_after (m : Machine) (e : Effect) (bus : Bus) :
    (m.after e bus).mCpu.mIp = m.mCpu.mIp + 1 := by
  obtain ⟨raise, write, load, jump, hiLo, sr, store⟩ := e
  cases raise with
  | none => cases hiLo <;> cases sr <;> cases jump <;> rfl
  | some cause =>
    have hframe := (Control.exception_frame m.mCpu.toControl.advance cause).2.2.2.1
    cases hiLo <;> cases sr <;> cases jump <;> exact congrArg (· + 1) hframe

/-- A fetch fault continues at a handler, which is aligned. -/
theorem aligned_of_fault {m m' : Machine} (h : m.Next m') (hfault : m.mCpu.mPc % 4 ≠ 0) :
    m'.mCpu.mPc % 4 = 0 := by
  rcases next_iff.mp h with ⟨-, rfl⟩ | ⟨instruction, e, hx⟩
  · exact handler_aligned _ _
  · exact absurd hx.aligned hfault

/-- **The instruction count.**  `mIp` counts the instructions that were executed.  A fetch fault is
never followed by another one, so at least every second step executes an instruction. -/
theorem instruction_count (bios : Bios) (n : Nat) (s : Nat → Machine)
    (h : IsRun Next (reset bios) n s) (i : Nat) (hi : i ≤ n) :
    (s i).mCpu.mIp = BitVec.ofNat 32 (executed s i) ∧
      (∀ k < i, (s k).mCpu.mPc % 4 ≠ 0 → (s (k + 1)).mCpu.mPc % 4 = 0) ∧
      i ≤ 2 * executed s i + 1 := by
  -- After an odd number of wasted steps the next instruction is aligned
  have hinv : (s i).mCpu.mIp = BitVec.ofNat 32 (executed s i) ∧
      (i ≤ 2 * executed s i ∨ (i = 2 * executed s i + 1 ∧ (s i).mCpu.mPc % 4 = 0)) := by
    induction i with
    | zero =>
      rw [h.start]
      exact ⟨rfl, .inl (Nat.zero_le _)⟩
    | succ i ih =>
      obtain ⟨hcount, hprogress⟩ := ih (by omega)
      rw [executed_succ]
      rcases next_iff.mp (h.next i hi) with ⟨hfault, hnext⟩ | ⟨instruction, e, hx⟩
      · have hip : (s (i + 1)).mCpu.mIp = (s i).mCpu.mIp := by
          rw [hnext]
          exact (Control.exception_frame _ _).2.2.2.1
        have haligned := aligned_of_fault (h.next i hi) hfault
        rw [if_neg hfault, hip]
        refine ⟨hcount, ?_⟩
        rcases hprogress with hle | ⟨-, hpc⟩
        · by_cases heq : i = 2 * executed s i
          · exact .inr ⟨by omega, haligned⟩
          · exact .inl (by omega)
        · exact absurd hpc hfault
      · rw [if_pos hx.aligned, hx.after, mIp_after, hcount, BitVec.ofNat_add]
        exact ⟨rfl, .inl (by omega)⟩
  obtain ⟨hcount, hprogress⟩ := hinv
  exact ⟨hcount, fun k hk => aligned_of_fault (h.next k (by omega)), by omega⟩

/-- `addiu r1, r0, 2; jr r1; nop`, and the fetch fault at address 2. -/
theorem instruction_count_fault :
    ∃ s, IsRun Next (reset (.ofWords [0x24010002, 0x00200008, 0])) 4 s ∧
      (s 3).mCpu.mPc % 4 ≠ 0 ∧ (3 : Word) = BitVec.ofNat 32 (executed s 4) ∧
      (∀ k < 4, (s k).mCpu.mPc % 4 ≠ 0 → (s (k + 1)).mCpu.mPc % 4 = 0) ∧
      4 ≤ 2 * executed s 4 + 1 := by
  have hrun : okAnd ((reset (.ofWords [0x24010002, 0x00200008, 0])).run 0 4)
      (fun m => m.mCpu.mIp = 3) = true := by decide +kernel
  obtain ⟨m, hm, hip⟩ := exists_of_okAnd hrun
  obtain ⟨s, hs, hstates⟩ := exists_isRun hm
  have hlast : s 4 = m := Except.ok.inj ((hstates 4 (Nat.le_refl 4)).symm.trans hm)
  have hfault : okAnd ((reset (.ofWords [0x24010002, 0x00200008, 0])).run 0 3)
      (fun m => m.mCpu.mPc % 4 ≠ 0) = true := by decide +kernel
  rw [hstates 3 (by decide), okAnd_ok] at hfault
  obtain ⟨hcount, hprogress⟩ := instruction_count _ 4 s hs 4 (Nat.le_refl 4)
  refine ⟨s, hs, of_decide_eq_true hfault, ?_, hprogress⟩
  rw [← hcount, hlast]
  exact (of_decide_eq_true hip).symm

end Machine

end CppStation
