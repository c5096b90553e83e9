import CppStation.Cpu.DelaySlot

/-!
# EPC and the branch delay bit

The documented law for EPC and bit 31 of CAUSE, over runs.  The code decides by
`mBranch` and `mDelaySlot`; a fetch from a misaligned address returns before it
updates either.
-/

namespace CppStation

open Fallible Transition

namespace Machine

/-- The instruction at the program counter is a taken branch or a jump. -/
def takesBranch (m : Machine) : Bool :=
  m.mCpu.mPc % 4 == 0 &&
    okAnd (m.mBus.load32 m.mCpu.mPc) fun instruction =>
      (archTarget instruction m.mCpu.mRegs m.mCpu.mNextPc).isSome

/-- The program counter is in a delay slot: the step before executed a taken branch or a
jump. -/
def InDelaySlot (s : Nat → Machine) : Nat → Prop
  | 0 => False
  | k + 1 => (s k).takesBranch = true

/-- EPC and the branch delay bit after the step `m → m'` that enters an exception. -/
structure ExceptionPcLaw (inDelaySlot : Prop) (m m' : Machine) : Prop where
  delaySlot : inDelaySlot →
    m'.mCpu.mEpc = m.mCpu.mPc - 4 ∧ m'.mCpu.mCause.getLsbD 31 = true
  otherwise : ¬ inDelaySlot →
    m'.mCpu.mEpc = m.mCpu.mPc ∧ m'.mCpu.mCause.getLsbD 31 = false

/-- The flag that the exception would read is up to date.  A misaligned program counter is
where a jump went, and `mDelaySlot` still says so; `mCurrentPc` is misaligned right after
such a fault, and `mBranch` is then left over from before it. -/
def FlagsCurrent (m : Machine) : Prop :=
  if m.mCpu.mPc % 4 ≠ 0 then m.mCpu.mBranch = true
  else ¬ (m.mCpu.mCurrentPc % 4 ≠ 0 ∧ m.mCpu.mBranch = true)

/-- The same in terms of the branches taken: a fetch that faults is in a delay slot, and an
instruction does not come right after a fetch that faulted in a delay slot. -/
def BranchesCurrent (s : Nat → Machine) (k : Nat) : Prop :=
  if (s k).mCpu.mPc % 4 ≠ 0 then InDelaySlot s k
  else ∀ j, k = j + 1 → ¬ ((s j).mCpu.mPc % 4 ≠ 0 ∧ InDelaySlot s j)

/-! ## The exception entry -/

theorem exceptionPcLaw_iff {flag : Bool} {inDelaySlot : Prop} {m m' : Machine}
    (hepc : m'.mCpu.mEpc = if flag then m.mCpu.mPc - 4 else m.mCpu.mPc)
    (hcause : m'.mCpu.mCause.getLsbD 31 = flag) :
    ExceptionPcLaw inDelaySlot m m' ↔ (flag = true ↔ inDelaySlot) := by
  constructor
  · intro h
    by_cases hs : inDelaySlot
    · exact iff_of_true (hcause.symm.trans (h.delaySlot hs).2) hs
    · exact iff_of_false (by rw [← hcause, (h.otherwise hs).2]; decide) hs
  · intro h
    constructor
    · intro hs
      rw [h.mpr hs] at hepc hcause
      exact ⟨hepc, hcause⟩
    · intro hs
      have hf : flag = false := Bool.eq_false_iff.mpr fun hf => hs (h.mp hf)
      rw [hf] at hepc hcause
      exact ⟨hepc, hcause⟩

theorem exception_delayBit (c : Control) (cause : Exception) :
    (c.exception cause).mCause.getLsbD 31 = c.mDelaySlot := by
  rw [Control.exception_mCause]
  cases c.mDelaySlot <;> cases cause <;> rfl

theorem epc_after {m : Machine} {op : Op} {e : Effect} (hs : e.Shape op) (hr : e.raise ≠ none)
    (bus : Bus) :
    (m.after e bus).mCpu.mEpc = (if m.mCpu.mBranch then m.mCpu.mPc - 4 else m.mCpu.mPc) ∧
      (m.after e bus).mCpu.mCause.getLsbD 31 = m.mCpu.mBranch := by
  cases hs with
  | raise cause => exact ⟨Control.exception_mEpc _ _, exception_delayBit _ _⟩
  | overflow => exact ⟨Control.exception_mEpc _ _, exception_delayBit _ _⟩
  | _ => exact absurd rfl hr

theorem epc_faulted (m : Machine) :
    m.faulted.mCpu.mEpc = (if m.mCpu.mDelaySlot then m.mCpu.mPc - 4 else m.mCpu.mPc) ∧
      m.faulted.mCpu.mCause.getLsbD 31 = m.mCpu.mDelaySlot :=
  ⟨Control.exception_mEpc _ _, exception_delayBit _ _⟩

/-! ## The branch flags along a run -/

theorem aligned_add_four {x : Word} (h : x % 4 = 0) : (x + 4) % 4 = 0 := by
  apply BitVec.eq_of_toNat_eq
  have hx : x.toNat % 4 = 0 := congrArg BitVec.toNat h
  change (x.toNat + 4) % 2 ^ 32 % 4 = 0
  omega

theorem handler_aligned (c : Control) (cause : Exception) : (c.exception cause).mPc % 4 = 0 := by
  rw [Control.exception_mPc]
  split <;> decide

theorem takesBranch_of_executed {m m' : Machine} {instruction : Word} {e : Effect}
    (hx : m.Executed instruction e m') : m.takesBranch = e.jump.isSome := by
  rw [takesBranch, hx.aligned, hx.fetched, effectOf_jump hx.effectOf]
  exact transferTarget_isSome ..

/-- An exception leaves an aligned program counter. -/
theorem raise_eq_none_of_misaligned {m : Machine} {op : Op} {e : Effect} {bus : Bus}
    (hs : e.Shape op) (h : (m.after e bus).mCpu.mPc % 4 ≠ 0) : e.raise = none := by
  cases hs with
  | raise cause => exact absurd (handler_aligned m.mCpu.toControl.advance cause) h
  | overflow => exact absurd (handler_aligned m.mCpu.toControl.advance .overflow) h
  | _ => rfl

/-- **Step lemma.** -/
theorem flags_next {m m' : Machine} (hm : m.mCpu.Settled) (h : m.Next m') :
    (m'.mCpu.mCurrentPc % 4 = 0 ∧ m'.mCpu.mBranch = m.takesBranch ∧
        (m'.mCpu.mPc % 4 ≠ 0 → m'.mCpu.mDelaySlot = true)) ∨
      (m'.mCpu.mCurrentPc % 4 ≠ 0 ∧ m.takesBranch = false ∧ m'.mCpu.mPc % 4 = 0) := by
  rcases next_iff.mp h with ⟨hpc, rfl⟩ | ⟨instruction, e, hx⟩
  · have hcur : m.faulted.mCpu.mCurrentPc = m.mCpu.mPc := (Control.exception_frame _ _).2.2.1
    refine .inr ⟨hcur ▸ hpc, ?_, handler_aligned _ _⟩
    rw [takesBranch, beq_eq_false_iff_ne.mpr hpc, Bool.false_and]
  · obtain ⟨hcur, hbranch, hslot⟩ := flags_after m e m'.mBus
    rw [← hx.after] at hcur hbranch hslot
    refine .inl ⟨hcur ▸ hx.aligned, hbranch.trans (takesBranch_of_executed hx).symm, fun hpc => ?_⟩
    have hno : e.raise = none :=
      raise_eq_none_of_misaligned (effect_shape hx.effectOf) (hx.after ▸ hpc)
    have hnext : m'.mCpu.mPc = m.mCpu.mNextPc := by
      rw [hx.after]
      exact (pcs_after m m'.mBus hno).1
    rw [hslot]
    by_contra hb
    rw [hnext, hm.sequential (Bool.eq_false_iff.mpr hb)] at hpc
    exact hpc (aligned_add_four hx.aligned)

/-- **Run lemma.**  After an executed instruction `mBranch` says whether the next one is in a
delay slot; after a fetch fault it says nothing. -/
theorem flags_of_isRun {bios : Bios} {n : Nat} {s : Nat → Machine}
    (h : IsRun Next (reset bios) n s) {k : Nat} (hk : k ≤ n) :
    ((s k).mCpu.mCurrentPc % 4 = 0 ∧ ((s k).mCpu.mBranch = true ↔ InDelaySlot s k) ∧
        ((s k).mCpu.mPc % 4 ≠ 0 → (s k).mCpu.mDelaySlot = true)) ∨
      ((s k).mCpu.mCurrentPc % 4 ≠ 0 ∧ ¬ InDelaySlot s k ∧ (s k).mCpu.mPc % 4 = 0) := by
  cases k with
  | zero =>
    rw [h.start]
    have hpc : (reset bios).mCpu.mPc % 4 = 0 := show (0xbfc00000 : Word) % 4 = 0 by decide
    exact .inl ⟨rfl, iff_of_false Bool.false_ne_true id, fun hne => absurd hpc hne⟩
  | succ j =>
    have hm := settled_of_reachable (h.reachable (i := j) (by omega))
    rcases flags_next hm (h.next j hk) with ⟨hcur, hbranch, hslot⟩ | ⟨hcur, hbranch, hpc⟩
    · exact .inl ⟨hcur, Bool.eq_iff_iff.mp hbranch, hslot⟩
    · exact .inr ⟨hcur, Bool.eq_false_iff.mp hbranch, hpc⟩

/-- A misaligned program counter comes after an executed instruction, and `mBranch` is that of
the instruction. -/
theorem branch_of_misaligned {bios : Bios} {n : Nat} {s : Nat → Machine}
    (h : IsRun Next (reset bios) n s) {k : Nat} (hk : k ≤ n) (hpc : (s k).mCpu.mPc % 4 ≠ 0) :
    (s k).mCpu.mBranch = true ↔ InDelaySlot s k := by
  rcases flags_of_isRun h hk with ⟨-, hbranch, -⟩ | ⟨-, -, haligned⟩
  · exact hbranch
  · exact absurd haligned hpc

/-- **The condition on the flags** is one on the branches that the run took. -/
theorem flagsCurrent_iff {bios : Bios} {n : Nat} {s : Nat → Machine}
    (h : IsRun Next (reset bios) n s) {k : Nat} (hk : k ≤ n) :
    (s k).FlagsCurrent ↔ BranchesCurrent s k := by
  unfold FlagsCurrent BranchesCurrent
  by_cases hpc : (s k).mCpu.mPc % 4 ≠ 0
  · rw [if_pos hpc, if_pos hpc]
    exact branch_of_misaligned h hk hpc
  · rw [if_neg hpc, if_neg hpc]
    cases k with
    | zero =>
      have hcur : (reset bios).mCpu.mCurrentPc % 4 = 0 := show (0 : Word) % 4 = 0 by decide
      rw [h.start]
      exact iff_of_true (fun hbad => hbad.1 hcur) fun j hj => absurd hj (Nat.succ_ne_zero j).symm
    | succ j =>
      have hlast : (∀ i, j + 1 = i + 1 → ¬ ((s i).mCpu.mPc % 4 ≠ 0 ∧ InDelaySlot s i)) ↔
          ¬ ((s j).mCpu.mPc % 4 ≠ 0 ∧ InDelaySlot s j) :=
        ⟨fun hall => hall j rfl, fun hj i hi => Nat.succ.inj hi ▸ hj⟩
      rw [hlast, not_iff_not]
      rcases next_iff.mp (h.next j hk) with ⟨hfetch, hfault⟩ | ⟨instruction, e, hx⟩
      · obtain ⟨hbranch, -, hcur, -⟩ := Control.exception_frame
          { (s j).mCpu.toControl with mCurrentPc := (s j).mCpu.mPc } .loadAddressError
        have hkept : (s (j + 1)).mCpu.mBranch = (s j).mCpu.mBranch := hfault ▸ hbranch
        have hpc' : (s (j + 1)).mCpu.mCurrentPc = (s j).mCpu.mPc := hfault ▸ hcur
        rw [hkept, hpc', branch_of_misaligned h (by omega) hfetch]
      · have hcur : (s (j + 1)).mCpu.mCurrentPc = (s j).mCpu.mPc := by
          rw [hx.after]
          exact (flags_after _ _ _).1
        rw [hcur]
        exact iff_of_false (fun hbad => hbad.1 hx.aligned) fun hbad => hbad.1 hx.aligned

/-- **EPC law.**  A step of a run that enters an exception records the documented EPC and
branch delay bit exactly when the branch flags are current. -/
theorem exceptionPcLaw_run (bios : Bios) (n : Nat) (s : Nat → Machine)
    (h : IsRun Next (reset bios) n s) (k : Nat) (hk : k < n)
    (hraised : (s (k + 1)).mCpu.raised ≠ (s k).mCpu.raised) :
    ExceptionPcLaw (InDelaySlot s k) (s k) (s (k + 1)) ↔ (s k).FlagsCurrent := by
  have hflags := flags_of_isRun h (k := k) (by omega)
  unfold FlagsCurrent
  rcases next_iff.mp (h.next k hk) with ⟨hpc, hfault⟩ | ⟨instruction, e, hx⟩
  · obtain ⟨hepc, hcause⟩ := epc_faulted (s k)
    rw [hfault, exceptionPcLaw_iff hepc hcause, if_pos hpc]
    rcases hflags with ⟨-, hbranch, hslot⟩ | ⟨-, -, haligned⟩
    · rw [hslot hpc, hbranch, eq_self, true_iff]
    · exact absurd haligned hpc
  · have hr : e.raise ≠ none := by
      intro hno
      rw [hx.after, raised_after, hno] at hraised
      exact hraised (List.append_nil _)
    obtain ⟨hepc, hcause⟩ := epc_after (effect_shape hx.effectOf) hr (s (k + 1)).mBus
    rw [← hx.after] at hepc hcause
    rw [exceptionPcLaw_iff hepc hcause, if_neg (not_not.mpr hx.aligned)]
    rcases hflags with ⟨hcur, hbranch, -⟩ | ⟨hcur, hslot, -⟩
    · exact iff_of_true hbranch fun hbad => hbad.1 hcur
    · rw [iff_false_right hslot]
      exact ⟨fun hb hbad => hb hbad.2, fun hgood hb => hgood ⟨hcur, hb⟩⟩

/-- `syscall` in the delay slot of a jump. -/
theorem exceptionPcLaw_syscall :
    ∃ s, IsRun Next (reset (.ofWords [0x0bf00004, 0x0000000c])) 2 s ∧
      ExceptionPcLaw (InDelaySlot s 1) (s 1) (s 2) := by
  have hrun : okAnd ((reset (.ofWords [0x0bf00004, 0x0000000c])).run 0 2)
      (fun m => m.mCpu.raised == [.sysCall]) = true := by decide +kernel
  have hmid : okAnd ((reset (.ofWords [0x0bf00004, 0x0000000c])).run 0 1)
      (fun m => m.mCpu.raised == [] && m.mCpu.mPc % 4 == 0 && m.mCpu.mCurrentPc % 4 == 0) = true := by
    decide +kernel
  obtain ⟨m, hm, -⟩ := exists_of_okAnd hrun
  obtain ⟨s, hs, hstates⟩ := exists_isRun hm
  rw [hstates 1 (by decide), okAnd_ok, Bool.and_eq_true, Bool.and_eq_true, beq_iff_eq, beq_iff_eq,
    beq_iff_eq] at hmid
  rw [hstates 2 (by decide), okAnd_ok, beq_iff_eq] at hrun
  obtain ⟨⟨hquiet, hpc⟩, hcur⟩ := hmid
  refine ⟨s, hs, (exceptionPcLaw_run _ 2 s hs 1 (by decide) ?_).mpr ?_⟩
  · rw [hrun, hquiet]
    decide
  · rw [FlagsCurrent, if_neg (not_not.mpr hpc)]
    exact fun hbad => hbad.1 hcur

/-- After `ori r1, r0, 1; jr r1; nop` the fetch from address 1 faults.  The delay slot has
already run, but EPC is 1 - 4. -/
theorem not_forall_exceptionPcLaw :
    ¬ ∀ bios n s, IsRun Next (reset bios) n s → ∀ k < n,
      (s (k + 1)).mCpu.raised ≠ (s k).mCpu.raised →
        ExceptionPcLaw (InDelaySlot s k) (s k) (s (k + 1)) := by
  intro h
  have hslot : okAnd ((reset (.ofWords [0x34010001, 0x00200008])).run 0 2)
      (fun m => !m.takesBranch) = true := by decide +kernel
  have hfetch : okAnd ((reset (.ofWords [0x34010001, 0x00200008])).run 0 3)
      (fun m => m.mCpu.raised == [] && m.mCpu.mPc == 1) = true := by decide +kernel
  have hfault : okAnd ((reset (.ofWords [0x34010001, 0x00200008])).run 0 4)
      (fun m => m.mCpu.raised == [.loadAddressError] && m.mCpu.mEpc == -3) = true := by
    decide +kernel
  obtain ⟨m, hm, -⟩ := exists_of_okAnd hfault
  obtain ⟨s, hs, hstates⟩ := exists_isRun hm
  rw [hstates 2 (by decide), okAnd_ok, Bool.not_eq_true'] at hslot
  rw [hstates 3 (by decide), okAnd_ok, Bool.and_eq_true, beq_iff_eq, beq_iff_eq] at hfetch
  rw [hstates 4 (by decide), okAnd_ok, Bool.and_eq_true, beq_iff_eq, beq_iff_eq] at hfault
  have hraised : (s 4).mCpu.raised ≠ (s 3).mCpu.raised := by
    rw [hfault.1, hfetch.1]
    decide
  have hlaw := (h _ 4 s hs 3 (by decide) hraised).otherwise (Bool.eq_false_iff.mp hslot)
  rw [hfault.2, hfetch.2] at hlaw
  exact absurd hlaw.1 (by decide)

end Machine

end CppStation
