import CppStation.Cpu.Run

/-!
# Precise exceptions

An instruction that raises an exception has no effect but the exception, save
that ADD and ADDI go on to write the wrapped sum.
-/

namespace CppStation

open Instruction Fallible

namespace Machine

/-- Nothing but the pending load has taken effect between `m` and `m'`, the control state
apart. -/
structure OnlyPendingLoad (m m' : Machine) : Prop where
  regs : ∀ i, m'.mCpu.mRegs i = m.mCpu.withPendingLoad i
  hi : m'.mCpu.mHi = m.mCpu.mHi
  lo : m'.mCpu.mLo = m.mCpu.mLo
  noLoad : m'.mCpu.mLoadRegIdx.val = 0
  ram : m'.mBus.mRam = m.mBus.mRam
  dma : m'.mBus.mDma = m.mBus.mDma
  gpu : m'.mBus.mGpu = m.mBus.mGpu

/-- If the instruction raises an exception then it has no other effect. -/
def PreciseStep (m : Machine) (instruction : Word) : Prop :=
  ∀ fuel m', m.execute fuel instruction = .ok m' →
    m'.mCpu.raised ≠ m.mCpu.raised → m.OnlyPendingLoad m'

/-- The destination and the wrapped sum of an ADD or ADDI that overflows. -/
def overflowingSum (m : Machine) (instruction : Word) : Option (RegisterIndex × Word) :=
  let rs := m.mCpu.reg (s instruction)
  let rt := m.mCpu.reg (t instruction)
  let i := immSe instruction
  match decode instruction with
  | .opAdd => if addOverflow rs rt (rs + rt) then some (d instruction, rs + rt) else none
  | .opAddi => if addOverflow rs i (rs + i) then some (t instruction, rs + i) else none
  | _ => none

/-- An overflowing ADD or ADDI whose wrapped sum differs from the value of its
destination. -/
def ClobbersOnOverflow (m : Machine) (instruction : Word) : Prop :=
  ∃ index v, m.overflowingSum instruction = some (index, v) ∧ index.slot ≠ 0 ∧
    v ≠ m.mCpu.withPendingLoad index.slot

section

variable {m : Machine} {instruction : Word}

theorem effectOf_add (hop : decode instruction = .opAdd) :
    m.effectOf instruction =
      let sum := m.mCpu.reg (s instruction) + m.mCpu.reg (t instruction)
      .ok {
        raise :=
          if addOverflow (m.mCpu.reg (s instruction)) (m.mCpu.reg (t instruction)) sum then
            some .overflow
          else none
        write := some (d instruction, sum) } :=
  effectOf_eq hop

theorem effectOf_addi (hop : decode instruction = .opAddi) :
    m.effectOf instruction =
      let sum := m.mCpu.reg (s instruction) + immSe instruction
      .ok {
        raise :=
          if addOverflow (m.mCpu.reg (s instruction)) (immSe instruction) sum then some .overflow
          else none
        write := some (t instruction, sum) } :=
  effectOf_eq hop

/-- A sum that traps on overflow raises the exception and writes `p` exactly when it is an
overflowing sum for `p`. -/
theorem sumEffect_eq_iff {overflows : Bool} {index : RegisterIndex} {sum : Word}
    {p : RegisterIndex × Word} :
    ({ raise := if overflows then some .overflow else none, write := some (index, sum) } : Effect) =
        { raise := some .overflow, write := some p } ↔
      (if overflows then some (index, sum) else none) = some p := by
  cases overflows with
  | true => simp
  | false => simp

theorem effectOf_of_overflowingSum {p : RegisterIndex × Word}
    (h : m.overflowingSum instruction = some p) :
    m.effectOf instruction = .ok { raise := some .overflow, write := some p } := by
  simp only [overflowingSum] at h
  split at h
  case h_1 hop => exact (effectOf_add hop).trans (congrArg _ (sumEffect_eq_iff.mpr h))
  case h_2 hop => exact (effectOf_addi hop).trans (congrArg _ (sumEffect_eq_iff.mpr h))
  case h_3 => cases h

theorem overflowingSum_of_effectOf {p : RegisterIndex × Word}
    (hop : decode instruction = .opAdd ∨ decode instruction = .opAddi)
    (h : m.effectOf instruction = .ok { raise := some .overflow, write := some p }) :
    m.overflowingSum instruction = some p := by
  simp only [overflowingSum]
  rcases hop with hop | hop
  · rw [effectOf_add hop] at h
    simp only [hop]
    exact sumEffect_eq_iff.mp (Except.ok.inj h)
  · rw [effectOf_addi hop] at h
    simp only [hop]
    exact sumEffect_eq_iff.mp (Except.ok.inj h)

/-- The write after the exception shows exactly when the wrapped sum is a new value. -/
theorem file_overflow_eq_iff {f : Fin 32 → Word} (hf : f 0 = 0) (index : RegisterIndex)
    (v : Word) (cause : Option Exception) :
    (∀ i, ({ raise := cause, write := some (index, v) } : Effect).file f i = f i) ↔
      ¬ (index.slot ≠ 0 ∧ v ≠ f index.slot) := by
  simp only [Effect.file, Function.update_apply]
  constructor
  · rintro h ⟨hne, hv⟩
    have hi := h index.slot
    rw [if_neg hne, if_pos rfl] at hi
    exact hv hi
  · intro h i
    by_cases hi : i = 0
    · rw [if_pos hi, hi, hf]
    · rw [if_neg hi]
      by_cases hs : i = index.slot
      · rw [if_pos hs]
        subst hs
        exact not_not.mp fun hv => h ⟨hi, hv⟩
      · rw [if_neg hs]

/-- An instruction that only raises an exception. -/
theorem onlyPendingLoad_of_raise (hc : m.mCpu.Settled) (cause : Exception) :
    m.OnlyPendingLoad (m.after { raise := some cause } m.mBus) where
  regs i := congrFun hc.committed_eq i
  hi := (Control.exception_frame m.mCpu.toControl.advance cause).2.2.2.2.1
  lo := (Control.exception_frame m.mCpu.toControl.advance cause).2.2.2.2.2
  noLoad := rfl
  ram := rfl
  dma := rfl
  gpu := rfl

/-- An ADD or ADDI that overflows. -/
theorem onlyPendingLoad_overflow_iff (hc : m.mCpu.Settled) (index : RegisterIndex) (v : Word) :
    m.OnlyPendingLoad (m.after { raise := some .overflow, write := some (index, v) } m.mBus) ↔
      ¬ (index.slot ≠ 0 ∧ v ≠ m.mCpu.withPendingLoad index.slot) := by
  rw [← hc.committed_eq, ← file_overflow_eq_iff m.mCpu.committed_zero index v (some .overflow)]
  constructor
  · intro h i
    rw [hc.committed_eq]
    exact hc.committed_eq ▸ h.regs i
  · intro h
    have hraise := onlyPendingLoad_of_raise (m := m) hc .overflow
    exact { hraise with regs := fun i => (h i).trans (congrFun hc.committed_eq i) }

end

/-- **Exceptions are precise except for ADD and ADDI.**  In a reachable state an instruction
that raises an exception has no other effect, exactly when it is not an overflowing ADD or
ADDI with a wrapped sum that differs from the value of its destination. -/
theorem preciseStep_iff (bios : Bios) (m : Machine) (h : Reachable bios m) (instruction : Word) :
    m.PreciseStep instruction ↔ ¬ m.ClobbersOnOverflow instruction := by
  have hc := settled_of_reachable h
  constructor
  · rintro hp ⟨index, v, hsum, hclobber⟩
    have he := effectOf_of_overflowingSum hsum
    have hexec : m.execute 0 instruction =
        .ok (m.after { raise := some .overflow, write := some (index, v) } m.mBus) :=
      execute_eq_ok.mpr ⟨_, he, rfl, rfl⟩
    refine (onlyPendingLoad_overflow_iff hc index v).mp (hp 0 _ hexec ?_) hclobber
    rw [raised_after]
    simp
  · intro hn fuel m' hexec hraised
    obtain ⟨e, he, hbus, hm⟩ := execute_eq_ok.mp hexec
    rw [hm, raised_after] at hraised
    rw [hm]
    cases effect_shape he with
    | raise cause =>
      rw [← Except.ok.inj hbus]
      exact onlyPendingLoad_of_raise hc cause
    | overflow index v hop =>
      rw [← Except.ok.inj hbus]
      refine (onlyPendingLoad_overflow_iff hc index v).mpr fun hclobber => hn ?_
      exact ⟨index, v, overflowingSum_of_effectOf hop he, hclobber⟩
    | _ => exact absurd (List.append_nil _) hraised

/-- SYSCALL as the first instruction. -/
theorem preciseStep_syscall : (reset (.ofWords [0x0000000c])).PreciseStep 0x0000000c := by
  refine (preciseStep_iff _ _ (Transition.Reachable.refl _ _) _).mpr ?_
  rintro ⟨index, v, h, -⟩
  cases h

/-- After `lui r1, 0x8000`, `addi r2, r1, -1` raises the overflow exception and writes
`0x7fffffff` to R2. -/
theorem not_forall_preciseStep :
    ¬ ∀ bios m, Reachable bios m → ∀ instruction, m.PreciseStep instruction := by
  intro h
  have hrun : okAnd ((reset (.ofWords [0x3c018000, 0x2022ffff])).run 0 1) (fun m =>
      okAnd (m.execute 0 0x2022ffff) fun m' =>
        m'.mCpu.raised != m.mCpu.raised &&
          m'.mCpu.mRegs 2 != m.mCpu.withPendingLoad 2) = true := by decide +kernel
  obtain ⟨m, hm, hnext⟩ := exists_of_okAnd hrun
  obtain ⟨m', hm', hbad⟩ := exists_of_okAnd hnext
  have hreach := reachable_of_run (Transition.Reachable.refl _ _) hm
  rw [Bool.and_eq_true, bne_iff_ne, bne_iff_ne] at hbad
  exact hbad.2 ((h _ m hreach 0x2022ffff 0 m' hm' hbad.1).regs 2)

end Machine

end CppStation
