import CppStation.Cpu.MemoryAccess

/-!
# Alignment faults

LHU, SW and SH test the alignment of their address before they access the bus.
LW and LH do not: at a misaligned address they read.
-/

namespace CppStation

open Fallible Instruction

/-- The loads and stores whose address is to be a multiple of their width. -/
inductive AlignedAccess
  | lw | lh | lhu | sw | sh
  deriving DecidableEq, Repr

namespace AlignedAccess

def op : AlignedAccess → Op
  | lw => .opLw
  | lh => .opLh
  | lhu => .opLhu
  | sw => .opSw
  | sh => .opSh

def width : AlignedAccess → Nat
  | lw | sw => 4
  | lh | lhu | sh => 2

def cause : AlignedAccess → Exception
  | lw | lh | lhu => .loadAddressError
  | sw | sh => .storeAddressError

/-- The opcode method tests the address. -/
def Checked : AlignedAccess → Prop
  | lw | lh => False
  | lhu | sw | sh => True

end AlignedAccess

namespace Machine

/-- The instruction returns, having raised `cause`. -/
def Raises (m : Machine) (instruction : Word) (cause : Exception) : Prop :=
  ∃ fuel m', m.execute fuel instruction = .ok m' ∧
    m'.mCpu.raised = m.mCpu.raised ++ [cause]

/-- The instruction raises `cause` without a bus access and without a load: with any bus in the
place of the machine's, it does the same and leaves that bus as it is. -/
def FaultsOnly (m : Machine) (instruction : Word) (cause : Exception) : Prop :=
  ∃ c : Cpu, (∀ fuel b, ({ m with mBus := b } : Machine).execute fuel instruction = .ok ⟨c, b⟩) ∧
    c.raised = m.mCpu.raised ++ [cause] ∧ c.mLoadRegIdx = ⟨0⟩ ∧ c.mLoadReg = 0

/-- What is to hold of the access `k`. -/
structure ChecksAlignment (m : Machine) (instruction : Word) (k : AlignedAccess) : Prop where
  raises_iff : m.Raises instruction k.cause ↔ (m.effectiveAddr instruction).toNat % k.width ≠ 0
  faultsOnly : m.Raises instruction k.cause → m.FaultsOnly instruction k.cause

variable {m : Machine} {instruction : Word}

theorem Raises.effect {cause : Exception} (h : m.Raises instruction cause) :
    ∃ e, m.effectOf instruction = .ok e ∧ e.raise = some cause := by
  obtain ⟨fuel, m', hexec, hraised⟩ := h
  obtain ⟨e, he, -, hafter⟩ := execute_eq_ok.mp hexec
  rw [hafter, raised_after, List.append_cancel_left_eq, Option.toList_eq_singleton_iff] at hraised
  exact ⟨e, he, hraised⟩

theorem FaultsOnly.raises {cause : Exception} (h : m.FaultsOnly instruction cause) :
    m.Raises instruction cause := by
  obtain ⟨c, hexec, hraised, -, -⟩ := h
  exact ⟨0, ⟨c, m.mBus⟩, hexec 0 m.mBus, hraised⟩

/-- An effect that only raises, whatever the bus. -/
theorem faultsOnly_of_effect {cause : Exception}
    (he : ∀ b, ({ m with mBus := b } : Machine).effectOf instruction =
      .ok { raise := some cause }) : m.FaultsOnly instruction cause := by
  refine ⟨(m.after { raise := some cause } m.mBus).mCpu, fun fuel b => ?_, ?_, rfl, rfl⟩
  · exact execute_eq_ok.mpr ⟨_, he b, rfl, rfl⟩
  · exact raised_after m { raise := some cause } m.mBus

theorem not_raises_of_effect {cause : Exception}
    (he : ∀ e, m.effectOf instruction = .ok e → e.raise = none) :
    ¬ m.Raises instruction cause := by
  intro h
  obtain ⟨e, heffect, hraise⟩ := h.effect
  rw [he e heffect] at hraise
  cases hraise

/-! ## The five instructions -/

/-- A load that returns raises nothing. -/
theorem raise_of_load {w : Nat} {x : Result (BitVec w)} {f : BitVec w → Word} {e : Effect}
    (h : (x >>= fun v => loadT instruction (f v)) = .ok e) : e.raise = none := by
  obtain ⟨v, -, hv⟩ := bind_eq_ok.mp h
  cases hv
  rfl

/-- At a misaligned address the tested accesses only raise. -/
theorem effectOf_misaligned {k : AlignedAccess} (hiso : m.mCpu.cacheIsolated = false)
    (hop : decode instruction = k.op) (hk : k.Checked)
    (hmod : (m.effectiveAddr instruction).toNat % k.width ≠ 0) :
    m.effectOf instruction = .ok { raise := some k.cause } := by
  cases k with
  | lw => exact hk.elim
  | lh => exact hk.elim
  | lhu =>
    rw [effectOf_lhu hop]
    exact if_neg fun h => hmod ((mod_two_iff _).mp h)
  | sw =>
    rw [effectOf_sw hop, hiso, if_neg Bool.false_ne_true]
    exact if_neg fun h => hmod ((mod_four_iff _).mp h)
  | sh =>
    rw [effectOf_sh hop]
    exact if_neg fun h => hmod ((mod_two_iff _).mp h)

/-- Otherwise they raise nothing, and the others never do. -/
theorem raise_effectOf {k : AlignedAccess} {e : Effect} (hiso : m.mCpu.cacheIsolated = false)
    (hop : decode instruction = k.op)
    (hk : k.Checked → (m.effectiveAddr instruction).toNat % k.width = 0)
    (he : m.effectOf instruction = .ok e) : e.raise = none := by
  cases k with
  | lw =>
    rw [effectOf_lw hop, hiso, if_neg Bool.false_ne_true] at he
    exact raise_of_load (f := fun v => v) he
  | lh =>
    rw [effectOf_lh hop] at he
    exact raise_of_load he
  | lhu =>
    rw [effectOf_lhu hop, if_pos ((mod_two_iff _).mpr (hk trivial))] at he
    exact raise_of_load he
  | sw =>
    rw [effectOf_sw hop, hiso, if_neg Bool.false_ne_true,
      if_pos ((mod_four_iff _).mpr (hk trivial))] at he
    cases he
    rfl
  | sh =>
    rw [effectOf_sh hop] at he
    simp only [if_pos ((mod_two_iff _).mpr (hk trivial))] at he
    cases he
    rfl

/-- **An access faults as it is to exactly when** it is one of the tested ones or its address is a
multiple of its width. -/
theorem checksAlignment_iff {k : AlignedAccess} (hiso : m.mCpu.cacheIsolated = false)
    (hop : decode instruction = k.op) :
    m.ChecksAlignment instruction k ↔
      k.Checked ∨ (m.effectiveAddr instruction).toNat % k.width = 0 := by
  have hquiet : (k.Checked → (m.effectiveAddr instruction).toNat % k.width = 0) →
      ¬ m.Raises instruction k.cause := fun hk =>
    not_raises_of_effect fun e he => raise_effectOf hiso hop hk he
  constructor
  · intro h
    by_cases hk : k.Checked
    · exact .inl hk
    · refine .inr (not_not.mp fun hmod => ?_)
      exact hquiet (fun hchecked => absurd hchecked hk) (h.raises_iff.mpr hmod)
  · intro h
    by_cases hmod : (m.effectiveAddr instruction).toNat % k.width = 0
    · have hnot := hquiet fun _ => hmod
      exact ⟨⟨fun hraises => absurd hraises hnot, fun hne => absurd hmod hne⟩,
        fun hraises => absurd hraises hnot⟩
    · have hk : k.Checked := h.resolve_right hmod
      have hfaults : m.FaultsOnly instruction k.cause :=
        faultsOnly_of_effect fun b => effectOf_misaligned (m := { m with mBus := b }) hiso hop hk hmod
      exact ⟨⟨fun _ => hmod, fun _ => hfaults.raises⟩, fun _ => hfaults⟩

/-- SH at the address 1. -/
theorem checksAlignment_sh :
    (reset (.ofWords [])).ChecksAlignment 0xa4000001 .sh :=
  (checksAlignment_iff (by decide) (by decide)).mpr (.inl trivial)

/-- LW at the address 1 loads a word. -/
theorem not_forall_checksAlignment :
    ¬ ∀ (m : Machine) (instruction : Word) (k : AlignedAccess), m.mCpu.cacheIsolated = false →
      decode instruction = k.op → m.ChecksAlignment instruction k := by
  intro h
  have hlw := h (reset (.ofWords [])) 0x8c000001 .lw (by decide) (by decide)
  rcases (checksAlignment_iff (by decide) (by decide)).mp hlw with hk | hmod
  · exact hk
  · exact absurd hmod (by decide)

end Machine

end CppStation
