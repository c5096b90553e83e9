import CppStation.Cpu.Run
import Mathlib.Data.Set.Basic

/-!
# Dead registers

Two machines that differ in some registers run in lockstep as long as no
instruction reads one of them.  A register stops to differ when it is written
or a pending load to it is committed.  This is what a debugger or an optimiser
relies on when it changes a register that is not live.
-/

namespace CppStation

open Instruction Fallible

/-! ## The registers that an instruction reads -/

/-- The registers that an opcode method reads as operands.  LWL and LWR also merge with the
output register in `t`. -/
def Op.sources (op : Op) (instruction : Word) : List (Fin 32) :=
  let rs := (s instruction).slot
  let rt := (t instruction).slot
  match op with
  | .opSll | .opSrl | .opSra => [rt]
  | .opSllv | .opSrlv | .opSrav | .opOr | .opAnd | .opXor | .opNor | .opAddu | .opSubu | .opAdd
  | .opSub | .opSlt | .opSltu | .opDiv | .opDivu | .opMult | .opMultu | .opBeq | .opBne
  | .opLwl | .opLwr | .opSw | .opSh | .opSb | .opSwl | .opSwr => [rs, rt]
  | .opOri | .opAndi | .opXori | .opAddi | .opAddiu | .opSlti | .opSltiu | .opMthi | .opMtlo
  | .opJr | .opJalr | .opBlez | .opBgtz | .opBxx | .opLw | .opLb | .opLbu | .opLh | .opLhu => [rs]
  | .opCop0 => if (copOpcode instruction).toNat = 0b00100 then [rt] else []
  | _ => []

theorem cop0Effect_congr {c : Control} {instruction rt rt' : Word}
    (h : (copOpcode instruction).toNat = 0b00100 → rt = rt') :
    cop0Effect c instruction rt = cop0Effect c instruction rt' := by
  unfold cop0Effect
  split
  · rfl
  · next hop => rw [h hop]
  · rfl
  · rfl

/-- **Congruence**: an effect depends on no other register. -/
theorem effect_congr {op : Op} {instruction : Word} {file file' merged merged' : Fin 32 → Word}
    (c : Control) (b : Bus) (hfile : ∀ i ∈ op.sources instruction, file i = file' i)
    (hmerged : ∀ i ∈ op.sources instruction, merged i = merged' i) :
    effect op instruction file merged c b = effect op instruction file' merged' c b := by
  cases op
  case opSll | opSrl | opSra =>
    have ht := hfile _ (List.mem_singleton.mpr rfl)
    simp only [effect, ht]
  case opOri | opAndi | opXori | opAddi | opAddiu | opSlti | opSltiu | opMthi | opMtlo | opJr
      | opJalr | opBlez | opBgtz | opBxx | opLw | opLb | opLbu | opLh | opLhu =>
    have hs := hfile _ (List.mem_singleton.mpr rfl)
    simp only [effect, hs]
  case opCop0 =>
    refine cop0Effect_congr fun hop => hfile _ ?_
    simp only [Op.sources, if_pos hop, List.mem_singleton]
  case opLwl | opLwr =>
    have hs := hfile _ List.mem_cons_self
    have ht := hmerged _ (List.mem_cons_of_mem _ List.mem_cons_self)
    simp only [effect, hs, ht]
  case opSllv | opSrlv | opSrav | opOr | opAnd | opXor | opNor | opAddu | opSubu | opAdd
      | opSub | opSlt | opSltu | opDiv | opDivu | opMult | opMultu | opBeq | opBne
      | opSw | opSh | opSb | opSwl | opSwr =>
    have hs := hfile _ List.mem_cons_self
    have ht := hfile _ (List.mem_cons_of_mem _ List.mem_cons_self)
    simp only [effect, hs, ht]
  all_goals rfl

namespace Machine

/-! ## One step -/

/-- The machines differ at most in the registers of `D`. -/
structure AgreeOutside (D : Set (Fin 32)) (m m' : Machine) : Prop where
  control : m'.mCpu.toControl = m.mCpu.toControl
  loadRegIdx : m'.mCpu.mLoadRegIdx = m.mCpu.mLoadRegIdx
  loadReg : m'.mCpu.mLoadReg = m.mCpu.mLoadReg
  bus : m'.mBus = m.mBus
  regs : ∀ i ∉ D, m'.mCpu.mRegs i = m.mCpu.mRegs i
  outRegs : ∀ i ∉ D, m'.mCpu.mOutRegs i = m.mCpu.mOutRegs i

/-- The next step fetches an instruction that reads the register `r`. -/
def Reads (m : Machine) (r : Fin 32) : Prop :=
  m.mCpu.mPc % 4 = 0 ∧
    ∃ w, m.mBus.load32 m.mCpu.mPc = .ok w ∧ r ∈ (decode w).sources w

/-- The next step commits a load to the register `r` or executes an instruction that writes it. -/
def Overwrites (m : Machine) (r : Fin 32) : Prop :=
  m.mCpu.mPc % 4 = 0 ∧ (m.mCpu.mLoadRegIdx.slot = r ∨
    ∃ w e p, m.mBus.load32 m.mCpu.mPc = .ok w ∧ m.effectOf w = .ok e ∧ e.write = some p ∧
      p.1.slot = r)

/-- The registers of `D` that the next step leaves different. -/
def stillDead (m : Machine) (D : Set (Fin 32)) : Set (Fin 32) := {r ∈ D | ¬ m.Overwrites r}

section

variable {D : Set (Fin 32)} {m m' : Machine}

theorem AgreeOutside.committed (h : AgreeOutside D m m') {i : Fin 32}
    (hi : i ∉ D ∨ m.mCpu.mLoadRegIdx.slot = i) : m'.mCpu.committed i = m.mCpu.committed i := by
  simp only [Cpu.committed, Function.update_apply, h.loadRegIdx, h.loadReg]
  by_cases hzero : i = 0
  · rw [if_pos hzero, if_pos hzero]
  rw [if_neg hzero, if_neg hzero]
  by_cases hload : i = m.mCpu.mLoadRegIdx.slot
  · rw [if_pos hload, if_pos hload]
  · rw [if_neg hload, if_neg hload]
    exact h.outRegs i (hi.resolve_right fun heq => hload heq.symm)

theorem Effect.file_congr (e : Effect) {f f' : Fin 32 → Word} {i : Fin 32}
    (h : f' i = f i ∨ ∃ p, e.write = some p ∧ p.1.slot = i) : e.file f' i = e.file f i := by
  unfold Effect.file
  cases hwrite : e.write with
  | none =>
    rw [hwrite] at h
    refine h.resolve_right ?_
    rintro ⟨p, hp, -⟩
    cases hp
  | some p =>
    simp only [Function.update_apply]
    by_cases hzero : i = 0
    · rw [if_pos hzero, if_pos hzero]
    rw [if_neg hzero, if_neg hzero]
    by_cases hslot : i = p.1.slot
    · rw [if_pos hslot, if_pos hslot]
    · rw [if_neg hslot, if_neg hslot]
      refine h.resolve_right ?_
      rintro ⟨q, hq, hqi⟩
      rw [hwrite] at hq
      cases hq
      exact hslot hqi.symm

/-- The same instruction has the same effect. -/
theorem AgreeOutside.effectOf (h : AgreeOutside D m m') {w : Word}
    (hreads : ∀ r ∈ (decode w).sources w, r ∉ D) : m'.effectOf w = m.effectOf w := by
  unfold Machine.effectOf
  rw [h.control, h.bus]
  exact effect_congr _ _ (fun i hi => h.regs i (hreads i hi))
    (fun i hi => h.committed (.inl (hreads i hi)))

theorem AgreeOutside.faulted (h : AgreeOutside D m m') : AgreeOutside D m.faulted m'.faulted := by
  refine ⟨?_, h.loadRegIdx, h.loadReg, h.bus, h.regs, h.outRegs⟩
  simp only [Machine.faulted, h.control]

theorem AgreeOutside.after (h : AgreeOutside D m m') {D' : Set (Fin 32)} (e : Effect) (bus : Bus)
    (hD' : ∀ i ∉ D', (i ∉ D ∨ m.mCpu.mLoadRegIdx.slot = i) ∨
      ∃ p, e.write = some p ∧ p.1.slot = i) :
    AgreeOutside D' (m.after e bus) (m'.after e bus) := by
  have hfile : ∀ i ∉ D', e.file m'.mCpu.committed i = e.file m.mCpu.committed i := fun i hi =>
    Effect.file_congr e ((hD' i hi).imp_left h.committed)
  refine ⟨?_, rfl, rfl, rfl, hfile, hfile⟩
  simp only [Machine.after, h.control]

/-- **Step lemma.** -/
theorem AgreeOutside.next {m₁ : Machine} (h : AgreeOutside D m m') (hm : m.Next m₁)
    (hreads : ∀ r, m.Reads r → r ∉ D) :
    ∃ m₁', m'.Next m₁' ∧ AgreeOutside (m.stillDead D) m₁ m₁' := by
  have hpc : m'.mCpu.mPc = m.mCpu.mPc := congrArg Control.mPc h.control
  rcases next_iff.mp hm with ⟨hfault, rfl⟩ | ⟨w, e, hx⟩
  · refine ⟨m'.faulted, next_iff.mpr (.inl ⟨hpc ▸ hfault, rfl⟩), ?_⟩
    have hsame : m.stillDead D = D :=
      Set.sep_eq_self_iff_mem_true.mpr fun r _ hover => hfault hover.1
    rw [hsame]
    exact h.faulted
  · have hsources : ∀ r ∈ (decode w).sources w, r ∉ D := fun r hr =>
      hreads r ⟨hx.aligned, w, hx.fetched, hr⟩
    have heffect : m'.effectOf w = .ok e := (h.effectOf hsources).trans hx.effectOf
    have hexecuted : m'.Executed w e (m'.after e m₁.mBus) :=
      ⟨hpc ▸ hx.aligned, by rw [h.bus, hpc, hx.fetched], heffect, h.bus ▸ hx.bus, rfl⟩
    refine ⟨_, next_iff.mpr (.inr ⟨w, e, hexecuted⟩), ?_⟩
    rw [hx.after]
    refine h.after e m₁.mBus fun i hi => ?_
    by_cases hD : i ∈ D
    · have hover : m.Overwrites i := by
        by_contra hno
        exact hi ⟨hD, hno⟩
      rcases hover.2 with hload | ⟨w', e', p, hfetched, heffectOf, hwrite, hslot⟩
      · exact .inl (.inr hload)
      · obtain rfl := Except.ok.inj (hx.fetched.symm.trans hfetched)
        obtain rfl := Except.ok.inj (hx.effectOf.symm.trans heffectOf)
        exact .inr ⟨p, hwrite, hslot⟩
    · exact .inl (.inl hD)

/-! ## Runs -/

/-- The registers of `D` that differ before step `i` of a run. -/
def deadAt (s : Nat → Machine) (D : Set (Fin 32)) : Nat → Set (Fin 32)
  | 0 => D
  | i + 1 => (s i).stillDead (deadAt s D i)

/-- Machines that differ nowhere are the same. -/
theorem AgreeOutside.eq (h : AgreeOutside ∅ m m') : m' = m := by
  obtain ⟨⟨control, regs, outRegs, idx, load⟩, bus⟩ := m
  obtain ⟨⟨control', regs', outRegs', idx', load'⟩, bus'⟩ := m'
  obtain ⟨hcontrol, hidx, hload, hbus, hregs, hout⟩ := h
  simp only at hcontrol hidx hload hbus hregs hout
  rw [hcontrol, hidx, hload, hbus, funext fun i => hregs i (Set.notMem_empty i),
    funext fun i => hout i (Set.notMem_empty i)]

end

/-- **Dead registers do not matter.**  If no step of a run reads a register that still differs,
then a machine that differs in dead registers only has a run that agrees with it step by step
outside of them, and is the same machine as soon as all of them have been overwritten. -/
theorem dead_registers {m m' : Machine} {n : Nat} {s : Nat → Machine} {D : Set (Fin 32)}
    (h : Transition.IsRun Next m n s) (hagree : AgreeOutside D m m')
    (hdead : ∀ i < n, ∀ r, (s i).Reads r → r ∉ deadAt s D i) :
    ∃ s', Transition.IsRun Next m' n s' ∧
      ∀ i ≤ n, AgreeOutside (deadAt s D i) (s i) (s' i) ∧ (deadAt s D i = ∅ → s' i = s i) := by
  obtain ⟨s', hs', hall⟩ := h.lockstep (R := fun i m m' => AgreeOutside (deadAt s D i) m m') hagree
    fun i hi m' hm' => hm'.next (h.next i hi) (hdead i hi)
  refine ⟨s', hs', fun i hi => ⟨hall i hi, fun hempty => ?_⟩⟩
  have hsame := hall i hi
  rw [hempty] at hsame
  exact hsame.eq

/-- `lui r8, 0x1234` overwrites `r8`. -/
theorem dead_registers_lui :
    ∃ m m' m₁ : Machine, m.mCpu.mRegs 8 ≠ m'.mCpu.mRegs 8 ∧ m.Next m₁ ∧ m'.Next m₁ := by
  let m : Machine := reset (.ofWords [0x3c081234])
  let clear : (Fin 32 → Word) → Fin 32 → Word := fun f => Function.update f 8 0
  let m' : Machine := ⟨{ m.mCpu with
    mRegs := clear m.mCpu.mRegs
    mOutRegs := clear m.mCpu.mOutRegs }, m.mBus⟩
  have hrun : okAnd (m.run 0 1) (fun _ => true) = true := by decide +kernel
  obtain ⟨m₁, hm₁, -⟩ := exists_of_okAnd hrun
  obtain ⟨s, hs, hstate⟩ := exists_isRun hm₁
  have hfetch : m.mBus.load32 m.mCpu.mPc = .ok 0x3c081234 := by decide +kernel
  have hagree : AgreeOutside {8} m m' := by
    refine ⟨rfl, rfl, rfl, rfl, fun i hi => ?_, fun i hi => ?_⟩
    · exact Function.update_of_ne hi _ _
    · exact Function.update_of_ne hi _ _
  have hreads : ∀ i < 1, ∀ r, (s i).Reads r → r ∉ deadAt s {8} i := by
    rintro i hi r ⟨-, w, hw, hr⟩
    obtain rfl : i = 0 := by omega
    rw [hs.start] at hw
    obtain rfl := Except.ok.inj (hfetch.symm.trans hw)
    rw [show (decode 0x3c081234).sources 0x3c081234 = [] by decide] at hr
    exact absurd hr List.not_mem_nil
  obtain ⟨s', hs', hall⟩ := dead_registers hs hagree hreads
  have hover : (s 0).Overwrites 8 := by
    rw [hs.start]
    exact ⟨by decide, .inr ⟨_, _, _, hfetch, rfl, rfl, by decide⟩⟩
  have hdead : deadAt s {8} 1 = ∅ := by
    refine Set.eq_empty_of_forall_notMem fun r ⟨hr, hno⟩ => hno ?_
    rw [Set.mem_singleton_iff.mp hr]
    exact hover
  have hnext := hs.next 0 (by decide)
  have hnext' := hs'.next 0 (by decide)
  rw [hs.start] at hnext
  rw [hs'.start, (hall 1 (Nat.le_refl 1)).2 hdead] at hnext'
  exact ⟨m, m', s 1, by decide, hnext, hnext'⟩

end Machine

end CppStation
