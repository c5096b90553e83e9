import CppStation.Cpu.MemoryAccess
import CppStation.Cpu.Traffic
import CppStation.Memory.Domain

/-!
# Which steps return

A step stops the program when its fetch, its instruction or its store does.
Each of the three is decided by the state before the step: the address of the
fetch, the opcode with its operands, and what the bus accepts.
-/

namespace CppStation

open Fallible Instruction Map

/-! ## Instructions -/

/-- MFC0 of SR, CAUSE and EPC; MTC0 of SR, and of zero to the registers that are not emulated;
RFE. -/
def cop0Understood (instruction rt : Word) : Bool :=
  match (copOpcode instruction).toNat with
  | 0b00000 => (d instruction).val.toNat ∈ [12, 13, 14]
  | 0b00100 =>
    (d instruction).val.toNat = 12 ∨
      ((d instruction).val.toNat ∈ [3, 5, 6, 7, 9, 11, 13] ∧ rt = 0)
  | 0b10000 => subfunction instruction = 0b010000
  | _ => false

theorem cop0Read_iff (c : Control) (copR : Word) :
    (∃ v, cop0Read c copR = .ok v) ↔ copR.toNat ∈ [12, 13, 14] := by
  simp only [List.mem_cons, List.not_mem_nil, or_false]
  unfold cop0Read
  split
  case h_4 h12 h13 h14 =>
    exact ⟨fun ⟨_, h⟩ => (nomatch h), fun h => (h.elim h12 (Or.rec h13 h14)).elim⟩
  all_goals
    next heq => exact ⟨fun _ => by simp [heq], fun _ => ⟨_, rfl⟩⟩

theorem checkedWrite_iff {p : Prop} [Decidable p] {format : String} {args : List Nat} :
    (∃ e, (if ¬ p then panic format args else .ok {}) = (.ok e : Result Effect)) ↔ p := by
  by_cases hp : p
  · rw [if_neg (not_not.mpr hp)]
    exact ⟨fun _ => hp, fun _ => ⟨_, rfl⟩⟩
  · rw [if_pos hp]
    exact ⟨fun ⟨_, h⟩ => (nomatch h), fun h => absurd h hp⟩

theorem cop0Write_iff (copR v : Word) :
    (∃ e, cop0Write copR v = .ok e) ↔
      copR.toNat = 12 ∨ (copR.toNat ∈ [3, 5, 6, 7, 9, 11, 13] ∧ v = 0) := by
  simp only [List.mem_cons, List.not_mem_nil, or_false]
  unfold cop0Write
  split
  case h_7 heq => exact ⟨fun _ => .inl heq, fun _ => ⟨_, rfl⟩⟩
  case h_9 =>
    refine ⟨fun ⟨_, h⟩ => (nomatch h), fun h => ?_⟩
    grind
  all_goals
    next heq =>
      rw [checkedWrite_iff, heq]
      simp

theorem copOpcode_of_cop0Understood {instruction rt : Word}
    (h : cop0Understood instruction rt = true) : (copOpcode instruction).toNat = 0 ∨
      (copOpcode instruction).toNat = 4 ∨ (copOpcode instruction).toNat = 16 := by
  unfold cop0Understood at h
  split at h
  · next hcop => exact .inl hcop
  · next hcop => exact .inr (.inl hcop)
  · next hcop => exact .inr (.inr hcop)
  · cases h

theorem cop0Effect_iff (c : Control) (instruction rt : Word) :
    (∃ e, cop0Effect c instruction rt = .ok e) ↔ cop0Understood instruction rt = true := by
  unfold cop0Effect
  split
  · next hcop =>
    unfold cop0Understood
    rw [hcop]
    refine Iff.trans ?_ decide_eq_true_iff.symm
    rw [← cop0Read_iff c]
    cases cop0Read c (d instruction).val with
    | error e => exact ⟨fun ⟨_, h⟩ => (nomatch h), fun ⟨_, h⟩ => (nomatch h)⟩
    | ok v => exact ⟨fun _ => ⟨v, rfl⟩, fun _ => ⟨_, rfl⟩⟩
  · next hcop =>
    unfold cop0Understood
    rw [hcop]
    exact (cop0Write_iff _ _).trans decide_eq_true_iff.symm
  · next hcop =>
    unfold cop0Understood
    rw [hcop]
    refine Iff.trans ?_ decide_eq_true_iff.symm
    unfold rfeEffect subfunction
    split
    · next hne => exact ⟨fun ⟨_, h⟩ => (nomatch h), fun h => absurd h hne⟩
    · next heq => exact ⟨fun _ => not_not.mp heq, fun _ => ⟨_, rfl⟩⟩
  · next hmf hmt hrfe =>
    refine ⟨fun ⟨_, h⟩ => (nomatch h), fun h => ?_⟩
    rcases copOpcode_of_cop0Understood h with hcop | hcop | hcop
    · exact absurd hcop hmf
    · exact absurd hcop hmt
    · exact absurd hcop hrfe

namespace Machine

/-- The instruction is implemented, and the memory that it reads can be read. -/
def Understood (m : Machine) (instruction : Word) : Prop :=
  let addr := m.effectiveAddr instruction
  match decode instruction with
  -- The GTE is not emulated
  | .opCop2 | .opLwc2 | .opSwc2 => False
  | .opCop0 => cop0Understood instruction (m.mCpu.reg (t instruction)) = true
  | .opLw => m.mCpu.cacheIsolated = true ∨ loads32.Has addr
  | .opLb | .opLbu => loads8.Has addr
  | .opLh => loads16.Has addr
  | .opLhu => addr % 2 = 0 → loads16.Has addr
  | .opLwl | .opLwr | .opSwl | .opSwr => loads32.Has (addr &&& ~~~3)
  | _ => True

variable {m : Machine} {instruction : Word}

/-- The value read is only repackaged. -/
theorem returns_load {w : Nat} {x : Result (BitVec w)} {f : BitVec w → Word} :
    (∃ e, (x >>= fun v => loadT instruction (f v)) = .ok e) ↔ ∃ v, x = .ok v := by
  cases x with
  | error e => exact ⟨fun ⟨_, h⟩ => (nomatch h), fun ⟨_, h⟩ => (nomatch h)⟩
  | ok v => exact ⟨fun _ => ⟨v, rfl⟩, fun _ => ⟨_, rfl⟩⟩

/-- The word read is merged. -/
theorem returns_merge {x : Result Word} {merge : Word → Result Word} {f : Word → Effect}
    (hmerge : ∀ word, ∃ v, merge word = .ok v) :
    (∃ e, (x >>= fun word => merge word >>= fun v => .ok (f v)) = .ok e) ↔ ∃ v, x = .ok v := by
  cases x with
  | error e => exact ⟨fun ⟨_, h⟩ => (nomatch h), fun ⟨_, h⟩ => (nomatch h)⟩
  | ok word =>
    obtain ⟨v, hv⟩ := hmerge word
    exact ⟨fun _ => ⟨word, rfl⟩, fun _ => ⟨f v, by rw [ok_bind, hv]; rfl⟩⟩

/-- The last case of the `switch` on the alignment is unreachable. -/
theorem merge_returns (addr x y : Word) :
    (∃ v, mergeLwl addr x y = .ok v) ∧ (∃ v, mergeLwr addr x y = .ok v) ∧
      (∃ v, mergeSwl addr x y = .ok v) ∧ (∃ v, mergeSwr addr x y = .ok v) := by
  have hlt : (addr &&& 3).toNat ≤ 3 := Bits.toNat_and_le _ _
  unfold mergeLwl mergeLwr mergeSwl mergeSwr
  generalize (addr &&& 3).toNat = n at hlt
  obtain rfl | rfl | rfl | rfl : n = 0 ∨ n = 1 ∨ n = 2 ∨ n = 3 := by omega
  all_goals exact ⟨⟨_, rfl⟩, ⟨_, rfl⟩, ⟨_, rfl⟩, ⟨_, rfl⟩⟩

theorem effectOf_iff (m : Machine) (instruction : Word) :
    (∃ e, m.effectOf instruction = .ok e) ↔ m.Understood instruction := by
  unfold Understood
  cases hop : decode instruction
  case opLw =>
    rw [effectOf_lw hop]
    cases hiso : m.mCpu.cacheIsolated with
    | true => exact ⟨fun _ => .inl rfl, fun _ => ⟨{}, rfl⟩⟩
    | false =>
      refine (returns_load.trans (m.mBus.load32_iff _)).trans ⟨.inr, fun h => ?_⟩
      exact h.resolve_left Bool.false_ne_true
  case opLb =>
    rw [effectOf_lb hop]
    exact returns_load.trans (m.mBus.load8_iff _)
  case opLbu =>
    rw [effectOf_lbu hop]
    exact returns_load.trans (m.mBus.load8_iff _)
  case opLh =>
    rw [effectOf_lh hop]
    exact returns_load.trans (m.mBus.load16_iff _)
  case opLhu =>
    rw [effectOf_lhu hop]
    by_cases ha : m.effectiveAddr instruction % 2 = 0
    · rw [if_pos ha]
      exact (returns_load.trans (m.mBus.load16_iff _)).trans ⟨fun h _ => h, fun h => h ha⟩
    · rw [if_neg ha]
      exact ⟨fun _ h => absurd h ha, fun _ => ⟨_, rfl⟩⟩
  all_goals rw [effectOf_eq hop]
  case opLwl =>
    exact (returns_merge fun word => (merge_returns _ _ word).1).trans (m.mBus.load32_iff _)
  case opLwr =>
    exact (returns_merge fun word => (merge_returns _ _ word).2.1).trans (m.mBus.load32_iff _)
  case opSwl =>
    exact (returns_merge fun word => (merge_returns _ word _).2.2.1).trans (m.mBus.load32_iff _)
  case opSwr =>
    exact (returns_merge fun word => (merge_returns _ word _).2.2.2).trans (m.mBus.load32_iff _)
  case opCop0 => exact cop0Effect_iff _ _ _
  case opCop2 | opLwc2 | opSwc2 => exact ⟨fun ⟨_, h⟩ => (nomatch h), False.elim⟩
  case opSub =>
    refine ⟨fun _ => trivial, fun _ => ?_⟩
    simp only [effect]
    split <;> exact ⟨_, rfl⟩
  case opSw =>
    refine ⟨fun _ => trivial, fun _ => ?_⟩
    simp only [effect]
    split
    · exact ⟨_, rfl⟩
    · split <;> exact ⟨_, rfl⟩
  case opSh =>
    refine ⟨fun _ => trivial, fun _ => ?_⟩
    simp only [effect]
    split <;> exact ⟨_, rfl⟩
  all_goals exact ⟨fun _ => trivial, fun _ => ⟨_, rfl⟩⟩

/-! ## Steps -/

/-- What a step needs in order to return: nothing, for a fetch fault; otherwise a fetch from a
mapped address, an instruction that is understood, and a store that the bus accepts. -/
def Returns (m : Machine) : Prop :=
  m.mCpu.mPc % 4 ≠ 0 ∨
    (loads32.Has m.mCpu.mPc ∧
      (∀ instruction, m.mBus.load32 m.mCpu.mPc = .ok instruction → m.Understood instruction) ∧
      ∀ a, m.stored = some a → m.mBus.Accepts a)

theorem effect_bus_iff {b : Bus} (hgpu : b.mGpu.Reachable) (e : Effect) :
    (∃ fuel b', e.bus fuel b = .ok b') ↔
      ∀ a, e.store.map StoreReq.access = some a → b.Accepts a := by
  unfold Effect.bus
  cases e.store with
  | none => exact ⟨fun _ _ h => (nomatch h), fun _ => ⟨0, b, rfl⟩⟩
  | some request =>
    simp only [StoreReq.perform_eq, Option.map_some, Option.some.injEq, forall_eq']
    exact ⟨fun ⟨_, _, h⟩ => Bus.accepts_of_access hgpu h, Bus.access_of_accepts hgpu⟩

theorem Reachable.mGpu {bios : Bios} (h : Reachable bios m) : m.mBus.mGpu.Reachable :=
  (Machine.Reachable.bus h).gpu

/-- **Which steps return**: in every reachable state, exactly the fetch faults and the steps whose
fetch is mapped, whose instruction is understood and whose store the bus accepts. -/
theorem returns_iff {bios : Bios} (h : Reachable bios m) : (∃ m', m.Next m') ↔ m.Returns := by
  by_cases ha : m.mCpu.mPc % 4 = 0
  · constructor
    · rintro ⟨m', hnext⟩
      rcases next_iff.mp hnext with ⟨hfault, -⟩ | ⟨instruction, e, hx⟩
      · exact absurd ha hfault
      refine .inr ⟨(m.mBus.load32_iff _).mp ⟨_, hx.fetched⟩, fun w hw => ?_, fun a hstored => ?_⟩
      · cases hx.fetched.symm.trans hw
        exact (m.effectOf_iff instruction).mp ⟨e, hx.effectOf⟩
      · rw [hx.stored] at hstored
        obtain ⟨fuel, hbus⟩ := hx.bus
        exact (effect_bus_iff h.mGpu e).mp ⟨fuel, _, hbus⟩ a hstored
    · rintro (hfault | ⟨hfetch, hunderstood, hstored⟩)
      · exact absurd ha hfault
      obtain ⟨instruction, hinstruction⟩ := (m.mBus.load32_iff _).mpr hfetch
      obtain ⟨e, he⟩ := (m.effectOf_iff instruction).mpr (hunderstood _ hinstruction)
      have heq : m.stored = e.store.map StoreReq.access := by
        rw [stored, if_neg (not_not.mpr ha), hinstruction, ok_bind, he]
      rw [heq] at hstored
      obtain ⟨fuel, bus, hbus⟩ := (effect_bus_iff h.mGpu e).mpr hstored
      exact ⟨m.after e bus, next_iff.mpr
        (.inr ⟨instruction, e, ha, hinstruction, he, ⟨fuel, hbus⟩, rfl⟩)⟩
  · exact ⟨fun _ => .inl ha, fun _ => ⟨_, next_iff.mpr (.inl ⟨ha, rfl⟩)⟩⟩

/-- A GTE instruction at the reset vector stops the program. -/
theorem returns_gte : ¬ ∃ m', (reset (.ofWords [0x48000000])).Next m' := by
  have hstart : Reachable (.ofWords [0x48000000]) (reset (.ofWords [0x48000000])) :=
    Transition.Reachable.refl _ _
  have hfetch : (reset (.ofWords [0x48000000])).mBus.load32 0xbfc00000 = .ok 0x48000000 := by
    decide +kernel
  rw [returns_iff hstart]
  rintro (hfault | ⟨-, hunderstood, -⟩)
  · exact hfault (by decide)
  · exact hunderstood _ hfetch

end Machine

end CppStation
