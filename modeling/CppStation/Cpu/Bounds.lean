import CppStation.Cpu.MemoryAccess
import CppStation.Memory.Bounds

/-!
# Which instructions stay inside the RAM and BIOS arrays

LW and LH do not test the alignment of their address; every other access of the
CPU is aligned.
-/

namespace CppStation

open Fallible Instruction Map Transition

/-! ## Effects -/

theorem insideMemory_merge {addr curV word : Word} :
    InsideMemory (mergeLwl addr curV word) ∧ InsideMemory (mergeLwr addr curV word) ∧
      InsideMemory (mergeSwl addr curV word) ∧ InsideMemory (mergeSwr addr curV word) := by
  unfold mergeLwl mergeLwr mergeSwl mergeSwr
  generalize (addr &&& 3).toNat = n
  refine ⟨?_, ?_, ?_, ?_⟩ <;> split <;> first | exact avoids_ok _ | exact insideMemory_panic _ _

theorem insideMemory_cop0Effect (c : Control) (instruction rt : Word) :
    InsideMemory (cop0Effect c instruction rt) := by
  unfold cop0Effect
  split
  · refine Avoids.map ?_
    unfold cop0Read
    split
    case h_4 => exact insideMemory_panic _ _
    all_goals exact avoids_ok _
  · unfold cop0Write
    split
    case h_7 => exact avoids_ok _
    case h_9 => exact insideMemory_panic _ _
    all_goals exact avoids_ite (fun _ => insideMemory_panic _ _) fun _ => avoids_ok _
  · exact avoids_ite (fun _ => insideMemory_panic _ _) fun _ => avoids_ok _
  · exact insideMemory_panic _ _

namespace Machine

/-- The instruction is a LW or LH that starts in RAM or BIOS and ends after it. -/
def Straddles (m : Machine) (instruction : Word) : Prop :=
  (decode instruction = .opLw ∧ m.mCpu.cacheIsolated = false ∧
      (CrossesRam (m.effectiveAddr instruction) 4 ∨
        CrossesBios (m.effectiveAddr instruction) 4)) ∨
    (decode instruction = .opLh ∧ CrossesRam (m.effectiveAddr instruction) 2)

variable {m : Machine} {instruction : Word}

theorem insideMemory_effectOf (h : ¬ m.Straddles instruction) :
    InsideMemory (m.effectOf instruction) := by
  have hword (x : Word) : InsideMemory (m.mBus.load32 (x &&& ~~~3)) :=
    Bus.insideMemory_load32 _ (not_crossesRam_word (Bits.toNat_wordAddress_mod x))
      (not_crossesBios_word (Bits.toNat_wordAddress_mod x))
  cases hop : decode instruction
  case opLw =>
    rw [effectOf_lw hop]
    refine avoids_ite (fun _ => avoids_ok _) fun hiso => Avoids.map ?_
    refine Bus.insideMemory_load32 _ ?_ ?_
    · exact fun hc => h (.inl ⟨hop, Bool.eq_false_iff.mpr hiso, .inl hc⟩)
    · exact fun hc => h (.inl ⟨hop, Bool.eq_false_iff.mpr hiso, .inr hc⟩)
  case opLh =>
    rw [effectOf_lh hop]
    exact (Bus.insideMemory_load16 _ fun hc => h (.inr ⟨hop, hc⟩)).map
  case opLhu =>
    rw [effectOf_lhu hop]
    refine avoids_ite (fun ha => Avoids.map ?_) fun _ => avoids_ok _
    exact Bus.insideMemory_load16 _ (not_crossesRam_half (congrArg BitVec.toNat ha))
  case opLb =>
    rw [effectOf_lb hop]
    exact (Bus.insideMemory_load8 _ _).map
  case opLbu =>
    rw [effectOf_lbu hop]
    exact (Bus.insideMemory_load8 _ _).map
  all_goals rw [effectOf_eq hop]
  case opLwl => exact (hword _).bind fun _ _ => insideMemory_merge.1.map
  case opLwr => exact (hword _).bind fun _ _ => insideMemory_merge.2.1.map
  case opSwl => exact (hword _).bind fun _ _ => insideMemory_merge.2.2.1.map
  case opSwr => exact (hword _).bind fun _ _ => insideMemory_merge.2.2.2.map
  case opCop0 => exact insideMemory_cop0Effect _ _ _
  case opCop2 | opLwc2 | opSwc2 => exact insideMemory_panic _ _
  case opSub => exact avoids_ite (fun _ => avoids_ok _) fun _ => avoids_ok _
  case opSw =>
    refine avoids_ite (fun _ => avoids_ok _) fun _ => ?_
    exact avoids_ite (fun _ => avoids_ok _) fun _ => avoids_ok _
  case opSh => exact avoids_ite (fun _ => avoids_ok _) fun _ => avoids_ok _
  all_goals exact avoids_ok _

theorem effectOf_straddles (h : m.Straddles instruction) :
    ∃ fault, Fault.OutsideMemory fault ∧ m.effectOf instruction = .error fault := by
  rcases h with ⟨hop, hiso, hram | hbios⟩ | ⟨hop, hram⟩
  · refine ⟨.outOfBounds .ramData ramSize, ⟨_, .inl rfl⟩, ?_⟩
    rw [effectOf_lw hop, hiso, Bus.load32_crossesRam _ hram]
    rfl
  · refine ⟨.outOfBounds .biosBuffer biosSize, ⟨_, .inr rfl⟩, ?_⟩
    rw [effectOf_lw hop, hiso, Bus.load32_crossesBios _ hbios]
    rfl
  · refine ⟨.outOfBounds .ramData ramSize, ⟨_, .inl rfl⟩, ?_⟩
    rw [effectOf_lh hop, Bus.load16_crossesRam _ hram]
    rfl

/-- The stores of an effect are aligned, and so inside. -/
theorem insideMemory_bus {op : Op} {e : Effect} (h : e.Shape op) (fuel : Nat) (b : Bus) :
    InsideMemory (e.bus fuel b) := by
  cases h with
  | store request ha =>
    cases request with
    | word addr val => exact Bus.insideMemory_store32 fuel b val ha
    | half addr val => exact Bus.insideMemory_store16 b val ha
    | byte addr val => exact Bus.insideMemory_store8 b addr val
  | _ => exact avoids_ok _

/-! ## Steps and runs -/

/-- The next step uses no index outside the RAM and BIOS arrays. -/
def IndexesInRange (m : Machine) : Prop :=
  ∀ fuel index, m.runNextInstruction fuel ≠ .error (.outOfBounds .ramData index) ∧
    m.runNextInstruction fuel ≠ .error (.outOfBounds .biosBuffer index)

/-- The next step executes a LW or LH that straddles the end of RAM or BIOS. -/
def StraddlingLoad (m : Machine) : Prop :=
  m.mCpu.mPc % 4 = 0 ∧
    ∃ instruction, m.mBus.load32 m.mCpu.mPc = .ok instruction ∧ m.Straddles instruction

theorem indexesInRange_of_insideMemory
    (h : ∀ fuel, InsideMemory (m.runNextInstruction fuel)) : m.IndexesInRange :=
  fun fuel index =>
    ⟨fun he => h fuel _ he ⟨index, .inl rfl⟩, fun he => h fuel _ he ⟨index, .inr rfl⟩⟩

/-- **Step lemma.** -/
theorem indexesInRange_iff (m : Machine) : m.IndexesInRange ↔ ¬ m.StraddlingLoad := by
  constructor
  · rintro h ⟨hpc, instruction, hfetch, hstraddles⟩
    obtain ⟨fault, ⟨index, hfault⟩, he⟩ := effectOf_straddles hstraddles
    have hrun : m.runNextInstruction 0 = .error fault := by
      rw [runNextInstruction_eq, if_neg (not_not.mpr hpc), hfetch, ok_bind, execute_eq, he]
      rfl
    rcases hfault with rfl | rfl
    · exact (h 0 index).1 hrun
    · exact (h 0 index).2 hrun
  · intro h
    refine indexesInRange_of_insideMemory fun fuel => ?_
    rw [runNextInstruction_eq]
    refine avoids_ite (fun _ => avoids_ok _) fun hpc => ?_
    have hpc' : m.mCpu.mPc.toNat % 4 = 0 := congrArg BitVec.toNat (not_not.mp hpc)
    refine Avoids.bind ?_ fun instruction hfetch => ?_
    · exact Bus.insideMemory_load32 _ (not_crossesRam_word hpc') (not_crossesBios_word hpc')
    · rw [execute_eq]
      refine (insideMemory_effectOf fun hs => h ⟨not_not.mp hpc, instruction, hfetch, hs⟩).bind
        fun e he => ?_
      exact (avoids_linkIp elsewhere_outsideMemory
        (insideMemory_bus (effect_shape he) _ _) _).map

/-- **Indexes in range.**  In every state of every run the next step stays inside the RAM and
BIOS arrays, exactly when it is not a LW or LH that straddles their end.  The law is one of every
state: nothing of the run is used. -/
theorem indexesInRange_run (bios : Bios) (n : Nat) (s : Nat → Machine)
    (_h : IsRun Next (reset bios) n s) (k : Nat) (_hk : k ≤ n) :
    (s k).IndexesInRange ↔ ¬ (s k).StraddlingLoad := indexesInRange_iff (s k)

/-- A word address is never straddling. -/
theorem not_straddlingLoad_of_aligned {m : Machine} {instruction : Word}
    (hfetch : m.mBus.load32 m.mCpu.mPc = .ok instruction)
    (haddr : (m.effectiveAddr instruction).toNat % 4 = 0) : ¬ m.StraddlingLoad := by
  rintro ⟨-, instruction', hfetch', hs⟩
  cases hfetch.symm.trans hfetch'
  rcases hs with ⟨-, -, hram | hbios⟩ | ⟨-, hram⟩
  · exact not_crossesRam_word haddr hram
  · exact not_crossesBios_word haddr hbios
  · exact not_crossesRam_half (by omega) hram

/-- `lw r2, 0(r1)` and `sw r2, 0(r1)` at the last word of RAM, after
`lui r1, 0x001f; ori r1, r1, 0xfffc`. -/
theorem indexesInRange_lastWord :
    ∃ s : Nat → Machine, IsRun Next
        (reset (.ofWords [0x3c01001f, 0x3421fffc, 0x8c220000, 0xac220000])) 4 s ∧
      (s 2).effectiveAddr 0x8c220000 = 0x1ffffc ∧ (s 2).IndexesInRange ∧
      (s 3).effectiveAddr 0xac220000 = 0x1ffffc ∧ (s 3).IndexesInRange := by
  let executes (m : Machine) (instruction : Word) : Bool :=
    m.effectiveAddr instruction == 0x1ffffc &&
      okAnd (m.mBus.load32 m.mCpu.mPc) (· == instruction)
  let m := reset (.ofWords [0x3c01001f, 0x3421fffc, 0x8c220000, 0xac220000])
  have hrun : okAnd (m.run 0 4) (fun _ => true) = true := by decide +kernel
  have hload : okAnd (m.run 0 2) (executes · 0x8c220000) = true := by decide +kernel
  have hstore : okAnd (m.run 0 3) (executes · 0xac220000) = true := by decide +kernel
  obtain ⟨m', hm, -⟩ := exists_of_okAnd hrun
  obtain ⟨s, hs, hstates⟩ := exists_isRun hm
  rw [hstates 2 (by decide), okAnd_ok] at hload
  rw [hstates 3 (by decide), okAnd_ok] at hstore
  have hinRange : ∀ k ≤ 4, ∀ instruction, executes (s k) instruction = true →
      (s k).effectiveAddr instruction = 0x1ffffc ∧ (s k).IndexesInRange := by
    intro k hk instruction hexecutes
    obtain ⟨haddr, hfetch⟩ := Bool.and_eq_true_iff.mp hexecutes
    obtain ⟨_, hfetch, hsame⟩ := exists_of_okAnd hfetch
    cases eq_of_beq hsame
    refine ⟨eq_of_beq haddr, (indexesInRange_run _ 4 s hs k hk).mpr ?_⟩
    refine not_straddlingLoad_of_aligned hfetch ?_
    rw [eq_of_beq haddr]
    rfl
  obtain ⟨haddr, hin⟩ := hinRange 2 (by decide) _ hload
  obtain ⟨haddr', hin'⟩ := hinRange 3 (by decide) _ hstore
  exact ⟨s, hs, haddr, hin, haddr', hin'⟩

/-- After `lui r1, 0x001f; ori r1, r1, 0xfffd` the instruction `lw r2, 0(r1)` reads the three
last bytes of RAM and the one after them. -/
theorem not_forall_indexesInRange :
    ¬ ∀ bios n s, IsRun Next (reset bios) n s → ∀ k ≤ n, (s k).IndexesInRange := by
  intro h
  have hrun : okAnd ((reset (.ofWords [0x3c01001f, 0x3421fffd, 0x8c220000])).run 0 2) (fun m =>
      m.runNextInstruction 0 matches .error (.outOfBounds .ramData 2097152)) = true := by
    decide +kernel
  obtain ⟨m, hm, -⟩ := exists_of_okAnd hrun
  obtain ⟨s, hs, hstates⟩ := exists_isRun hm
  rw [hstates 2 (by decide), okAnd_ok] at hrun
  have hin := (h _ 2 s hs 2 (by decide) 0 2097152).1
  split at hrun
  · next heq => exact hin heq
  · cases hrun

end Machine

end CppStation
