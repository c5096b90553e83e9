import CppStation.Cpu.Run
import CppStation.Memory.ByteView

/-!
# Loads and stores of the CPU in RAM

With the cache not isolated, the aligned loads and stores access the byte memory
of `Memory.ByteView` at their own width.
-/

namespace CppStation

open ByteMemory Fallible Instruction

/-- Every alias starts at a multiple of 4. -/
theorem Alias.toNat_addr_mod (a : Alias) {offset : Nat} (h : offset < ramSize) :
    (a.addr offset).toNat % 4 = offset % 4 := by
  rw [a.toNat_addr h]
  cases a <;> simp only [Alias.base] <;> omega

theorem mod_two_iff (x : Word) : x % 2 = 0 ↔ x.toNat % 2 = 0 :=
  Bits.mod_eq_zero_iff x (by decide)

theorem mod_four_iff (x : Word) : x % 4 = 0 ↔ x.toNat % 4 = 0 :=
  Bits.mod_eq_zero_iff x (by decide)

theorem Alias.addr_mod_two (a : Alias) {offset : Nat} (h : offset < ramSize)
    (ha : offset % 2 = 0) : a.addr offset % 2 = 0 := by
  have hmod := a.toNat_addr_mod h
  rw [mod_two_iff]
  omega

theorem Alias.addr_mod_four (a : Alias) {offset : Nat} (h : offset < ramSize)
    (ha : offset % 4 = 0) : a.addr offset % 4 = 0 := by
  rw [mod_four_iff, a.toNat_addr_mod h, ha]

namespace Machine

section

variable {m : Machine} {instruction : Word}

theorem effectOf_lb (hop : decode instruction = .opLb) :
    m.effectOf instruction =
      m.mBus.load8 (m.effectiveAddr instruction) >>= fun v =>
        loadT instruction (v.signExtend 32) :=
  effectOf_eq hop

theorem effectOf_lbu (hop : decode instruction = .opLbu) :
    m.effectOf instruction =
      m.mBus.load8 (m.effectiveAddr instruction) >>= fun v =>
        loadT instruction (v.setWidth 32) :=
  effectOf_eq hop

theorem effectOf_lh (hop : decode instruction = .opLh) :
    m.effectOf instruction =
      m.mBus.load16 (m.effectiveAddr instruction) >>= fun v =>
        loadT instruction (v.signExtend 32) :=
  effectOf_eq hop

theorem effectOf_lhu (hop : decode instruction = .opLhu) :
    m.effectOf instruction =
      if m.effectiveAddr instruction % 2 = 0 then
        m.mBus.load16 (m.effectiveAddr instruction) >>= fun v =>
          loadT instruction (v.setWidth 32)
      else .ok { raise := some .loadAddressError } :=
  effectOf_eq hop

theorem effectOf_lw (hop : decode instruction = .opLw) :
    m.effectOf instruction =
      if m.mCpu.cacheIsolated then .ok {}
      else m.mBus.load32 (m.effectiveAddr instruction) >>= fun v => loadT instruction v :=
  effectOf_eq hop

theorem effectOf_sb (hop : decode instruction = .opSb) :
    m.effectOf instruction =
      let request : StoreReq :=
        .byte (m.effectiveAddr instruction) ((m.mCpu.reg (t instruction)).setWidth 8)
      .ok { store := if m.mCpu.cacheIsolated then none else some request } :=
  effectOf_eq hop

theorem effectOf_sh (hop : decode instruction = .opSh) :
    m.effectOf instruction =
      let request : StoreReq :=
        .half (m.effectiveAddr instruction) ((m.mCpu.reg (t instruction)).setWidth 16)
      if m.effectiveAddr instruction % 2 = 0 then
        .ok { store := if m.mCpu.cacheIsolated then none else some request }
      else .ok { raise := some .storeAddressError } :=
  effectOf_eq hop

theorem effectOf_sw (hop : decode instruction = .opSw) :
    m.effectOf instruction =
      if m.mCpu.cacheIsolated then .ok {}
      else if m.effectiveAddr instruction % 4 = 0 then
        .ok { store := some (.word (m.effectiveAddr instruction) (m.mCpu.reg (t instruction))) }
      else .ok { raise := some .storeAddressError } :=
  effectOf_eq hop

end

/-- The instruction stores the `width` low bytes of its source register at `offset`, and
changes nothing else on the bus. -/
def StoresBytes (m : Machine) (instruction : Word) (offset width : Nat) : Prop :=
  ∀ fuel, ∃ m', m.execute fuel instruction = .ok m' ∧
    m'.mBus = m.mBus.withWrite ⟨offset, bytesOf width (m.mCpu.reg (t instruction))⟩

/-- The instruction schedules a load of `v`. -/
def SchedulesLoad (m : Machine) (instruction v : Word) : Prop :=
  ∀ fuel, ∃ m', m.execute fuel instruction = .ok m' ∧
    m'.mCpu.mLoadRegIdx = t instruction ∧ m'.mCpu.mLoadReg = v ∧ m'.mBus = m.mBus

variable {m : Machine} {instruction : Word}

theorem storesBytes_of_effect {offset width : Nat} {request : StoreReq}
    (he : m.effectOf instruction = .ok { store := some request })
    (hreq : ∀ fuel, request.perform fuel m.mBus =
      .ok (m.mBus.withWrite ⟨offset, bytesOf width (m.mCpu.reg (t instruction))⟩)) :
    m.StoresBytes instruction offset width :=
  fun fuel => ⟨m.after _ _, execute_eq_ok.mpr ⟨_, he, hreq fuel, rfl⟩, rfl⟩

theorem schedulesLoad_of_effect {v : Word}
    (he : m.effectOf instruction = .ok { load := some (t instruction, v) }) :
    m.SchedulesLoad instruction v :=
  fun _ => ⟨m.after _ m.mBus, execute_eq_ok.mpr ⟨_, he, rfl, rfl⟩, rfl, rfl, rfl⟩

/-- The accesses at the RAM byte `offset`. -/
structure AccessesRam (m : Machine) (instruction : Word) (offset : Nat) : Prop where
  sb : decode instruction = .opSb → offset + 1 ≤ ramSize → m.StoresBytes instruction offset 1
  sh : decode instruction = .opSh → offset % 2 = 0 → offset + 2 ≤ ramSize →
    m.StoresBytes instruction offset 2
  sw : decode instruction = .opSw → offset % 4 = 0 → offset + 4 ≤ ramSize →
    m.StoresBytes instruction offset 4
  lb : decode instruction = .opLb → offset + 1 ≤ ramSize →
    m.SchedulesLoad instruction ((m.mBus.mRam.mData offset).signExtend 32)
  lbu : decode instruction = .opLbu → offset + 1 ≤ ramSize →
    m.SchedulesLoad instruction ((m.mBus.mRam.mData offset).setWidth 32)
  lh : decode instruction = .opLh → offset % 2 = 0 → offset + 2 ≤ ramSize →
    m.SchedulesLoad instruction
      ((compose 16 2 fun k => m.mBus.mRam.mData (offset + k)).signExtend 32)
  lhu : decode instruction = .opLhu → offset % 2 = 0 → offset + 2 ≤ ramSize →
    m.SchedulesLoad instruction
      ((compose 16 2 fun k => m.mBus.mRam.mData (offset + k)).setWidth 32)
  lw : decode instruction = .opLw → offset % 4 = 0 → offset + 4 ≤ ramSize →
    m.SchedulesLoad instruction (compose 32 4 fun k => m.mBus.mRam.mData (offset + k))

theorem bytesOf_setWidth (v : Word) {width : Nat} (n : Nat) (h : 8 * width ≤ n) :
    bytesOf width (v.setWidth n) = bytesOf width v := by
  refine List.map_congr_left fun k hk => ?_
  rw [List.mem_range] at hk
  apply BitVec.eq_of_getLsbD_eq
  intro j hj
  rw [getLsbD_byteOf, getLsbD_byteOf, BitVec.getLsbD_setWidth,
    decide_eq_true (show 8 * k + j < n by omega), Bool.true_and]

theorem accessesRam (hiso : m.mCpu.cacheIsolated = false) {a : Alias} {offset : Nat}
    (haddr : m.effectiveAddr instruction = a.addr offset) : m.AccessesRam instruction offset := by
  have hloads := loadsCompose m.mBus
  constructor
  case lb =>
    intro hop hin
    apply schedulesLoad_of_effect
    rw [effectOf_lb hop, haddr, hloads.load8 a offset hin]
    rfl
  case lbu =>
    intro hop hin
    apply schedulesLoad_of_effect
    rw [effectOf_lbu hop, haddr, hloads.load8 a offset hin]
    rfl
  case lh =>
    intro hop _ hin
    apply schedulesLoad_of_effect
    rw [effectOf_lh hop, haddr, hloads.load16 a offset hin]
    rfl
  case lhu =>
    intro hop heven hin
    apply schedulesLoad_of_effect
    rw [effectOf_lhu hop, haddr, if_pos (a.addr_mod_two (by omega) heven),
      hloads.load16 a offset hin]
    rfl
  case lw =>
    intro hop _ hin
    apply schedulesLoad_of_effect
    rw [effectOf_lw hop, haddr, hiso, hloads.load32 a offset hin]
    rfl
  case sb =>
    intro hop hin
    have he : m.effectOf instruction =
        .ok { store := some (.byte (a.addr offset) ((m.mCpu.reg (t instruction)).setWidth 8)) } := by
      rw [effectOf_sb hop, hiso, haddr]
      rfl
    refine storesBytes_of_effect he fun fuel => ?_
    rw [← bytesOf_setWidth _ 8 (by decide)]
    exact RamStore.perform_eq fuel m.mBus ⟨a, offset, .byte _, hin⟩
  case sh =>
    intro hop heven hin
    have he : m.effectOf instruction =
        .ok { store := some (.half (a.addr offset) ((m.mCpu.reg (t instruction)).setWidth 16)) } := by
      rw [effectOf_sh hop, hiso, haddr]
      exact if_pos (a.addr_mod_two (by omega) heven)
    refine storesBytes_of_effect he fun fuel => ?_
    rw [← bytesOf_setWidth _ 16 (by decide)]
    exact RamStore.perform_eq fuel m.mBus ⟨a, offset, .half _, hin⟩
  case sw =>
    intro hop hmod hin
    have he : m.effectOf instruction =
        .ok { store := some (.word (a.addr offset) (m.mCpu.reg (t instruction))) } := by
      rw [effectOf_sw hop, hiso, haddr]
      exact if_pos (a.addr_mod_four (by omega) hmod)
    exact storesBytes_of_effect he fun fuel =>
      RamStore.perform_eq fuel m.mBus ⟨a, offset, .word _, hin⟩

/-- **RAM is one byte memory.**  After any history of stores, loads compose the bytes most
recently stored; a store changes no byte outside its width; and the aligned loads and stores
of the CPU are such accesses. -/
theorem ram_byte_memory :
    (∀ bios fuel (hist : List RamStore),
      ∃ b, hist.foldlM (fun b st => st.perform fuel b) (Bus.new bios) = .ok b ∧
        LoadsCompose b (byteAt hist)) ∧
    (∀ fuel b b' (st : RamStore), st.perform fuel b = .ok b' →
      ∀ x, x < st.offset ∨ st.offset + st.value.width ≤ x →
        b'.mRam.mData x = b.mRam.mData x) ∧
    ∀ (m : Machine) instruction (a : Alias) offset, m.mCpu.cacheIsolated = false →
      m.effectiveAddr instruction = a.addr offset → m.AccessesRam instruction offset :=
  ⟨loadsCompose_history, fun _ _ _ _ h _ hx => perform_frame h hx,
    fun _ _ _ _ hiso haddr => accessesRam hiso haddr⟩

/-- A word stored through KSEG0, then one of its bytes through KUSEG, read back through KSEG1,
by `lh r2, 0x100(r0)`, and written over by `sb r0, 0x103(r0)`. -/
theorem ram_byte_memory_overlap :
    ∃ b, [(⟨.kseg0, 0x100, .word 0x11223344, by decide⟩ : RamStore),
        ⟨.kuseg, 0x101, .byte 0xaa, by decide⟩].foldlM (fun b st => st.perform 0 b)
          (Bus.new (.ofWords [])) = .ok b ∧
      b.load16 (Alias.addr .kseg1 0x101) = .ok 0x22aa ∧
      SchedulesLoad { reset (.ofWords []) with mBus := b } 0x84020100 0xffffaa44 ∧
      StoresBytes { reset (.ofWords []) with mBus := b } 0xa0000103 0x103 1 := by
  obtain ⟨b, hb, hloads⟩ := ram_byte_memory.1 (.ofWords []) 0
    [⟨.kseg0, 0x100, .word 0x11223344, by decide⟩, ⟨.kuseg, 0x101, .byte 0xaa, by decide⟩]
  have hiso : (reset (.ofWords [])).mCpu.cacheIsolated = false := by decide
  have hlhAddr : (reset (.ofWords [])).effectiveAddr 0x84020100 = Alias.addr .kuseg 0x100 := by
    decide
  have hsbAddr : (reset (.ofWords [])).effectiveAddr 0xa0000103 = Alias.addr .kuseg 0x103 := by
    decide
  have hcpu := ram_byte_memory.2.2 { reset (.ofWords []) with mBus := b }
  have hhalf : (compose 16 2 fun k => b.mRam.mData (0x100 + k)) = 0xaa44 :=
    Except.ok.inj (((loadsCompose b).load16 .kuseg 0x100 (by decide)).symm.trans
      (hloads.load16 .kuseg 0x100 (by decide)))
  have hlh := (hcpu 0x84020100 .kuseg 0x100 hiso hlhAddr).lh rfl (by decide) (by decide)
  have hsb := (hcpu 0xa0000103 .kuseg 0x103 hiso hsbAddr).sb rfl (by decide)
  rw [hhalf] at hlh
  exact ⟨b, hb, hloads.load16 .kseg1 0x101 (by decide), hlh, hsb⟩

end Machine

end CppStation
