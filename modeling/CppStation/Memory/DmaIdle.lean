import CppStation.Cpu.Run

/-!
# No transfer is left running

A DMA transfer runs to its end inside the store that starts it.  Between two
accesses no channel is active, so the only store that can start a transfer is
one to a channel control register.
-/

namespace CppStation

open Fallible Map

namespace Channel

theorem active_setBase (c : Channel) (val : Word) : (c.setBase val).active = c.active := rfl

theorem active_setBlockControl (c : Channel) (val : Word) :
    (c.setBlockControl val).active = c.active := rfl

theorem active_done (c : Channel) : c.done.active = false := rfl

end Channel

namespace Dma

theorem channel_putChannel_of_ne (d : Dma) {port other : Port} (c : Channel) (h : other ≠ port) :
    (d.putChannel port c).channel other = d.channel other :=
  Function.update_of_ne h _ _

theorem putChannel_putChannel (d : Dma) (port : Port) (c c' : Channel) :
    (d.putChannel port c).putChannel port c' = d.putChannel port c' :=
  congrArg (fun channels => { d with mChannels := channels }) (Function.update_idem ..)

/-- No channel is active. -/
def Idle (d : Dma) : Prop := ∀ port, (d.channel port).active = false

theorem Idle.putChannel {d : Dma} (h : d.Idle) (port : Port) {c : Channel}
    (hc : c.active = false) : (d.putChannel port c).Idle := by
  intro other
  by_cases hother : other = port
  · rw [hother, channel_putChannel_self]
    exact hc
  · rw [channel_putChannel_of_ne d c hother]
    exact h other

end Dma

namespace Bus

/-! ## The transfers -/

theorem blockWord_dma {port : Port} {dir : Direction} {remsz : Nat} {addr : Word} {b b' : Bus}
    (h : blockWord port dir remsz addr b = .ok b') : b'.mDma = b.mDma := by
  cases dir with
  | fromRam =>
    obtain ⟨_, _, h⟩ := bind_eq_ok.mp h
    cases port
    case gpu =>
      obtain ⟨_, _, h⟩ := bind_eq_ok.mp h
      cases h
      rfl
    all_goals cases h
  | toRam =>
    cases port
    case otc =>
      obtain ⟨_, _, h⟩ := bind_eq_ok.mp h
      obtain ⟨_, _, h⟩ := bind_eq_ok.mp h
      cases h
      rfl
    all_goals cases h

theorem blockLoop_dma {port : Port} {dir : Direction} {increment : Word} {remsz : Nat}
    {addr : Word} {b b' : Bus} (h : blockLoop port dir increment remsz addr b = .ok b') :
    b'.mDma = b.mDma := by
  induction remsz generalizing addr b with
  | zero =>
    cases h
    rfl
  | succ remsz ih =>
    obtain ⟨b1, hword, hrest⟩ := bind_eq_ok.mp h
    exact (ih hrest).trans (blockWord_dma hword)

/-- **A transfer that returns** marks its channel as done and touches no other register. -/
theorem doDma_dma {fuel : Nat} {b b' : Bus} {port : Port} (h : b.doDma fuel port = .ok b') :
    b'.mDma = b.mDma.putChannel port (b.mDma.channel port).done := by
  unfold doDma at h
  split at h
  · simp only [doDmaLinkedList] at h
    split at h
    · cases h
    · split at h
      · cases h
      · obtain ⟨gpu, _, hret⟩ := bind_eq_ok.mp h
        cases hret
        rfl
  · simp only [doDmaBlock] at h
    split at h
    · cases h
    · obtain ⟨b1, hloop, hret⟩ := bind_eq_ok.mp h
      cases hret
      change b1.mDma.putChannel port _ = _
      rw [blockLoop_dma hloop]

/-! ## The register write and the transfer it starts -/

/-- What `setDmaReg` writes, and the port on which it then calls `doDma`. -/
def writeDmaReg (b : Bus) (offset val : Word) : Result (Bus × Option Port) := do
  let major := (offset &&& 0x70) >>> 4
  let minor := offset &&& 0xf
  if major.toNat < 7 then
    let port ← Port.fromIndex major
    let channel ← setChannelReg (b.mDma.channel port) offset val
    return ({ b with mDma := b.mDma.putChannel port channel },
      if channel.active then some port else none)
  else
    match minor.toNat with
    | 0 => return ({ b with mDma := b.mDma.setControl val }, none)
    | 4 => return ({ b with mDma := b.mDma.setInterrupt val }, none)
    | _ => panicIp badDmaWrite [offset.toNat, val.toNat, minor.toNat, major.toNat]

/-- **The write comes first**, and there is at most one transfer. -/
theorem setDmaReg_eq (fuel : Nat) (b : Bus) (offset val : Word) :
    b.setDmaReg fuel offset val = b.writeDmaReg offset val >>= fun written =>
      match written.2 with
      | some port => written.1.doDma fuel port
      | none => .ok written.1 := by
  simp only [setDmaReg, writeDmaReg]
  split
  · cases Port.fromIndex ((offset &&& 0x70) >>> 4) with
    | error e => rfl
    | ok port =>
      simp only [ok_bind]
      cases setChannelReg (b.mDma.channel port) offset val with
      | error e => rfl
      | ok channel =>
        simp only [ok_bind]
        cases hactive : channel.active <;> rfl
  · generalize (offset &&& 0xf).toNat = minor
    rcases minor with _ | _ | _ | _ | _ | minor <;> rfl

/-- Only a write to the control register changes whether a channel is active. -/
theorem active_setChannelReg {c c' : Channel} {offset val : Word}
    (h : setChannelReg c offset val = .ok c') (hminor : (offset &&& 0xf).toNat ≠ 8) :
    c'.active = c.active := by
  simp only [setChannelReg] at h
  split at h
  · cases h
    exact c.active_setBase val
  · cases h
    exact c.active_setBlockControl val
  · next heq => exact absurd heq hminor
  · cases h

/-- What the write at `offset` leaves behind when no channel was active: none is, or it was to the
control register of `port`. -/
def Written (b b1 : Bus) (offset : Word) : Option Port → Prop
  | none => b1.mDma.Idle
  | some port =>
    (offset &&& 0xf).toNat = 8 ∧ Port.fromIndex ((offset &&& 0x70) >>> 4) = .ok port ∧
      ∃ channel, b1.mDma = b.mDma.putChannel port channel

theorem writeDmaReg_written {b b1 : Bus} {offset val : Word} {started : Option Port}
    (h : b.mDma.Idle) (hwrite : b.writeDmaReg offset val = .ok (b1, started)) :
    b.Written b1 offset started := by
  simp only [writeDmaReg] at hwrite
  split at hwrite
  · obtain ⟨port, hport, hrest⟩ := bind_eq_ok.mp hwrite
    obtain ⟨channel, hchannel, hret⟩ := bind_eq_ok.mp hrest
    obtain ⟨rfl, rfl⟩ := Prod.mk.inj (Except.ok.inj hret)
    cases hactive : channel.active with
    | false => exact h.putChannel port hactive
    | true =>
      refine ⟨?_, hport, channel, rfl⟩
      by_contra hminor
      rw [active_setChannelReg hchannel hminor, h port] at hactive
      cases hactive
  · split at hwrite
    · cases hwrite
      exact h
    · cases hwrite
      exact h
    · cases hwrite

/-- The transfer that a write starts ends with its channel done. -/
theorem Written.doDma {fuel : Nat} {b b1 b' : Bus} {offset : Word} {port : Port}
    (h : b.Written b1 offset (some port)) (hdma : b1.doDma fuel port = .ok b') :
    ∃ channel : Channel, b'.mDma = b.mDma.putChannel port channel.done := by
  obtain ⟨-, -, channel, hchannel⟩ := h
  refine ⟨channel, ?_⟩
  rw [doDma_dma hdma, hchannel, Dma.putChannel_putChannel, Dma.channel_putChannel_self]

/-- A store that returns leaves no channel active. -/
theorem setDmaReg_idle {fuel : Nat} {b b' : Bus} {offset val : Word} (h : b.mDma.Idle)
    (hset : b.setDmaReg fuel offset val = .ok b') : b'.mDma.Idle := by
  rw [setDmaReg_eq] at hset
  obtain ⟨⟨b1, started⟩, hwrite, hdma⟩ := bind_eq_ok.mp hset
  have hwritten := writeDmaReg_written h hwrite
  cases started with
  | none =>
    cases hdma
    exact hwritten
  | some port =>
    obtain ⟨channel, hdone⟩ := hwritten.doDma hdma
    rw [hdone]
    exact h.putChannel port channel.active_done

/-! ## The accesses -/

/-- The ranges that `store32` and `load32` test before the DMA registers. -/
theorem dma_apart {addr : Word} (h : offsetIn addr Map.mDma ≠ -1) :
    ∀ r ∈ [Map.mRam, Map.mBios, Map.mMemControl, Map.mRamSize, Map.mCacheControl,
      Map.mIrqControl], ¬ offsetIn addr r ≠ -1 := by
  obtain ⟨hbase, hend⟩ := offsetIn_ne_iff.mp h
  have hlo : 0x1f801080 ≤ addr.toNat := BitVec.le_def.mp hbase
  have hhi : addr.toNat < 0x1f801100 := BitVec.lt_def.mp hend
  have hends : ∀ r ∈ [Map.mRam, Map.mBios, Map.mMemControl, Map.mRamSize, Map.mCacheControl,
      Map.mIrqControl], r.mEnd.toNat ≤ 0x1f801080 ∨ 0x1f801100 ≤ r.mBase.toNat := by decide
  intro r hr hsel
  obtain ⟨hrbase, hrend⟩ := offsetIn_ne_iff.mp hsel
  rw [BitVec.le_def] at hrbase
  rw [BitVec.lt_def] at hrend
  have := hends r hr
  omega

theorem store32_dma (fuel : Nat) (b : Bus) {addr : Word} (val : Word)
    (h : offsetIn (maskRegion addr) Map.mDma ≠ -1) :
    b.store32 fuel addr val = b.setDmaReg fuel (offsetIn (maskRegion addr) Map.mDma) val := by
  have hapart := dma_apart h
  simp only [store32]
  rw [if_neg (hapart _ (by decide)), if_neg (hapart _ (by decide)), if_neg (hapart _ (by decide)),
    if_neg (hapart _ (by decide)), if_neg (hapart _ (by decide)), if_pos h]

/-- A store elsewhere does not touch the DMA registers. -/
theorem store32_dma_frame {fuel : Nat} {b b' : Bus} {addr val : Word}
    (h : ¬ offsetIn (maskRegion addr) Map.mDma ≠ -1) (hstore : b.store32 fuel addr val = .ok b') :
    b'.mDma = b.mDma := by
  have hsame : (.ok b : Result Bus) = .ok b' → b'.mDma = b.mDma := by
    intro heq
    cases heq
    rfl
  have hgpu : ∀ {x : Result Gpu}, (x >>= fun gpu => .ok { b with mGpu := gpu }) = .ok b' →
      b'.mDma = b.mDma := by
    intro x heq
    obtain ⟨_, _, hret⟩ := bind_eq_ok.mp heq
    cases hret
    rfl
  have hchecked : ∀ {p : Prop} [Decidable p] {format : String} {args : List Nat},
      (if p then panic format args else .ok b) = .ok b' → b'.mDma = b.mDma := by
    intro p _ format args heq
    split at heq
    · cases heq
    · exact hsame heq
  simp only [store32, if_neg h] at hstore
  split at hstore
  · obtain ⟨_, _, hret⟩ := bind_eq_ok.mp hstore
    cases hret
    rfl
  split at hstore
  · split at hstore
    · exact hchecked hstore
    · exact hchecked hstore
    · exact hsame hstore
  split at hstore
  · exact hsame hstore
  split at hstore
  · exact hsame hstore
  split at hstore
  · exact hsame hstore
  split at hstore
  · split at hstore
    · exact hgpu hstore
    · exact hgpu hstore
    · cases hstore
  split at hstore
  · exact hsame hstore
  · cases hstore

theorem store16_dma_frame {b b' : Bus} {addr : Word} {val : Half}
    (h : b.store16 addr val = .ok b') : b'.mDma = b.mDma := by
  simp only [store16] at h
  split at h
  · obtain ⟨_, _, hret⟩ := bind_eq_ok.mp h
    cases hret
    rfl
  split at h
  · cases h
    rfl
  split at h
  · cases h
    rfl
  split at h
  · cases h
    rfl
  · cases h

theorem store8_dma_frame {b b' : Bus} {addr : Word} {val : Byte}
    (h : b.store8 addr val = .ok b') : b'.mDma = b.mDma := by
  simp only [store8] at h
  split at h
  · obtain ⟨_, _, hret⟩ := bind_eq_ok.mp h
    cases hret
    rfl
  split at h
  · cases h
    rfl
  · cases h

end Bus

/-- An access to the bus. -/
inductive Access
  | load32 (addr : Word)
  | load16 (addr : Word)
  | load8 (addr : Word)
  | store32 (addr val : Word)
  | store16 (addr : Word) (val : Half)
  | store8 (addr : Word) (val : Byte)

/-- The access is a store to a DMA register. -/
def Access.WritesDma : Access → Prop
  | .store32 addr _ => offsetIn (maskRegion addr) Map.mDma ≠ -1
  | _ => False

namespace Bus

/-- The bus after an access. -/
def access (fuel : Nat) (b : Bus) : Access → Result Bus
  | .load32 addr => do
    let _ ← b.load32 addr
    return b
  | .load16 addr => do
    let _ ← b.load16 addr
    return b
  | .load8 addr => do
    let _ ← b.load8 addr
    return b
  | .store32 addr val => b.store32 fuel addr val
  | .store16 addr val => b.store16 addr val
  | .store8 addr val => b.store8 addr val

/-- One access that returns. -/
def Next (b b' : Bus) : Prop := ∃ fuel a, b.access fuel a = .ok b'

/-- The states of the bus after any accesses that return. -/
def Reachable (bios : Bios) (b : Bus) : Prop := Transition.Reachable Next (new bios) b

theorem access_dma_frame {fuel : Nat} {b b' : Bus} {a : Access} (h : ¬ a.WritesDma)
    (haccess : b.access fuel a = .ok b') : b'.mDma = b.mDma := by
  cases a with
  | store32 addr val => exact store32_dma_frame h haccess
  | store16 addr val => exact store16_dma_frame haccess
  | store8 addr val => exact store8_dma_frame haccess
  | load32 addr | load16 addr | load8 addr =>
    obtain ⟨_, _, hret⟩ := bind_eq_ok.mp haccess
    cases hret
    rfl

/-- **Step lemma.** -/
theorem idle_next {b b' : Bus} (h : b.mDma.Idle) (hnext : b.Next b') : b'.mDma.Idle := by
  obtain ⟨fuel, a, haccess⟩ := hnext
  by_cases hdma : a.WritesDma
  · cases a with
    | store32 addr val =>
      rw [access, store32_dma fuel b val hdma] at haccess
      exact setDmaReg_idle h haccess
    | _ => cases hdma
  · rw [access_dma_frame hdma haccess]
    exact h

/-- **Run lemma.** -/
theorem Reachable.idle {bios : Bios} {b : Bus} (h : Reachable bios b) : b.mDma.Idle :=
  h.invariant (P := fun b => b.mDma.Idle) (fun _ => rfl) fun _ _ => idle_next

end Bus

/-- A step of the machine is no access or, for its store, one. -/
theorem Machine.bus_next {m m' : Machine} (h : m.Next m') :
    m'.mBus = m.mBus ∨ m.mBus.Next m'.mBus := by
  rcases Machine.next_iff.mp h with ⟨-, rfl⟩ | ⟨instruction, e, hx⟩
  · exact .inl rfl
  · obtain ⟨fuel, hbus⟩ := hx.bus
    unfold Effect.bus at hbus
    cases hstore : e.store with
    | none =>
      rw [hstore] at hbus
      exact .inl (Except.ok.inj hbus).symm
    | some request =>
      rw [hstore] at hbus
      cases request with
      | word addr val => exact .inr ⟨fuel, .store32 addr val, hbus⟩
      | half addr val => exact .inr ⟨fuel, .store16 addr val, hbus⟩
      | byte addr val => exact .inr ⟨fuel, .store8 addr val, hbus⟩

/-- The accesses of the CPU are accesses. -/
theorem Machine.Reachable.bus {bios : Bios} {m : Machine} (h : Machine.Reachable bios m) :
    Bus.Reachable bios m.mBus := by
  have hnew : Bus.Reachable bios (Bus.new bios) := Transition.Reachable.refl _ _
  refine Transition.Reachable.invariant (P := fun m => Bus.Reachable bios m.mBus) hnew ?_ h
  intro m m' hm hnext
  rcases bus_next hnext with hsame | hbus
  · rw [hsame]
    exact hm
  · exact hm.tail hbus

namespace Bus

/-- **No channel is left running.**  In every state that accesses reach, no channel is active.  A
store to a DMA register writes it and then, only if it is the control register of a channel, may
run one transfer on that channel to its end; the other channels stay as they are. -/
theorem dma_idle {bios : Bios} {b : Bus} (h : Reachable bios b) :
    (∀ port, (b.mDma.channel port).active = false) ∧
      (∀ fuel a b', ¬ a.WritesDma → b.access fuel a = .ok b' → b'.mDma = b.mDma) ∧
      ∀ fuel addr val b', (Access.store32 addr val).WritesDma →
        b.store32 fuel addr val = .ok b' →
          ∃ b1 started, let offset := offsetIn (maskRegion addr) Map.mDma
            b.writeDmaReg offset val = .ok (b1, started) ∧
              ((started = none ∧ b' = b1) ∨ ∃ port, started = some port ∧
                (offset &&& 0xf).toNat = 8 ∧
                Port.fromIndex ((offset &&& 0x70) >>> 4) = .ok port ∧
                b1.doDma fuel port = .ok b' ∧
                (b'.mDma.channel port).mEnable = false ∧
                (b'.mDma.channel port).mTrigger = false ∧
                ∀ other ≠ port, b'.mDma.channel other = b.mDma.channel other) := by
  refine ⟨h.idle, fun fuel a b' hdma haccess => access_dma_frame hdma haccess, ?_⟩
  intro fuel addr val b' hdma hstore
  rw [store32_dma fuel b val hdma, setDmaReg_eq] at hstore
  obtain ⟨⟨b1, started⟩, hwrite, hrest⟩ := bind_eq_ok.mp hstore
  refine ⟨b1, started, hwrite, ?_⟩
  have hwritten := writeDmaReg_written h.idle hwrite
  cases started with
  | none =>
    cases hrest
    exact .inl ⟨rfl, rfl⟩
  | some port =>
    obtain ⟨channel, hdone⟩ := hwritten.doDma hrest
    obtain ⟨hminor, hport, -⟩ := hwritten
    refine .inr ⟨port, rfl, hminor, hport, hrest, ?_, ?_, ?_⟩
    · rw [hdone, Dma.channel_putChannel_self]
      rfl
    · rw [hdone, Dma.channel_putChannel_self]
      rfl
    · intro other hother
      rw [hdone, Dma.channel_putChannel_of_ne _ _ hother]

/-- The write to the control register of the OTC channel starts the transfer that clears an
ordering table of one entry; the channel is idle when the write returns. -/
theorem dma_idle_otc :
    ∃ b b1 b' : Bus, Reachable (.ofWords []) b ∧ b.store32 0 0x1f8010e8 0x11000002 = .ok b' ∧
      b.writeDmaReg 0x68 0x11000002 = .ok (b1, some .otc) ∧ b1.doDma 0 .otc = .ok b' ∧
      Reachable (.ofWords []) b' ∧ b'.mRam.mData 0 = 0xff ∧
      ∀ port, (b'.mDma.channel port).active = false := by
  have hrun : okAnd ((new (.ofWords [])).store32 0 0x1f8010e4 1) (fun b =>
      okAnd (b.writeDmaReg 0x68 0x11000002) (fun w => w.2 == some .otc) &&
        okAnd (b.store32 0 0x1f8010e8 0x11000002) (fun b' => b'.mRam.mData 0 == 0xff)) = true := by
    decide +kernel
  obtain ⟨b, hb, hrest⟩ := exists_of_okAnd hrun
  obtain ⟨hwritten, hstored⟩ := Bool.and_eq_true_iff.mp hrest
  obtain ⟨⟨b1, started⟩, hwrite, hstarted⟩ := exists_of_okAnd hwritten
  obtain ⟨b', hb', hdata⟩ := exists_of_okAnd hstored
  obtain rfl : started = some .otc := eq_of_beq hstarted
  have hreach : Reachable (.ofWords []) b :=
    (Transition.Reachable.refl _ _).tail ⟨0, .store32 0x1f8010e4 1, hb⟩
  have hreach' : Reachable (.ofWords []) b' := hreach.tail ⟨0, .store32 0x1f8010e8 0x11000002, hb'⟩
  have hdma : (Access.store32 0x1f8010e8 0x11000002).WritesDma := by
    change offsetIn (maskRegion 0x1f8010e8) Map.mDma ≠ -1
    decide
  obtain ⟨b2, started, hwrite', hdone⟩ := (dma_idle hreach).2.2 0 _ _ b' hdma hb'
  obtain ⟨rfl, rfl⟩ := Prod.mk.inj (Except.ok.inj (hwrite.symm.trans hwrite'))
  rcases hdone with ⟨hnone, -⟩ | ⟨port, hport, -, -, hdone, -⟩
  · cases hnone
  · cases hport
    exact ⟨b, b1, b', hreach, hb', hwrite, hdone, hreach', eq_of_beq hdata, (dma_idle hreach').1⟩

end Bus

end CppStation
