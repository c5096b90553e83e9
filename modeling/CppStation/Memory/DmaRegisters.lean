import CppStation.Memory.DmaIdle
import CppStation.Lib.Register

/-!
# The DMA registers read back

A control word is decoded into ten fields and put together again by `control`:
it reads back under a mask.  `DmaReg` names the registers of the controller by
their bus addresses; a write to one of a channel's leaves every other one as it
was.  The interrupt register does not acknowledge flags one by one.
-/

namespace CppStation

open Fallible Map Register

/-! ## A channel -/

namespace Channel

/-- The places of the fields of the control register. -/
def controlSlots : List Slot :=
  [⟨0, 1⟩, ⟨1, 1⟩, ⟨8, 1⟩, ⟨9, 2⟩, ⟨16, 3⟩, ⟨20, 3⟩, ⟨24, 1⟩, ⟨28, 1⟩, ⟨29, 2⟩]

theorem control_eq (c : Channel) : c.control = pack (w := 32)
    [⟨⟨0, 1⟩, c.mDirection.toWord⟩, ⟨⟨1, 1⟩, c.mStep.toWord⟩, ⟨⟨8, 1⟩, ofBool c.mChop⟩,
     ⟨⟨9, 2⟩, c.mSync.toWord⟩, ⟨⟨16, 3⟩, c.mChopDmaSz.setWidth 32⟩,
     ⟨⟨20, 3⟩, c.mChopCpuSz.setWidth 32⟩, ⟨⟨24, 1⟩, ofBool c.mEnable⟩,
     ⟨⟨28, 1⟩, ofBool c.mTrigger⟩, ⟨⟨29, 2⟩, c.mDummy.setWidth 32⟩] := rfl

/-- The fields that `setControl` decodes from a word. -/
structure Decodes (c c' : Channel) (val : Word) : Prop where
  direction : c'.mDirection.toWord = (val >>> 0) &&& 1
  step : c'.mStep.toWord = (val >>> 1) &&& 1
  chop : ofBool c'.mChop = (val >>> 8) &&& 1
  sync : c'.mSync.toWord = (val >>> 9) &&& 3
  chopDmaSz : c'.mChopDmaSz.setWidth 32 = (val >>> 16) &&& 7
  chopCpuSz : c'.mChopCpuSz.setWidth 32 = (val >>> 20) &&& 7
  enable : ofBool c'.mEnable = (val >>> 24) &&& 1
  trigger : ofBool c'.mTrigger = (val >>> 28) &&& 1
  dummy : c'.mDummy.setWidth 32 = (val >>> 29) &&& 3
  base : c'.mBase = c.mBase
  blockControl : c'.blockControl = c.blockControl

theorem decodes_of_setControl {c c' : Channel} {val : Word} (h : c.setControl val = .ok c') :
    Decodes c c' val := by
  have hflag : ∀ x : Word, ofBool (truth (x &&& ofBool ((1 : Word) != 0))) = x &&& 1 := ofBool_truth
  have hdirection : ∀ b : Bool, (if b then Direction.fromRam else .toRam).toWord = ofBool b := by
    decide
  have hstep : ∀ b : Bool, (if b then Step.decrement else .increment).toWord = ofBool b := by
    decide
  simp only [setControl, ok_bind] at h
  split at h
  case h_4 => exact nomatch h
  all_goals
    next heq =>
      cases h
      exact {
        direction := (hdirection _).trans (hflag _)
        step := (hstep _).trans (hflag _)
        chop := hflag _
        sync := BitVec.eq_of_toNat_eq heq.symm
        chopDmaSz := Bits.setWidth_setWidth_and _ (by decide)
        chopCpuSz := Bits.setWidth_setWidth_and _ (by decide)
        enable := hflag _
        trigger := hflag _
        dummy := Bits.setWidth_setWidth_and _ (by decide)
        base := rfl
        blockControl := rfl }

variable {c c' : Channel} {val : Word}

/-- **The control register reads back** under a mask. -/
theorem Decodes.control (h : Decodes c c' val) : c'.control = val &&& 0x71770703 := by
  have hmask : ∀ i < 32, (0x71770703 : Word).getLsbD i =
      controlSlots.any fun s => decide (s.Covers i) := by decide
  rw [control_eq, h.direction, h.step, h.chop, h.sync, h.chopDmaSz, h.chopCpuSz, h.enable,
    h.trigger, h.dummy]
  exact pack_fields hmask val

theorem control_done_eq (c : Channel) : c.done.control = pack (w := 32)
    [⟨⟨0, 1⟩, c.mDirection.toWord⟩, ⟨⟨1, 1⟩, c.mStep.toWord⟩, ⟨⟨8, 1⟩, ofBool c.mChop⟩,
     ⟨⟨9, 2⟩, c.mSync.toWord⟩, ⟨⟨16, 3⟩, c.mChopDmaSz.setWidth 32⟩,
     ⟨⟨20, 3⟩, c.mChopCpuSz.setWidth 32⟩, ⟨⟨29, 2⟩, c.mDummy.setWidth 32⟩] := by
  have hfalse : ofBool false = 0 := rfl
  simp [control, done, pack, Part.bits, hfalse]

/-- After a transfer the enable and the trigger bit are clear as well. -/
theorem Decodes.control_done (h : Decodes c c' val) :
    c'.done.control = val &&& 0x71770703 &&& ~~~0x11000000 := by
  have hmask : ∀ i < 32, (0x71770703 &&& ~~~0x11000000 : Word).getLsbD i =
      (controlSlots.filter fun s => s.offset ≠ 24 ∧ s.offset ≠ 28).any
        fun s => decide (s.Covers i) := by decide
  rw [BitVec.and_assoc, control_done_eq, h.direction, h.step, h.chop, h.sync, h.chopDmaSz,
    h.chopCpuSz, h.dummy]
  exact pack_fields hmask val

theorem flag_eq {b : Bool} {val : Word} {n : Nat} (h : ofBool b = (val >>> n) &&& 1) :
    b = val.getLsbD n := by
  have hbit := congrArg (·.getLsbD 0) h
  simp only [BitVec.getLsbD_and, BitVec.getLsbD_ushiftRight, Nat.add_zero] at hbit
  rw [show (1 : Word).getLsbD 0 = true from rfl, Bool.and_true] at hbit
  rw [← hbit]
  cases b <;> rfl

/-- The channel is started by the enable bit, and in manual mode by the trigger bit as well. -/
theorem Decodes.active (h : Decodes c c' val) :
    c'.active = (val.getLsbD 24 && (((val >>> 9) &&& 3) != 0 || val.getLsbD 28)) := by
  rw [← h.sync, ← flag_eq h.enable, ← flag_eq h.trigger, Channel.active]
  cases c'.mSync <;> rfl

theorem blockControl_setBlockControl (c : Channel) (val : Word) :
    (c.setBlockControl val).blockControl = val := by
  apply BitVec.eq_of_getLsbD_eq
  intro i hi
  simp only [blockControl, setBlockControl, BitVec.getLsbD_or, BitVec.getLsbD_shiftLeft,
    BitVec.getLsbD_setWidth, BitVec.getLsbD_ushiftRight]
  by_cases hlow : i < 16
  · simp [hlow, hi]
  · simp [hlow, hi, show i - 16 < 16 by omega, show i - 16 < 32 by omega,
      show 16 + (i - 16) = i by omega]

end Channel

/-! ## The registers on the bus -/

inductive ChannelReg
  | base
  | blockControl
  | control
  deriving DecidableEq, Repr

/-- The registers of the controller. -/
inductive DmaReg
  | channel (port : Port) (reg : ChannelReg)
  | control
  | interrupt
  deriving DecidableEq, Repr

def ChannelReg.offset : ChannelReg → Nat
  | base => 0
  | blockControl => 4
  | control => 8

def ChannelReg.read (c : Channel) : ChannelReg → Word
  | base => c.base
  | blockControl => c.blockControl
  | control => c.control

def ChannelReg.write (c : Channel) (val : Word) : ChannelReg → Result Channel
  | base => .ok (c.setBase val)
  | blockControl => .ok (c.setBlockControl val)
  | control => c.setControl val

namespace DmaReg

def offset : DmaReg → Nat
  | channel port reg => 16 * port.toNat + reg.offset
  | control => 0x70
  | interrupt => 0x74

def read (d : Dma) : DmaReg → Word
  | channel port reg => reg.read (d.channel port)
  | control => d.control
  | interrupt => d.interrupt

/-- The bus address `addr` selects the register, in any region. -/
def At (r : DmaReg) (addr : Word) : Prop := (maskRegion addr).toNat = 0x1f801080 + r.offset

theorem offset_lt (r : DmaReg) : r.offset < 0x80 := by
  cases r with
  | channel port reg => cases port <;> cases reg <;> decide
  | control => decide
  | interrupt => decide

theorem At.contains {r : DmaReg} {addr : Word} (h : r.At addr) :
    Map.mDma.mBase ≤ maskRegion addr ∧ maskRegion addr < Map.mDma.mEnd := by
  have hlt := r.offset_lt
  have hbase : Map.mDma.mBase.toNat = 0x1f801080 := rfl
  have hend : Map.mDma.mEnd.toNat = 0x1f801100 := rfl
  rw [At] at h
  rw [BitVec.le_def, BitVec.lt_def, hbase, hend]
  omega

theorem At.offsetIn {r : DmaReg} {addr : Word} (h : r.At addr) :
    offsetIn (maskRegion addr) Map.mDma = BitVec.ofNat 32 r.offset := by
  have hlt := r.offset_lt
  have hbase : Map.mDma.mBase.toNat = 0x1f801080 := rfl
  apply BitVec.eq_of_toNat_eq
  rw [toNat_offsetIn h.contains, hbase, BitVec.toNat_ofNat, Nat.mod_eq_of_lt (by omega)]
  rw [At] at h
  omega

end DmaReg

namespace Bus

theorem dmaReg_offset (b : Bus) (r : DmaReg) :
    b.dmaReg (BitVec.ofNat 32 r.offset) = .ok (r.read b.mDma) := by
  cases r with
  | channel port reg => cases port <;> cases reg <;> rfl
  | control => rfl
  | interrupt => rfl

theorem load32_dmaReg (b : Bus) {r : DmaReg} {addr : Word} (h : r.At addr) :
    b.load32 addr = .ok (r.read b.mDma) := by
  have hsel := offsetIn_ne_iff.mpr h.contains
  have hapart := dma_apart hsel
  simp only [load32]
  rw [if_neg (hapart _ (by simp)), if_neg (hapart _ (by simp)), if_neg (hapart _ (by simp)),
    if_pos hsel, h.offsetIn, dmaReg_offset]

/-- The write to a channel register, and the transfer it may start. -/
theorem setDmaReg_channel (fuel : Nat) (b : Bus) (port : Port) (reg : ChannelReg) (val : Word) :
    b.setDmaReg fuel (BitVec.ofNat 32 (DmaReg.channel port reg).offset) val =
      reg.write (b.mDma.channel port) val >>= fun channel =>
        let b1 := { b with mDma := b.mDma.putChannel port channel }
        if channel.active then b1.doDma fuel port else .ok b1 := by
  cases port <;> cases reg <;> rfl

/-- A store to a channel register leaves the channel as it was written, or as it is after its
transfer. -/
theorem store32_channel {fuel : Nat} {b b' : Bus} {port : Port} {reg : ChannelReg} {addr val : Word}
    (haddr : (DmaReg.channel port reg).At addr) (hstore : b.store32 fuel addr val = .ok b') :
    ∃ c, reg.write (b.mDma.channel port) val = .ok c ∧
      b'.mDma = b.mDma.putChannel port (if c.active then c.done else c) := by
  rw [store32_dma fuel b val (offsetIn_ne_iff.mpr haddr.contains), haddr.offsetIn,
    setDmaReg_channel] at hstore
  obtain ⟨c, hwrite, hrest⟩ := bind_eq_ok.mp hstore
  refine ⟨c, hwrite, ?_⟩
  cases hactive : c.active with
  | false =>
    simp only [hactive, Bool.false_eq_true, if_false] at hrest
    cases hrest
    rfl
  | true =>
    simp only [hactive, if_true] at hrest
    rw [doDma_dma hrest, Dma.putChannel_putChannel, Dma.channel_putChannel_self]
    rfl

end Bus

/-- The control word `val` starts a transfer. -/
def startsTransfer (val : Word) : Bool :=
  val.getLsbD 24 && (((val >>> 9) &&& 3) != 0 || val.getLsbD 28)

/-- What a channel register reads after `val` was written to it. -/
def ChannelReg.readBack (val : Word) : ChannelReg → Word
  | base => val &&& 0xffffff
  | blockControl => val
  | control =>
    if startsTransfer val then val &&& 0x71770703 &&& ~~~0x11000000 else val &&& 0x71770703

namespace ChannelReg

variable {c c' : Channel} {val : Word} {reg : ChannelReg}

theorem read_written (hidle : c.active = false) (h : reg.write c val = .ok c') :
    reg.read (if c'.active then c'.done else c') = reg.readBack val := by
  cases reg with
  | base =>
    cases h
    rw [Channel.active_setBase, hidle]
    rfl
  | blockControl =>
    cases h
    rw [Channel.active_setBlockControl, hidle]
    exact c.blockControl_setBlockControl val
  | control =>
    have hdecodes := Channel.decodes_of_setControl h
    rw [hdecodes.active]
    change (ite (startsTransfer val = true) c'.done c').control = readBack val .control
    simp only [readBack]
    split
    · exact hdecodes.control_done
    · exact hdecodes.control

/-- The other two registers of the channel. -/
theorem read_other (hidle : c.active = false) (h : reg.write c val = .ok c') {other : ChannelReg}
    (hother : other ≠ reg) : other.read (if c'.active then c'.done else c') = other.read c := by
  cases reg with
  | base =>
    cases h
    rw [Channel.active_setBase, hidle]
    cases other with
    | base => exact absurd rfl hother
    | blockControl => rfl
    | control => rfl
  | blockControl =>
    cases h
    rw [Channel.active_setBlockControl, hidle]
    cases other with
    | base => rfl
    | blockControl => exact absurd rfl hother
    | control => rfl
  | control =>
    have hdecodes := Channel.decodes_of_setControl h
    cases other with
    | base =>
      split
      · exact hdecodes.base
      · exact hdecodes.base
    | blockControl =>
      split
      · exact hdecodes.blockControl
      · exact hdecodes.blockControl
    | control => exact absurd rfl hother

end ChannelReg

namespace DmaReg

theorem read_putChannel_self (d : Dma) (port : Port) (c : Channel) (reg : ChannelReg) :
    (channel port reg).read (d.putChannel port c) = reg.read c := by
  rw [read, Dma.channel_putChannel_self]

theorem read_putChannel_of_ne (d : Dma) {port : Port} (c : Channel) {r : DmaReg}
    (h : ∀ reg, r ≠ channel port reg) : r.read (d.putChannel port c) = r.read d := by
  cases r with
  | channel other reg =>
    have hne : other ≠ port := fun heq => h reg (heq ▸ rfl)
    rw [read, Dma.channel_putChannel_of_ne d c hne, read]
  | control => rfl
  | interrupt => rfl

end DmaReg

namespace Bus

/-- **A channel register reads back what was written to it**, under its mask, and every other
register of the controller keeps its value. -/
theorem dma_readBack {bios : Bios} {fuel : Nat} {b b' : Bus} {port : Port} {reg : ChannelReg}
    {addr val : Word} (hreach : Reachable bios b) (haddr : (DmaReg.channel port reg).At addr)
    (hstore : b.store32 fuel addr val = .ok b') :
    (∀ addr', (DmaReg.channel port reg).At addr' → b'.load32 addr' = .ok (reg.readBack val)) ∧
      ∀ (r : DmaReg) (addr' : Word), r ≠ .channel port reg → r.At addr' →
        b'.load32 addr' = b.load32 addr' := by
  have hidle := hreach.idle port
  obtain ⟨c, hwrite, hdma⟩ := store32_channel haddr hstore
  constructor
  · intro addr' haddr'
    rw [load32_dmaReg b' haddr', hdma, DmaReg.read_putChannel_self,
      ChannelReg.read_written hidle hwrite]
  · intro r addr' hr haddr'
    rw [load32_dmaReg b' haddr', load32_dmaReg b haddr', hdma]
    by_cases hsame : ∃ other, r = .channel port other
    · obtain ⟨other, rfl⟩ := hsame
      have hother : other ≠ reg := fun heq => hr (heq ▸ rfl)
      rw [DmaReg.read_putChannel_self, ChannelReg.read_other hidle hwrite hother]
      rfl
    · rw [DmaReg.read_putChannel_of_ne b.mDma _ fun other heq => hsame ⟨other, heq⟩]

/-- The control word that clears an empty ordering table reads back with its enable and its
trigger bit clear. -/
theorem dma_readBack_otc :
    ∃ b' : Bus, (new (.ofWords [])).store32 0 0x1f8010e8 0x11000002 = .ok b' ∧
      b'.load32 0x1f8010e8 = .ok 2 := by
  have hrun : okAnd ((new (.ofWords [])).store32 0 0x1f8010e8 0x11000002) (fun _ => true) = true :=
    by decide +kernel
  obtain ⟨b', hb', -⟩ := exists_of_okAnd hrun
  have haddr : (DmaReg.channel .otc .control).At 0x1f8010e8 := by
    rw [DmaReg.At]
    decide
  have hback := dma_readBack (Transition.Reachable.refl _ _) haddr hb'
  exact ⟨b', hb', hback.1 _ haddr⟩

end Bus

end CppStation
