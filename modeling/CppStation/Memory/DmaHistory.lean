import CppStation.Memory.DmaInterrupt
import CppStation.Memory.Domain

/-!
# The registers of the DMA controller over a run

Every register reads as a function of the last value stored to it, whatever
else was accessed and transferred since.  No channel raises its interrupt flag.
-/

namespace CppStation

open Fallible Map Register

namespace Dma

/-! ## The interrupt register without flags -/

theorem flags_setInterrupt_zero {d : Dma} (h : d.mChannelIrqFlags = 0) (val : Word) :
    (d.setInterrupt val).mChannelIrqFlags = 0 := by
  apply BitVec.eq_of_getLsbD_eq
  intro c _
  rw [flags_setInterrupt, h]
  simp

/-- The register reads as it was written, with the summary in bit 31. -/
theorem interrupt_eq {d : Dma} (h : d.mChannelIrqFlags = 0) (val : Word) :
    (d.setInterrupt val).interrupt = (val &&& 0x00ff803f) ||| ((val <<< 16) &&& 0x80000000) := by
  have hflags := flags_setInterrupt_zero h val
  have hirq : (d.setInterrupt val).irq = val.getLsbD 15 := by
    rw [Bool.eq_iff_iff, interrupt_summary, hflags]
    simp
  have hwritten : ∀ i < 32, (writtenSlots.any fun s => decide (s.Covers i)) =
      (0x00ff803f : Word).getLsbD i := by decide
  have hsummary : ∀ i < 32, (0x80000000 : Word).getLsbD i = decide (i = 31) := by decide
  apply BitVec.eq_of_getLsbD_eq
  intro i hi
  rw [getLsbD_interrupt d val hi, hflags, hirq, hwritten i hi, BitVec.getLsbD_or,
    BitVec.getLsbD_and, BitVec.getLsbD_and, hsummary i hi, BitVec.getLsbD_shiftLeft]
  by_cases h31 : i = 31
  · subst h31
    simp [Bool.and_comm]
  · simp [h31, Bool.and_comm]

end Dma

namespace DmaReg

/-- What the register reads when `val` was the last value stored to it. -/
def readBack (val : Word) : DmaReg → Word
  | channel _ reg => reg.readBack val
  | control => val
  | interrupt => (val &&& 0x00ff803f) ||| ((val <<< 16) &&& 0x80000000)

/-- What the register reads when nothing was stored to it. -/
def initial : DmaReg → Word
  | control => 0x07654321
  | _ => 0

/-- The value that the access stores to the register. -/
def stored (r : DmaReg) : Access → Option Word
  | .store32 addr val => if (maskRegion addr).toNat = 0x1f801080 + r.offset then some val else none
  | _ => none

/-- The last value stored to the register; the newest access comes first. -/
def lastStored (r : DmaReg) (as : List Access) : Option Word := as.findSome? r.stored

/-- What the register reads after the accesses. -/
def reads (r : DmaReg) (as : List Access) : Word :=
  match r.lastStored as with
  | some val => r.readBack val
  | none => r.initial

theorem reads_cons (r : DmaReg) (a : Access) (as : List Access) :
    r.reads (a :: as) = match r.stored a with
      | some val => r.readBack val
      | none => r.reads as := by
  unfold reads lastStored
  rw [List.findSome?_cons]
  cases r.stored a <;> rfl

theorem stored_of_not_writesDma {a : Access} (h : ¬ a.WritesDma) (r : DmaReg) :
    r.stored a = none := by
  cases a with
  | store32 addr val =>
    refine if_neg fun haddr => h ?_
    exact offsetIn_ne_iff.mpr (DmaReg.At.contains (r := r) haddr)
  | _ => rfl

theorem stored_at {r : DmaReg} {addr : Word} (h : r.At addr) (val : Word) (r' : DmaReg) :
    r'.stored (.store32 addr val) = if r' = r then some val else none := by
  have haddr : (maskRegion addr).toNat = 0x1f801080 + r.offset := h
  simp only [stored, haddr]
  refine if_congr ⟨fun heq => ?_, fun heq => by rw [heq]⟩ rfl rfl
  exact offset_injective (by omega)

end DmaReg

namespace Bus

/-! ## Histories -/

/-- The bus after the accesses, each of which returned; the newest comes first. -/
inductive Ran (bios : Bios) : List Access → Bus → Prop
  | new : Ran bios [] (new bios)
  | access {as : List Access} {a : Access} {b b' : Bus} {fuel : Nat} : Ran bios as b →
      b.access fuel a = .ok b' → Ran bios (a :: as) b'

theorem Ran.reachable {bios : Bios} {as : List Access} {b : Bus} (h : Ran bios as b) :
    Reachable bios b := by
  induction h with
  | new => exact Transition.Reachable.refl _ _
  | access _ haccess ih => exact ih.tail ⟨_, _, haccess⟩

/-- The registers hold what the history says. -/
structure Remembers (b : Bus) (as : List Access) : Prop where
  flags : b.mDma.mChannelIrqFlags = 0
  read : ∀ r : DmaReg, r.read b.mDma = r.reads as

theorem remembers_new (bios : Bios) : (new bios).Remembers [] where
  flags := rfl
  read r := by
    have hblock : Channel.new.blockControl = 0 := by decide
    have hcontrol : Channel.new.control = 0 := by decide
    have hinterrupt : Dma.new.interrupt = 0 := by decide
    cases r with
    | channel port reg =>
      cases reg with
      | base => rfl
      | blockControl => exact hblock
      | control => exact hcontrol
    | control => rfl
    | interrupt => exact hinterrupt

/-- A store to a register of the controller. -/
theorem Remembers.store32 {bios : Bios} {fuel : Nat} {b b' : Bus} {as : List Access}
    {addr val : Word} {r : DmaReg} (h : b.Remembers as) (hreach : Reachable bios b)
    (haddr : r.At addr) (hstore : b.store32 fuel addr val = .ok b') :
    b'.Remembers (.store32 addr val :: as) := by
  have hread : ∀ r', r'.reads (.store32 addr val :: as) =
      if r' = r then r.readBack val else r'.reads as := by
    intro r'
    rw [DmaReg.reads_cons, DmaReg.stored_at haddr]
    by_cases heq : r' = r
    · rw [if_pos heq, if_pos heq, heq]
    · rw [if_neg heq, if_neg heq]
  cases r with
  | channel port reg =>
    have hidle := hreach.idle port
    obtain ⟨c, hwrite, hdma⟩ := store32_channel haddr hstore
    refine ⟨by rw [hdma]; exact h.flags, fun r' => ?_⟩
    rw [hread, hdma]
    by_cases heq : r' = .channel port reg
    · rw [if_pos heq, heq, DmaReg.read_putChannel_self, ChannelReg.read_written hidle hwrite]
      rfl
    rw [if_neg heq, ← h.read]
    by_cases hsame : ∃ other, r' = .channel port other
    · obtain ⟨other, rfl⟩ := hsame
      have hother : other ≠ reg := fun h => heq (h ▸ rfl)
      rw [DmaReg.read_putChannel_self, ChannelReg.read_other hidle hwrite hother]
      rfl
    · rw [DmaReg.read_putChannel_of_ne b.mDma _ fun other h => hsame ⟨other, h⟩]
  | control =>
    have hdma : b'.mDma = b.mDma.setControl val := by
      rw [store32_dma fuel b val (offsetIn_ne_iff.mpr haddr.contains), haddr.offsetIn] at hstore
      cases hstore
      rfl
    refine ⟨by rw [hdma]; exact h.flags, fun r' => ?_⟩
    rw [hread, hdma]
    by_cases heq : r' = .control
    · rw [if_pos heq, heq]
      rfl
    · rw [if_neg heq, ← h.read]
      cases r' with
      | control => exact absurd rfl heq
      | channel port reg => rfl
      | interrupt => rfl
  | interrupt =>
    have hdma : b'.mDma = b.mDma.setInterrupt val := by
      rw [store32_dma fuel b val (offsetIn_ne_iff.mpr haddr.contains), haddr.offsetIn] at hstore
      cases hstore
      rfl
    refine ⟨by rw [hdma]; exact Dma.flags_setInterrupt_zero h.flags val, fun r' => ?_⟩
    rw [hread, hdma]
    by_cases heq : r' = .interrupt
    · rw [if_pos heq, heq]
      exact Dma.interrupt_eq h.flags val
    · rw [if_neg heq, ← h.read]
      cases r' with
      | interrupt => exact absurd rfl heq
      | channel port reg => rfl
      | control => rfl

/-- A store to the controller that returns is to one of its registers. -/
theorem exists_register {fuel : Nat} {b b' : Bus} {addr val : Word}
    (hdma : offsetIn (maskRegion addr) Map.mDma ≠ -1) (h : b.store32 fuel addr val = .ok b') :
    ∃ r : DmaReg, r.At addr := by
  rw [store32_dma fuel b val hdma, setDmaReg_eq] at h
  obtain ⟨written, hwrite, -⟩ := bind_eq_ok.mp h
  obtain ⟨r, hr, -⟩ := (writeDmaReg_iff val (toNat_dmaOffset_lt hdma)).mp ⟨written, hwrite⟩
  refine ⟨r, ?_⟩
  have hmem := offsetIn_ne_iff.mp hdma
  rw [toNat_offsetIn hmem] at hr
  have hle := BitVec.le_def.mp hmem.1
  have hbase : Map.mDma.mBase.toNat = 0x1f801080 := rfl
  rw [hbase] at hr hle
  rw [DmaReg.At]
  omega

/-- **Step lemma.** -/
theorem Remembers.access {bios : Bios} {fuel : Nat} {b b' : Bus} {as : List Access} {a : Access}
    (h : b.Remembers as) (hreach : Reachable bios b) (haccess : b.access fuel a = .ok b') :
    b'.Remembers (a :: as) := by
  by_cases hdma : a.WritesDma
  · cases a with
    | store32 addr val =>
      obtain ⟨r, haddr⟩ := exists_register hdma haccess
      exact h.store32 hreach haddr haccess
    | _ => cases hdma
  · have hframe := access_dma_frame hdma haccess
    refine ⟨by rw [hframe]; exact h.flags, fun r => ?_⟩
    rw [hframe, DmaReg.reads_cons, DmaReg.stored_of_not_writesDma hdma r]
    exact h.read r

/-- **Run lemma.** -/
theorem Ran.remembers {bios : Bios} {as : List Access} {b : Bus} (h : Ran bios as b) :
    b.Remembers as := by
  induction h with
  | new => exact remembers_new bios
  | access hran haccess ih => exact ih.access hran.reachable haccess

/-- **The DMA controller over a run.**  After any accesses that return, a load of a register gives
its initial value, or the image of the last value stored to it: an address of 24 bits, a block
count, a control word under its mask without the bits that started its transfer, or an interrupt
word without flags. -/
theorem dma_reads {bios : Bios} {as : List Access} {b : Bus} (h : Ran bios as b) {r : DmaReg}
    {addr : Word} (haddr : r.At addr) : b.load32 addr = .ok (r.reads as) := by
  rw [load32_dmaReg b haddr, h.remembers.read r]

/-- The flags written to the interrupt register do not stay; the forced interrupt does. -/
theorem dma_reads_interrupt : ∃ b : Bus,
    Ran (.ofWords []) [.load8 0, .store32 0x1f8010f4 0x7f008000] b ∧
      b.load32 0x1f8010f4 = .ok 0x80008000 := by
  have hrun : okAnd ((new (.ofWords [])).access 0 (.store32 0x1f8010f4 0x7f008000) >>=
      fun b => b.access 0 (.load8 0)) (fun _ => true) = true := by decide +kernel
  obtain ⟨b, hb, -⟩ := exists_of_okAnd hrun
  obtain ⟨b1, hb1, hb⟩ := bind_eq_ok.mp hb
  have hran : Ran (.ofWords []) [.load8 0, .store32 0x1f8010f4 0x7f008000] b :=
    .access (.access .new hb1) hb
  have haddr : DmaReg.interrupt.At 0x1f8010f4 := by
    rw [DmaReg.At]
    decide
  exact ⟨b, hran, dma_reads hran haddr⟩

end Bus

end CppStation
