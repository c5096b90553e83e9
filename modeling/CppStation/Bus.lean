import CppStation.Gpu.Gpu
import CppStation.Memory.Dma
import CppStation.Memory.Ram

/-!
# The communications bus (`bus.hpp`, `bus.cpp`)

The linked-list DMA is a `while (true)` loop over pointers found in RAM; it
takes a bound `fuel` on the number of entries it visits, and so does every
function that can start it.  The CPU is linked to the bus in `Cpu/State`,
which puts the instruction count `mCpu.mIp` into the texts that print it.
-/

namespace CppStation

open Map

structure Bus where
  mRam : Ram
  mBios : Bios
  mDma : Dma
  mGpu : Gpu

namespace Bus

/-- The bus as constructed, with the contents of the BIOS image. -/
def new (bios : Bios) : Bus where
  mRam := Ram.new
  mBios := bios
  mDma := Dma.new
  mGpu := Gpu.new

/-! ## DMA -/

/-- Send the packet of `remsz` words that follows the header at `addr`. -/
def packetLoop (ram : Ram) : Nat → Word → Gpu → Result Gpu
  | 0, _, gpu => .ok gpu
  | remsz + 1, addr, gpu => do
    let addr := (addr + 4) &&& 0x1ffffc
    let command ← ram.load32 addr.toNat
    let gpu ← gpu.gp0 command
    packetLoop ram remsz addr gpu

-- `header & 0x800000 != 0` is `header & (0x800000 != 0)`.
def linkedListLoop (ram : Ram) : Nat → Word → Gpu → Result Gpu
  | 0, _, _ => .error .outOfFuel
  | fuel + 1, addr, gpu => do
    let header ← ram.load32 addr.toNat
    let remsz := header >>> 24
    let gpu ← packetLoop ram remsz.toNat addr gpu
    if truth (header &&& ofBool ((0x800000 : Word) != 0)) then
      return gpu
    else
      linkedListLoop ram fuel (header &&& 0x1ffffc) gpu

def doDmaLinkedList (fuel : Nat) (b : Bus) (port : Port) : Result Bus := do
  let channel := b.mDma.channel port
  let addr := channel.base &&& 0x1ffffc
  if channel.direction = .toRam then
    panic "Invalid DMA direction for linked list mode" []
  else if port ≠ .gpu then
    panic "Attempted linked list DMA on port \x7b\x7d" [port.toNat]
  else
    let gpu ← linkedListLoop b.mRam fuel addr b.mGpu
    return { b with mGpu := gpu, mDma := b.mDma.putChannel port channel.done }

/-- Move one word of a block transfer, when `remsz` words remain. -/
def blockWord (port : Port) (dir : Direction) (remsz : Nat) (addr : Word) (b : Bus) : Result Bus :=
  let curAddr := addr &&& 0x1ffffc
  match dir with
  | .fromRam => do
    let srcWord ← b.mRam.load32 curAddr.toNat
    match port with
    | .gpu => do
      let gpu ← b.mGpu.gp0 srcWord
      return { b with mGpu := gpu }
    | _ => panic "Unhandled DMA destination port \x7b\x7d" [port.toNat]
  | .toRam => do
    let srcWord ← match port with
      -- Clear ordering table: the end marker, or a pointer to the previous entry
      | .otc => (.ok (if remsz = 1 then 0xffffff else (addr - 4) &&& 0x1fffff) : Result Word)
      | _ => panic "Unhandled DMA source port \x7b\x7d" [port.toNat]
    let ram ← b.mRam.store32 curAddr.toNat srcWord
    return { b with mRam := ram }

def blockLoop (port : Port) (dir : Direction) (increment : Word) : Nat → Word → Bus → Result Bus
  | 0, _, b => .ok b
  | remsz + 1, addr, b => do
    let b ← blockWord port dir (remsz + 1) addr b
    blockLoop port dir increment remsz (addr + increment) b

def doDmaBlock (b : Bus) (port : Port) : Result Bus := do
  let channel := b.mDma.channel port
  let increment : Word :=
    match channel.step with
    | .increment => 4
    | .decrement => -4
  let addr := channel.base
  let remsz := channel.transferSize
  if remsz = -1 then
    panic "Couldn't figure out DMA block transfer size" []
  else
    let b ← blockLoop port channel.direction increment remsz.toNat addr b
    return { b with mDma := b.mDma.putChannel port channel.done }

/-- Execute DMA transfer for a port. -/
def doDma (fuel : Nat) (b : Bus) (port : Port) : Result Bus :=
  match (b.mDma.channel port).sync with
  | .linkedList => b.doDmaLinkedList fuel port
  | _ => b.doDmaBlock port

def dmaReg (b : Bus) (offset : Word) : Result Word := do
  let major := (offset &&& 0x70) >>> 4
  let minor := offset &&& 0xf
  if major.toNat < 7 then
    let port ← Port.fromIndex major
    let channel := b.mDma.channel port
    match minor.toNat with
    | 0 => return channel.base
    | 4 => return channel.blockControl
    | 8 => return channel.control
    | _ => panic "Unhandled DMA read at \x7b:x\x7d" [offset.toNat]
  else
    match minor.toNat with
    | 0 => return b.mDma.control
    | 4 => return b.mDma.interrupt
    | _ => panic "Unhandled DMA read at \x7b:x\x7d" [offset.toNat]

def badDmaWrite : String :=
  "Unhandled DMA write \x7b:x\x7d: \x7b:08x\x7d (minor = \x7b\x7d, major = \x7b\x7d, mIp = \x7b\x7d)"

/-- The register write of `setDmaReg` on one channel. -/
def setChannelReg (channel : Channel) (offset val : Word) : Result Channel :=
  let major := (offset &&& 0x70) >>> 4
  let minor := offset &&& 0xf
  match minor.toNat with
  | 0 => .ok (channel.setBase val)
  | 4 => .ok (channel.setBlockControl val)
  | 8 => channel.setControl val
  | _ => panicIp badDmaWrite [offset.toNat, val.toNat, minor.toNat, major.toNat]

def setDmaReg (fuel : Nat) (b : Bus) (offset val : Word) : Result Bus := do
  let major := (offset &&& 0x70) >>> 4
  let minor := offset &&& 0xf
  if major.toNat < 7 then
    let port ← Port.fromIndex major
    let channel ← setChannelReg (b.mDma.channel port) offset val
    let b := { b with mDma := b.mDma.putChannel port channel }
    if channel.active then b.doDma fuel port else return b
  else
    match minor.toNat with
    | 0 => return { b with mDma := b.mDma.setControl val }
    | 4 => return { b with mDma := b.mDma.setInterrupt val }
    | _ => panicIp badDmaWrite [offset.toNat, val.toNat, minor.toNat, major.toNat]

/-! ## Loads -/

def load32 (b : Bus) (addr : Word) : Result Word :=
  let absAddr := maskRegion addr
  if offsetIn absAddr Map.mRam ≠ -1 then
    b.mRam.load32 (offsetIn absAddr Map.mRam).toNat
  else if offsetIn absAddr Map.mBios ≠ -1 then
    b.mBios.load32 (offsetIn absAddr Map.mBios).toNat
  else if offsetIn absAddr Map.mIrqControl ≠ -1 then
    .ok 0
  else if offsetIn absAddr Map.mDma ≠ -1 then
    b.dmaReg (offsetIn absAddr Map.mDma)
  else if offsetIn absAddr Map.mGpu ≠ -1 then
    match (offsetIn absAddr Map.mGpu).toNat with
    | 0 => .ok b.mGpu.read
    | 4 => .ok b.mGpu.status
    | offset => panic "Unhandled GPU read \x7b\x7d" [offset]
  else if offsetIn absAddr Map.mTimers ≠ -1 then
    .ok 0
  else
    panic "load32: Unhandled load32 at address \x7b:08x\x7d" [absAddr.toNat]

/-- A load that returns is from one of the mapped ranges. -/
theorem load32_mapped {b : Bus} {addr v : Word} (h : b.load32 addr = .ok v) :
    ∃ r ∈ [Map.mRam, Map.mBios, Map.mIrqControl, Map.mDma, Map.mGpu, Map.mTimers],
      r.mBase ≤ maskRegion addr ∧ maskRegion addr < r.mEnd := by
  simp only [← offsetIn_ne_iff]
  unfold load32 at h
  by_contra hn
  simp only [List.mem_cons, List.not_mem_nil, or_false, exists_eq_or_imp, exists_eq_left,
    not_or] at hn
  obtain ⟨h₁, h₂, h₃, h₄, h₅, h₆⟩ := hn
  simp only [if_neg h₁, if_neg h₂, if_neg h₃, if_neg h₄, if_neg h₅, if_neg h₆] at h
  cases h

def load16 (b : Bus) (addr : Word) : Result Half :=
  let absAddr := maskRegion addr
  if offsetIn absAddr Map.mRam ≠ -1 then
    b.mRam.load16 (offsetIn absAddr Map.mRam).toNat
  else if offsetIn absAddr Map.mSpu ≠ -1 then
    .ok 0
  else if offsetIn absAddr Map.mIrqControl ≠ -1 then
    .ok 0
  else
    panic "unhandled load16 at address \x7b:08x\x7d" [addr.toNat]

def load8 (b : Bus) (addr : Word) : Result Byte :=
  let absAddr := maskRegion addr
  if offsetIn absAddr Map.mRam ≠ -1 then
    b.mRam.load8 (offsetIn absAddr Map.mRam).toNat
  else if offsetIn absAddr Map.mBios ≠ -1 then
    b.mBios.load8 (offsetIn absAddr Map.mBios).toNat
  else if offsetIn absAddr Map.mExpansion1 ≠ -1 then
    -- No expansion implemented
    .ok 0xff
  else
    panic "unhandled load8 at address \x7b:08x\x7d" [addr.toNat]

/-! ## Stores -/

def store32 (fuel : Nat) (b : Bus) (addr val : Word) : Result Bus :=
  let absAddr := maskRegion addr
  if offsetIn absAddr Map.mRam ≠ -1 then do
    let ram ← b.mRam.store32 (offsetIn absAddr Map.mRam).toNat val
    return { b with mRam := ram }
  else if offsetIn absAddr Map.mMemControl ≠ -1 then
    match (offsetIn absAddr Map.mMemControl).toNat with
    | 0 =>
      if val ≠ 0x1f000000 then panic "Bad expansion 1 base address: 0x\x7b:08x\x7d" [val.toNat]
      else .ok b
    | 4 =>
      if val ≠ 0x1f802000 then panic "Bad expansion 2 base address: 0x\x7b:08x\x7d" [val.toNat]
      else .ok b
    | _ => .ok b
  else if offsetIn absAddr Map.mRamSize ≠ -1 then
    .ok b
  else if offsetIn absAddr Map.mCacheControl ≠ -1 then
    .ok b
  else if offsetIn absAddr Map.mIrqControl ≠ -1 then
    .ok b
  else if offsetIn absAddr Map.mDma ≠ -1 then
    b.setDmaReg fuel (offsetIn absAddr Map.mDma) val
  else if offsetIn absAddr Map.mGpu ≠ -1 then
    match (offsetIn absAddr Map.mGpu).toNat with
    | 0 => do
      let gpu ← b.mGpu.gp0 val
      return { b with mGpu := gpu }
    | 4 => do
      let gpu ← b.mGpu.gp1 val
      return { b with mGpu := gpu }
    | offset => panic "GPU write \x7b\x7d: \x7b:08x\x7d" [offset, val.toNat]
  else if offsetIn absAddr Map.mTimers ≠ -1 then
    .ok b
  else
    panic "unhandled store32 into address \x7b:08x\x7d" [absAddr.toNat]

def store16 (b : Bus) (addr : Word) (val : Half) : Result Bus :=
  let absAddr := maskRegion addr
  if offsetIn absAddr Map.mRam ≠ -1 then do
    let ram ← b.mRam.store16 (offsetIn absAddr Map.mRam).toNat val
    return { b with mRam := ram }
  else if offsetIn absAddr Map.mSpu ≠ -1 then
    .ok b
  else if offsetIn absAddr Map.mTimers ≠ -1 then
    .ok b
  else if offsetIn absAddr Map.mIrqControl ≠ -1 then
    .ok b
  else
    panic "unhandled store16 into address \x7b:08x\x7d" [addr.toNat]

def store8 (b : Bus) (addr : Word) (val : Byte) : Result Bus :=
  let absAddr := maskRegion addr
  if offsetIn absAddr Map.mRam ≠ -1 then do
    let ram ← b.mRam.store8 (offsetIn absAddr Map.mRam).toNat val
    return { b with mRam := ram }
  else if offsetIn absAddr Map.mExpansion2 ≠ -1 then
    .ok b
  else
    panic "unhandled store8 into address \x7b:08x\x7d: \x7b:02x\x7d" [addr.toNat, val.toNat]

end Bus

end CppStation
