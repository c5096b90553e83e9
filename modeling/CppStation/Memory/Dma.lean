import CppStation.Basic
import Mathlib.Logic.Function.Basic

/-! # DMA registers and channels (`memory/dma.hpp`, `memory/dma.cpp`) -/

namespace CppStation

inductive Direction
  | toRam
  | fromRam
  deriving DecidableEq, Repr

inductive Step
  | increment
  | decrement
  deriving DecidableEq, Repr

inductive Sync
  | manual
  | request
  | linkedList
  deriving DecidableEq, Repr

/-- The 7 DMA ports. -/
inductive Port
  | mdecIn
  | mdecOut
  | gpu
  | cdRom
  | spu
  | pio
  | otc
  deriving DecidableEq, Repr

def Direction.toWord : Direction → Word
  | .toRam => 0
  | .fromRam => 1

def Step.toWord : Step → Word
  | .increment => 0
  | .decrement => 1

def Sync.toWord : Sync → Word
  | .manual => 0
  | .request => 1
  | .linkedList => 2

def Port.toNat : Port → Nat
  | .mdecIn => 0
  | .mdecOut => 1
  | .gpu => 2
  | .cdRom => 3
  | .spu => 4
  | .pio => 5
  | .otc => 6

def Port.fromIndex (index : Word) : Result Port :=
  match index.toNat with
  | 0 => .ok .mdecIn
  | 1 => .ok .mdecOut
  | 2 => .ok .gpu
  | 3 => .ok .cdRom
  | 4 => .ok .spu
  | 5 => .ok .pio
  | 6 => .ok .otc
  | _ => panic "Invalid port \x7b\x7d" [index.toNat]

/-! ## One channel -/

structure Channel where
  mEnable : Bool
  mDirection : Direction
  mStep : Step
  mSync : Sync
  mTrigger : Bool
  mChop : Bool
  mChopDmaSz : Byte
  mChopCpuSz : Byte
  mBase : Word
  mBlockSize : Half
  mBlockCount : Half
  mDummy : Byte
  deriving DecidableEq, Repr

namespace Channel

def new : Channel where
  mEnable := false
  mDirection := .toRam
  mStep := .increment
  mSync := .manual
  mTrigger := false
  mChop := false
  mChopDmaSz := 0
  mChopCpuSz := 0
  mBase := 0
  mBlockSize := 0
  mBlockCount := 0
  mDummy := 0

def base (c : Channel) : Word := c.mBase

/-- Only bits [0:23] are significant. -/
def setBase (c : Channel) (val : Word) : Channel := { c with mBase := val &&& 0xffffff }

def control (c : Channel) : Word :=
  let r : Word := 0
  let r := r ||| (c.mDirection.toWord <<< 0)
  let r := r ||| (c.mStep.toWord <<< 1)
  let r := r ||| (ofBool c.mChop <<< 8)
  let r := r ||| (c.mSync.toWord <<< 9)
  let r := r ||| (c.mChopDmaSz.setWidth 32 <<< 16)
  let r := r ||| (c.mChopCpuSz.setWidth 32 <<< 20)
  let r := r ||| (ofBool c.mEnable <<< 24)
  let r := r ||| (ofBool c.mTrigger <<< 28)
  let r := r ||| (c.mDummy.setWidth 32 <<< 29)
  r

-- `!=` binds tighter than `&` in C++: `val & 1 != 0` is `val & (1 != 0)`.
def setControl (c : Channel) (val : Word) : Result Channel := do
  let c := { c with
    mDirection := if truth (val &&& ofBool ((1 : Word) != 0)) then .fromRam else .toRam }
  let c := { c with
    mStep := if truth ((val >>> 1) &&& ofBool ((1 : Word) != 0)) then .decrement else .increment }
  let c := { c with mChop := truth ((val >>> 8) &&& ofBool ((1 : Word) != 0)) }
  let n := (val >>> 9) &&& 3
  let sync ← match n.toNat with
    | 0 => (.ok .manual : Result Sync)
    | 1 => .ok .request
    | 2 => .ok .linkedList
    | _ => panic "Unknown DMA sync mode \x7b\x7d" [n.toNat]
  let c := { c with mSync := sync }
  let c := { c with mChopDmaSz := ((val >>> 16) &&& 7).setWidth 8 }
  let c := { c with mChopCpuSz := ((val >>> 20) &&& 7).setWidth 8 }
  let c := { c with mEnable := truth ((val >>> 24) &&& ofBool ((1 : Word) != 0)) }
  let c := { c with mTrigger := truth ((val >>> 28) &&& ofBool ((1 : Word) != 0)) }
  return { c with mDummy := ((val >>> 29) &&& 3).setWidth 8 }

def blockControl (c : Channel) : Word :=
  let bs : Word := c.mBlockSize.setWidth 32
  let bc : Word := c.mBlockCount.setWidth 32
  (bc <<< 16) ||| bs

def setBlockControl (c : Channel) (val : Word) : Channel :=
  { c with mBlockSize := val.setWidth 16, mBlockCount := (val >>> 16).setWidth 16 }

/-- In manual mode the CPU must also set the trigger bit. -/
def active (c : Channel) : Bool :=
  let trigger :=
    match c.mSync with
    | .manual => c.mTrigger
    | _ => true
  c.mEnable && trigger

/-- Set the channel status to "completed" state. -/
def done (c : Channel) : Channel := { c with mEnable := false, mTrigger := false }

def direction (c : Channel) : Direction := c.mDirection

def step (c : Channel) : Step := c.mStep

def sync (c : Channel) : Sync := c.mSync

/-- The transfer size in words, `-1` for linked list mode; the product is an
`int` product of two promoted 16-bit values. -/
def transferSize (c : Channel) : Word :=
  match c.mSync with
  | .manual => c.mBlockSize.setWidth 32
  | .request => c.mBlockCount.setWidth 32 * c.mBlockSize.setWidth 32
  | .linkedList => -1

end Channel

/-! ## The controller -/

structure Dma where
  mControl : Word
  mIrqEn : Bool
  mChannelIrqEn : Byte
  mChannelIrqFlags : Byte
  mForceIrq : Bool
  mIrqDummy : Byte
  mChannels : Port → Channel

namespace Dma

/-- Reset value of the control register taken from the Nocash PSX spec. -/
def new : Dma where
  mControl := 0x07654321
  mIrqEn := false
  mChannelIrqEn := 0
  mChannelIrqFlags := 0
  mForceIrq := false
  mIrqDummy := 0
  mChannels := fun _ => Channel.new

def irq (d : Dma) : Bool :=
  let channelIrq := d.mChannelIrqFlags &&& d.mChannelIrqEn
  d.mForceIrq || (d.mIrqEn && channelIrq != 0)

def control (d : Dma) : Word := d.mControl

def setControl (d : Dma) (val : Word) : Dma := { d with mControl := val }

def interrupt (d : Dma) : Word :=
  let r : Word := 0
  let r := r ||| d.mIrqDummy.setWidth 32
  let r := r ||| (ofBool d.mForceIrq <<< 15)
  let r := r ||| (d.mChannelIrqEn.setWidth 32 <<< 16)
  let r := r ||| (ofBool d.mIrqEn <<< 23)
  let r := r ||| (d.mChannelIrqFlags.setWidth 32 <<< 24)
  let r := r ||| (ofBool d.irq <<< 31)
  r

def setInterrupt (d : Dma) (val : Word) : Dma :=
  let d := { d with mIrqDummy := (val &&& 0x3f).setWidth 8 }
  let d := { d with mForceIrq := truth ((val >>> 15) &&& ofBool ((1 : Word) != 0)) }
  let d := { d with mChannelIrqEn := ((val >>> 16) &&& 0x7f).setWidth 8 }
  let d := { d with mIrqEn := truth ((val >>> 23) &&& ofBool ((1 : Word) != 0)) }
  -- Writing 1 to a flag resets it
  let ack : Byte := ((val >>> 24) &&& 0x3f).setWidth 8
  { d with mChannelIrqFlags := (d.mChannelIrqFlags.setWidth 32 &&& lnot (ack.setWidth 32)).setWidth 8 }

/-- The channel of a port. -/
def channel (d : Dma) (port : Port) : Channel := d.mChannels port

/-- Store a channel back; the source updates it through a pointer. -/
def putChannel (d : Dma) (port : Port) (c : Channel) : Dma :=
  { d with mChannels := Function.update d.mChannels port c }

@[simp] theorem channel_putChannel_self (d : Dma) (port : Port) (c : Channel) :
    (d.putChannel port c).channel port = c := by
  simp [putChannel, channel]

end Dma

end CppStation
