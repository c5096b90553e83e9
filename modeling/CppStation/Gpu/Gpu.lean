import CppStation.Gpu.Renderer
import CppStation.Lib.Fallible
import Mathlib.Algebra.GroupWithZero.Nat

/-!
# The GPU registers and command ports (`gpu/gpu.hpp`, `gpu/gpu.cpp`)

Two fields of `Gpu` are history variables and not in the source: `received`,
the words `gp0` was called with, and `handled`, the handlers it ran with the
words that were in the command buffer.  Nothing reads them.
-/

namespace CppStation

inductive Gp0Mode
  | command
  | imageLoad
  deriving DecidableEq, Repr

inductive TextureDepth
  | t4Bit
  | t8Bit
  | t15Bit
  deriving DecidableEq, Repr

inductive Field
  | top
  | bottom
  deriving DecidableEq, Repr

inductive VerticalRes
  | y240Lines
  | y480Lines
  deriving DecidableEq, Repr

inductive VMode
  | ntsc
  | pal
  deriving DecidableEq, Repr

inductive DisplayDepth
  | d15Bits
  | d24Bits
  deriving DecidableEq, Repr

inductive DmaDirection
  | off
  | fifo
  | cpuToGp0
  | vRamToCpu
  deriving DecidableEq, Repr

def TextureDepth.toWord : TextureDepth → Word
  | .t4Bit => 0
  | .t8Bit => 1
  | .t15Bit => 2

def Field.toWord : Field → Word
  | .top => 1
  | .bottom => 0

def VMode.toWord : VMode → Word
  | .ntsc => 0
  | .pal => 1

def DisplayDepth.toWord : DisplayDepth → Word
  | .d15Bits => 0
  | .d24Bits => 1

def DmaDirection.toWord : DmaDirection → Word
  | .off => 0
  | .fifo => 1
  | .cpuToGp0 => 2
  | .vRamToCpu => 3

structure HorizontalRes where
  mHr : Byte
  deriving DecidableEq, Repr

namespace HorizontalRes

def fromFields (hr1 hr2 : Byte) : Byte := (hr2 &&& 1) ||| ((hr1 &&& 3) <<< 1)

def infoStatus (h : HorizontalRes) : Word := h.mHr.setWidth 32 <<< 16

end HorizontalRes

/-! ## The command buffer -/

/-- The command buffer has 12 entries. -/
instance instNeZeroEntries : NeZero 12 := ⟨Nat.succ_ne_zero 11⟩

structure CommandBuffer where
  mBuffer : Fin 12 → Word
  mLen : Byte

namespace CommandBuffer

def new : CommandBuffer := ⟨fun _ => 0, 0⟩

def clear (b : CommandBuffer) : CommandBuffer := { b with mLen := 0 }

def pushWord (b : CommandBuffer) (word : Word) : Result CommandBuffer :=
  if h : b.mLen.toNat < 12 then
    .ok ⟨Function.update b.mBuffer ⟨b.mLen.toNat, h⟩ word, b.mLen + 1⟩
  else
    .error (.outOfBounds .commandBuffer b.mLen.toNat)

/-- `operator[]`; the program uses it with constant indices only. -/
def get (b : CommandBuffer) (index : Fin 12) : Word := b.mBuffer index

/-- The words queued in the buffer. -/
def words (b : CommandBuffer) : List Word := (List.ofFn b.mBuffer).take b.mLen.toNat

end CommandBuffer

/-- The methods that `mGp0CommandMethod` can point to. -/
inductive Gp0Method
  | gp0Nop
  | gp0ClearCache
  | gp0QuadMonoOpaque
  | gp0QuadTextureBlendOpaque
  | gp0TriangleShadedOpaque
  | gp0QuadShadedOpaque
  | gp0ImageLoad
  | gp0ImageStore
  | gp0DrawMode
  | gp0TextureWindow
  | gp0DrawingAreaTopLeft
  | gp0DrawingAreaBottomRight
  | gp0DrawingOffset
  | gp0MaskBitSetting
  deriving DecidableEq, Repr

structure Gpu where
  mRenderer : Renderer
  mPageBaseX : Byte
  mPageBaseY : Byte
  mRectangleTextureXFlip : Bool
  mRectangleTextureYFlip : Bool
  mSemiTransparency : Byte
  mTextureDepth : TextureDepth
  mTextureWindowXMask : Byte
  mTextureWindowYMask : Byte
  mTextureWindowXOffset : Byte
  mTextureWindowYOffset : Byte
  mDithering : Bool
  mDrawToDisplay : Bool
  mForceSetMaskBit : Bool
  mPreserveMaskedPixels : Bool
  mDrawingAreaLeft : Half
  mDrawingAreaTop : Half
  mDrawingAreaRight : Half
  mDrawingAreaBottom : Half
  mDrawingXOffset : Half
  mDrawingYOffset : Half
  mField : Field
  mTextureDisable : Bool
  mHres : HorizontalRes
  mVres : VerticalRes
  mVmode : VMode
  mDisplayDepth : DisplayDepth
  mInterlaced : Bool
  mDisplayDisabled : Bool
  mDisplayVramXStart : Half
  mDisplayVramYStart : Half
  mDisplayHorizStart : Half
  mDisplayHorizEnd : Half
  mDisplayLineStart : Half
  mDisplayLineEnd : Half
  mInterrupt : Bool
  mDmaDirection : DmaDirection
  mGp0Command : CommandBuffer
  mGp0WordsRemaining : Word
  mGp0CommandMethod : Gp0Method
  mGp0Mode : Gp0Mode
  received : List Word
  handled : List (Gp0Method × List Word)

namespace Gpu

def new : Gpu where
  mRenderer := Renderer.new
  mPageBaseX := 0
  mPageBaseY := 0
  mRectangleTextureXFlip := false
  mRectangleTextureYFlip := false
  mSemiTransparency := 0
  mTextureDepth := .t4Bit
  mTextureWindowXMask := 0
  mTextureWindowYMask := 0
  mTextureWindowXOffset := 0
  mTextureWindowYOffset := 0
  mDithering := false
  mDrawToDisplay := false
  mForceSetMaskBit := false
  mPreserveMaskedPixels := false
  mDrawingAreaLeft := 0
  mDrawingAreaTop := 0
  mDrawingAreaRight := 0
  mDrawingAreaBottom := 0
  mDrawingXOffset := 0
  mDrawingYOffset := 0
  mField := .top
  mTextureDisable := false
  mHres := ⟨HorizontalRes.fromFields 0 0⟩
  mVres := .y240Lines
  mVmode := .ntsc
  mDisplayDepth := .d15Bits
  mInterlaced := false
  mDisplayDisabled := true
  mDisplayVramXStart := 0
  mDisplayVramYStart := 0
  mDisplayHorizStart := 0x200
  mDisplayHorizEnd := 0xc00
  mDisplayLineStart := 0x10
  mDisplayLineEnd := 0x100
  mInterrupt := false
  mDmaDirection := .off
  mGp0Command := CommandBuffer.new
  mGp0WordsRemaining := 0
  mGp0CommandMethod := .gp0Nop
  mGp0Mode := .command
  received := []
  handled := []

/-! ## Register reads -/

def status (g : Gpu) : Word :=
  let r : Word := 0
  let r := r ||| (g.mPageBaseX.setWidth 32 <<< 0)
  let r := r ||| (g.mPageBaseY.setWidth 32 <<< 4)
  let r := r ||| (g.mSemiTransparency.setWidth 32 <<< 5)
  let r := r ||| (g.mTextureDepth.toWord <<< 7)
  let r := r ||| (ofBool g.mDithering <<< 9)
  let r := r ||| (ofBool g.mDrawToDisplay <<< 10)
  let r := r ||| (ofBool g.mForceSetMaskBit <<< 11)
  let r := r ||| (ofBool g.mPreserveMaskedPixels <<< 12)
  let r := r ||| (g.mField.toWord <<< 13)
  -- Bit 14: not supported
  let r := r ||| (ofBool g.mTextureDisable <<< 15)
  let r := r ||| g.mHres.infoStatus
  let r := r ||| (g.mVmode.toWord <<< 20)
  let r := r ||| (g.mDisplayDepth.toWord <<< 21)
  let r := r ||| (ofBool g.mInterlaced <<< 22)
  let r := r ||| (ofBool g.mDisplayDisabled <<< 23)
  let r := r ||| (ofBool g.mInterrupt <<< 24)
  let r := r ||| ((1 : Word) <<< 26)
  let r := r ||| ((1 : Word) <<< 27)
  let r := r ||| ((1 : Word) <<< 28)
  let r := r ||| (g.mDmaDirection.toWord <<< 29)
  let r := r ||| ((0 : Word) <<< 31)
  let dmaRequest : Byte :=
    match g.mDmaDirection with
    | .off => 0
    | .fifo => 1
    | .cpuToGp0 => ((r >>> 28) &&& 1).setWidth 8
    | .vRamToCpu => ((r >>> 27) &&& 1).setWidth 8
  r ||| (dmaRequest.setWidth 32 <<< 25)

/-- Not implemented by the program. -/
def read (_ : Gpu) : Word := 0

/-! ## GP0 handlers -/

def gp0DrawMode (g : Gpu) : Result Gpu := do
  let val := g.mGp0Command.get 0
  let g := { g with mPageBaseX := (val &&& 0xf).setWidth 8 }
  let g := { g with mPageBaseY := ((val >>> 4) &&& 1).setWidth 8 }
  let g := { g with mSemiTransparency := ((val >>> 5) &&& 3).setWidth 8 }
  let tmpVal := (val >>> 7) &&& 3
  let depth ← match tmpVal.toNat with
    | 0 => (.ok .t4Bit : Result TextureDepth)
    | 1 => .ok .t8Bit
    | 2 => .ok .t15Bit
    | _ => panic "Unhandled texture depth \x7b\x7d" [tmpVal.toNat]
  let g := { g with mTextureDepth := depth }
  let g := { g with mDithering := ((val >>> 9) &&& 1) != 0 }
  let g := { g with mDrawToDisplay := ((val >>> 10) &&& 1) != 0 }
  let g := { g with mTextureDisable := ((val >>> 11) &&& 1) != 0 }
  let g := { g with mRectangleTextureXFlip := ((val >>> 12) &&& 1) != 0 }
  return { g with mRectangleTextureYFlip := ((val >>> 13) &&& 1) != 0 }

/-- Command word `i` of the buffer as a position. -/
def position (g : Gpu) (i : Fin 12) : Position := Position.fromPacked (g.mGp0Command.get i)

/-- Command word `i` of the buffer as a color. -/
def color (g : Gpu) (i : Fin 12) : Color := Color.fromPacked (g.mGp0Command.get i)

def gp0QuadMonoOpaque (g : Gpu) : Result Gpu := do
  let color := g.color 0
  let v1 : Vertex := ⟨g.position 1, color⟩
  let v2 : Vertex := ⟨g.position 2, color⟩
  let v3 : Vertex := ⟨g.position 3, color⟩
  let v4 : Vertex := ⟨g.position 4, color⟩
  let r ← g.mRenderer.pushQuad v1 v2 v3 v4
  return { g with mRenderer := r }

def gp0QuadTextureBlendOpaque (g : Gpu) : Result Gpu := do
  -- The solid red color (1.0f, 0.0f, 0.0f)
  let color : Color := ⟨255, 0, 0⟩
  let v1 : Vertex := ⟨g.position 1, color⟩
  let v2 : Vertex := ⟨g.position 3, color⟩
  let v3 : Vertex := ⟨g.position 5, color⟩
  let v4 : Vertex := ⟨g.position 7, color⟩
  let r ← g.mRenderer.pushQuad v1 v2 v3 v4
  return { g with mRenderer := r }

def gp0TriangleShadedOpaque (g : Gpu) : Result Gpu := do
  let v1 : Vertex := ⟨g.position 1, g.color 0⟩
  let v2 : Vertex := ⟨g.position 3, g.color 2⟩
  let v3 : Vertex := ⟨g.position 5, g.color 4⟩
  let r ← g.mRenderer.pushTriangle v1 v2 v3
  return { g with mRenderer := r }

def gp0QuadShadedOpaque (g : Gpu) : Result Gpu := do
  let v1 : Vertex := ⟨g.position 1, g.color 0⟩
  let v2 : Vertex := ⟨g.position 3, g.color 2⟩
  let v3 : Vertex := ⟨g.position 5, g.color 4⟩
  let v4 : Vertex := ⟨g.position 7, g.color 6⟩
  let r ← g.mRenderer.pushQuad v1 v2 v3 v4
  return { g with mRenderer := r }

/-- Number of words that carry the image whose resolution word is `res`. -/
def imageWords (res : Word) : Word :=
  let width := res &&& 0xffff
  let height := res >>> 16
  let imgsize := width * height
  -- An odd number of 16-bit pixels is rounded up
  let imgsize := (imgsize + 1) &&& ~~~1
  imgsize / 2

def gp0ImageLoad (g : Gpu) : Gpu :=
  let res := g.mGp0Command.get 2
  { g with mGp0WordsRemaining := imageWords res, mGp0Mode := .imageLoad }

def gp0TextureWindow (g : Gpu) : Gpu :=
  let val := g.mGp0Command.get 0
  { g with
    mTextureWindowXMask := (val &&& 0x1f).setWidth 8
    mTextureWindowYMask := ((val >>> 5) &&& 0x1f).setWidth 8
    mTextureWindowXOffset := ((val >>> 10) &&& 0x1f).setWidth 8
    mTextureWindowYOffset := ((val >>> 15) &&& 0x1f).setWidth 8 }

def gp0DrawingAreaTopLeft (g : Gpu) : Gpu :=
  let val := g.mGp0Command.get 0
  { g with
    mDrawingAreaTop := ((val >>> 10) &&& 0x3ff).setWidth 16
    mDrawingAreaLeft := (val &&& 0x3ff).setWidth 16 }

def gp0DrawingAreaBottomRight (g : Gpu) : Gpu :=
  let val := g.mGp0Command.get 0
  { g with
    mDrawingAreaBottom := ((val >>> 10) &&& 0x3ff).setWidth 16
    mDrawingAreaRight := (val &&& 0x3ff).setWidth 16 }

def gp0DrawingOffset (g : Gpu) : Gpu :=
  let val := g.mGp0Command.get 0
  let x : Half := (val &&& 0x7ff).setWidth 16
  let y : Half := ((val >>> 11) &&& 0x7ff).setWidth 16
  -- 11-bit two's complement values, sign-extended through the top of the half word
  { g with
    mDrawingXOffset := (x <<< 5).sshiftRight 5
    mDrawingYOffset := (y <<< 5).sshiftRight 5
    mRenderer := g.mRenderer.display }

def gp0MaskBitSetting (g : Gpu) : Gpu :=
  let val := g.mGp0Command.get 0
  { g with
    mForceSetMaskBit := (val &&& 1) != 0
    mPreserveMaskedPixels := (val &&& 2) != 0 }

/-- Run a handler. -/
def call (g : Gpu) (method : Gp0Method) : Result Gpu :=
  match method with
  | .gp0Nop => .ok g
  | .gp0ClearCache => .ok g
  | .gp0QuadMonoOpaque => g.gp0QuadMonoOpaque
  | .gp0QuadTextureBlendOpaque => g.gp0QuadTextureBlendOpaque
  | .gp0TriangleShadedOpaque => g.gp0TriangleShadedOpaque
  | .gp0QuadShadedOpaque => g.gp0QuadShadedOpaque
  | .gp0ImageLoad => .ok g.gp0ImageLoad
  -- The image store only prints its size
  | .gp0ImageStore => .ok g
  | .gp0DrawMode => g.gp0DrawMode
  | .gp0TextureWindow => .ok g.gp0TextureWindow
  | .gp0DrawingAreaTopLeft => .ok g.gp0DrawingAreaTopLeft
  | .gp0DrawingAreaBottomRight => .ok g.gp0DrawingAreaBottomRight
  | .gp0DrawingOffset => .ok g.gp0DrawingOffset
  | .gp0MaskBitSetting => .ok g.gp0MaskBitSetting

/-! ## The GP0 port -/

/-- The length and the handler of the command that a first word starts. -/
def command (val : Word) : Result (Word × Gp0Method) :=
  let opcode := (val >>> 24) &&& 0xff
  match opcode.toNat with
  | 0x00 => .ok (1, .gp0Nop)
  | 0x01 => .ok (1, .gp0ClearCache)
  | 0x28 => .ok (5, .gp0QuadMonoOpaque)
  | 0x2c => .ok (9, .gp0QuadTextureBlendOpaque)
  | 0x30 => .ok (6, .gp0TriangleShadedOpaque)
  | 0x38 => .ok (8, .gp0QuadShadedOpaque)
  | 0xa0 => .ok (3, .gp0ImageLoad)
  | 0xc0 => .ok (3, .gp0ImageStore)
  | 0xe1 => .ok (1, .gp0DrawMode)
  | 0xe2 => .ok (1, .gp0TextureWindow)
  | 0xe3 => .ok (1, .gp0DrawingAreaTopLeft)
  | 0xe4 => .ok (1, .gp0DrawingAreaBottomRight)
  | 0xe5 => .ok (1, .gp0DrawingOffset)
  | 0xe6 => .ok (1, .gp0MaskBitSetting)
  | _ => panic "Unhandled GP0 command \x7b:08x\x7d" [val.toNat]

/-- Start a new command if no word of the last one is missing. -/
def startCommand (g : Gpu) (val : Word) : Result Gpu :=
  if g.mGp0WordsRemaining = 0 then do
    let (length, method) ← command val
    return { g with
      mGp0WordsRemaining := length
      mGp0CommandMethod := method
      mGp0Command := g.mGp0Command.clear }
  else
    .ok g

/-- What `gp0` does with the word once the command is known. -/
def acceptWord (g : Gpu) (val : Word) : Result Gpu :=
  let g := { g with mGp0WordsRemaining := g.mGp0WordsRemaining - 1 }
  match g.mGp0Mode with
  | .command => do
    let buffer ← g.mGp0Command.pushWord val
    let g := { g with mGp0Command := buffer }
    if g.mGp0WordsRemaining = 0 then
      let g := { g with handled := g.handled ++ [(g.mGp0CommandMethod, g.mGp0Command.words)] }
      g.call g.mGp0CommandMethod
    else
      return g
  | .imageLoad =>
    if g.mGp0WordsRemaining = 0 then .ok { g with mGp0Mode := .command } else .ok g

def gp0 (g : Gpu) (val : Word) : Result Gpu := do
  let g := { g with received := g.received ++ [val] }
  let g ← g.startCommand val
  g.acceptWord val

/-! ## The GP1 port -/

def gp1ResetCommandBuffer (g : Gpu) : Gpu :=
  { g with
    mGp0Command := g.mGp0Command.clear
    mGp0WordsRemaining := 0
    mGp0Mode := .command }

def gp1AcknowledgeIrq (g : Gpu) : Gpu := { g with mInterrupt := false }

def gp1Reset (g : Gpu) (_ : Word) : Gpu :=
  let g := { g with
    mInterrupt := false
    mPageBaseX := 0
    mPageBaseY := 0
    mSemiTransparency := 0
    mTextureDepth := .t4Bit
    mTextureWindowXMask := 0
    mTextureWindowYMask := 0
    mTextureWindowXOffset := 0
    mTextureWindowYOffset := 0
    mDithering := false
    mDrawToDisplay := false
    mTextureDisable := false
    mRectangleTextureXFlip := false
    mRectangleTextureYFlip := false
    mDrawingAreaLeft := 0
    mDrawingAreaTop := 0
    mDrawingAreaRight := 0
    mDrawingAreaBottom := 0
    mDrawingXOffset := 0
    mDrawingYOffset := 0
    mForceSetMaskBit := false
    mPreserveMaskedPixels := false
    mDmaDirection := .off
    mDisplayDisabled := true
    mDisplayVramXStart := 0
    mDisplayVramYStart := 0
    mHres := ⟨HorizontalRes.fromFields 0 0⟩
    mVres := .y240Lines
    mVmode := .ntsc
    mInterlaced := true
    mDisplayHorizStart := 0x200
    mDisplayHorizEnd := 0xc00
    mDisplayLineStart := 0x10
    mDisplayLineEnd := 0x100
    mDisplayDepth := .d15Bits }
  g.gp1ResetCommandBuffer.gp1AcknowledgeIrq

def gp1DisplayEnable (g : Gpu) (val : Word) : Gpu :=
  { g with mDisplayDisabled := (val &&& 1) != 0 }

def gp1DmaDirection (g : Gpu) (val : Word) : Gpu :=
  match (val &&& 3).toNat with
  | 0 => { g with mDmaDirection := .off }
  | 1 => { g with mDmaDirection := .fifo }
  | 2 => { g with mDmaDirection := .cpuToGp0 }
  | 3 => { g with mDmaDirection := .vRamToCpu }
  | _ => g

def gp1DisplayVramStart (g : Gpu) (val : Word) : Gpu :=
  { g with
    mDisplayVramXStart := (val &&& 0x3fe).setWidth 16
    mDisplayVramYStart := ((val >>> 10) &&& 0x1ff).setWidth 16 }

def gp1DisplayHorizontalRange (g : Gpu) (val : Word) : Gpu :=
  { g with
    mDisplayHorizStart := (val &&& 0xfff).setWidth 16
    mDisplayHorizEnd := ((val >>> 12) &&& 0xfff).setWidth 16 }

def gp1DisplayVerticalRange (g : Gpu) (val : Word) : Gpu :=
  { g with
    mDisplayLineStart := (val &&& 0x3ff).setWidth 16
    mDisplayLineEnd := ((val >>> 10) &&& 0x3ff).setWidth 16 }

-- As in `Channel.setControl`, `val & 0x4 != 0` is `val & (0x4 != 0)`.
def gp1DisplayMode (g : Gpu) (val : Word) : Result Gpu :=
  let hr1 : Byte := (val &&& 3).setWidth 8
  let hr2 : Byte := ((val >>> 6) &&& 1).setWidth 8
  let g := { g with mHres := ⟨HorizontalRes.fromFields hr1 hr2⟩ }
  let g := { g with
    mVres := if truth (val &&& ofBool ((0x4 : Word) != 0)) then .y480Lines else .y240Lines }
  let g := { g with mVmode := if truth (val &&& ofBool ((0x8 : Word) != 0)) then .pal else .ntsc }
  let g := { g with
    mDisplayDepth := if truth (val &&& ofBool ((0x10 : Word) != 0)) then .d15Bits else .d24Bits }
  let g := { g with mInterlaced := truth (val &&& ofBool ((0x20 : Word) != 0)) }
  if (val &&& 0x80) ≠ 0 then
    panic "Unsupported display mode \x7b:08x\x7d" [val.toNat]
  else
    .ok g

def gp1 (g : Gpu) (val : Word) : Result Gpu :=
  let opcode := (val >>> 24) &&& 0xff
  match opcode.toNat with
  | 0x00 => .ok (g.gp1Reset val)
  | 0x01 => .ok g.gp1ResetCommandBuffer
  | 0x02 => .ok g.gp1AcknowledgeIrq
  | 0x03 => .ok (g.gp1DisplayEnable val)
  | 0x04 => .ok (g.gp1DmaDirection val)
  | 0x05 => .ok (g.gp1DisplayVramStart val)
  | 0x06 => .ok (g.gp1DisplayHorizontalRange val)
  | 0x07 => .ok (g.gp1DisplayVerticalRange val)
  | 0x08 => g.gp1DisplayMode val
  | _ => panic "Unhandled GP1 command \x7b:08x\x7d" [val.toNat]

end Gpu

end CppStation
