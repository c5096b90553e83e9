import CppStation.Memory.LinkedList
import CppStation.Lib.CInt

/-!
# Block transfers

A block transfer to the GPU is a pass over a list of RAM words whose addresses
step up or down from the base.  The number of words comes from an `int`
product, which is computed a second time in the arithmetic of `CInt`.
-/

namespace CppStation

open Fallible

/-! ## The size of a transfer -/

namespace Channel

/-- `transferSize` with the C++ arithmetic: the two `uint16_t` are promoted to `int`. -/
def checkedTransferSize (c : Channel) : Option Word :=
  match c.mSync with
  | .manual => some (c.mBlockSize.setWidth 32)
  | .request => CInt.mul (c.mBlockCount.setWidth 32) (c.mBlockSize.setWidth 32)
  | .linkedList => some (-1)

/-- The size of a transfer as a number. -/
def exactSize (c : Channel) : Nat :=
  match c.mSync with
  | .manual => c.mBlockSize.toNat
  | _ => c.mBlockCount.toNat * c.mBlockSize.toNat

theorem toNat_mul_halves (x y : Half) : x.toNat * y.toNat ≤ (2 ^ 16 - 1) * (2 ^ 16 - 1) :=
  Nat.mul_le_mul (Nat.le_pred_of_lt x.isLt) (Nat.le_pred_of_lt y.isLt)

theorem exactSize_lt (c : Channel) : c.exactSize < 2 ^ 32 - 1 := by
  have hproduct := toNat_mul_halves c.mBlockCount c.mBlockSize
  have hsize := c.mBlockSize.isLt
  unfold exactSize
  split <;> omega

/-- The product of two 16-bit numbers fits in the 32 bits of the count. -/
theorem toNat_transferSize {c : Channel} (h : c.mSync ≠ .linkedList) :
    c.transferSize.toNat = c.exactSize := by
  unfold transferSize exactSize
  cases hsync : c.mSync with
  | manual => exact BitVec.toNat_setWidth_of_le (by decide)
  | request => exact CInt.toNat_mul_setWidth (by decide) _ _
  | linkedList => exact absurd hsync h

/-- The value reserved for linked lists is not the size of a block transfer. -/
theorem transferSize_ne {c : Channel} (h : c.mSync ≠ .linkedList) : c.transferSize ≠ -1 := by
  intro heq
  have hlt := c.exactSize_lt
  rw [← toNat_transferSize h, heq] at hlt
  exact absurd hlt (by decide)

theorem checkedTransferSize_iff {c : Channel} (h : c.mSync ≠ .linkedList) :
    c.checkedTransferSize = some c.transferSize ↔
      c.mSync = .manual ∨ c.mBlockCount.toNat * c.mBlockSize.toNat < 2 ^ 31 := by
  have hsize := toNat_transferSize h
  unfold checkedTransferSize
  unfold transferSize exactSize at *
  cases hsync : c.mSync with
  | manual => simp
  | request =>
    rw [hsync] at hsize
    rw [CInt.mul_setWidth_eq_some_iff (by decide)]
    simp [hsize]
  | linkedList => exact absurd hsync h

end Channel

/-- The number added to the address after each word. -/
def Step.offset : Step → Word
  | .increment => 4
  | .decrement => -4

namespace Bus

theorem doDmaBlock_eq (b : Bus) (port : Port) :
    b.doDmaBlock port =
      if (b.mDma.channel port).transferSize = -1 then
        panic "Couldn't figure out DMA block transfer size" []
      else
        blockLoop port (b.mDma.channel port).direction (b.mDma.channel port).step.offset
          (b.mDma.channel port).transferSize.toNat (b.mDma.channel port).base b >>= fun b' =>
          .ok { b' with mDma := b'.mDma.putChannel port (b.mDma.channel port).done } := by
  simp only [doDmaBlock]
  cases (b.mDma.channel port).step <;> rfl

/-- What the size of a block transfer on `port` is to be: defined, not the reserved value, and
the exact number of passes through the loop. -/
structure SizeExact (b : Bus) (port : Port) : Prop where
  defined : (b.mDma.channel port).checkedTransferSize = some (b.mDma.channel port).transferSize
  notReserved : (b.mDma.channel port).transferSize ≠ -1
  count : b.doDmaBlock port =
    blockLoop port (b.mDma.channel port).direction (b.mDma.channel port).step.offset
      (b.mDma.channel port).exactSize (b.mDma.channel port).base b >>= fun b' =>
      .ok { b' with mDma := b'.mDma.putChannel port (b.mDma.channel port).done }

/-- **The size of a block transfer is exact exactly when** the product of a request transfer is
an `int`. -/
theorem sizeExact_iff {b : Bus} {port : Port} (h : (b.mDma.channel port).mSync ≠ .linkedList) :
    b.SizeExact port ↔ (b.mDma.channel port).mSync = .manual ∨
      (b.mDma.channel port).mBlockCount.toNat * (b.mDma.channel port).mBlockSize.toNat < 2 ^ 31 := by
  rw [← Channel.checkedTransferSize_iff h]
  constructor
  · exact SizeExact.defined
  · intro hdefined
    refine ⟨hdefined, Channel.transferSize_ne h, ?_⟩
    rw [doDmaBlock_eq, if_neg (Channel.transferSize_ne h), Channel.toNat_transferSize h]

/-- A bus with cleared RAM whose channel for the GPU is set up for blocks. -/
def withBlocks (sync : Sync) (blockControl : Word) : Bus :=
  { ofList [] with
    mDma := Dma.new.putChannel .gpu
      ({ Channel.new with
        mSync := sync
        mDirection := .fromRam }.setBlockControl blockControl) }

/-- Two blocks of sixteen words. -/
theorem sizeExact_request : (withBlocks .request 0x00020010).SizeExact .gpu :=
  (sizeExact_iff (by decide)).mpr (.inr (by decide))

/-- The largest request overflows `int`. -/
theorem not_forall_sizeExact :
    ¬ ∀ (b : Bus) (port : Port), (b.mDma.channel port).mSync ≠ .linkedList → b.SizeExact port := by
  intro h
  have hexact := h (withBlocks .request 0xffffffff) .gpu (by decide)
  have hiff := (sizeExact_iff (by decide)).mp hexact
  exact absurd hiff (by decide)

/-! ## The words of a transfer to the GPU -/

/-- The words that the loop reads, starting at `addr`. -/
def blockWords (ram : Ram) (increment : Word) (n : Nat) (addr : Word) : List Word :=
  (List.range n).map fun i => ram.word ((addr + BitVec.ofNat 32 i * increment) &&& 0x1ffffc)

theorem blockWords_succ (ram : Ram) (increment : Word) (n : Nat) (addr : Word) :
    blockWords ram increment (n + 1) addr =
      ram.word (addr &&& 0x1ffffc) :: blockWords ram increment n (addr + increment) := by
  simp only [blockWords, List.range_succ_eq_map, List.map_cons, List.map_map]
  congr 1
  · simp
  · refine List.map_congr_left fun i _ => ?_
    have hstep : addr + BitVec.ofNat 32 (i + 1) * increment =
        addr + increment + BitVec.ofNat 32 i * increment := by
      rw [BitVec.ofNat_add, BitVec.add_mul, BitVec.one_mul, BitVec.add_comm _ increment,
        BitVec.add_assoc]
    rw [Function.comp_apply, Nat.succ_eq_add_one, hstep]

/-- The block loop sends the words one by one. -/
theorem blockLoop_gpu (increment : Word) (n : Nat) (addr : Word) (b : Bus) :
    blockLoop .gpu .fromRam increment n addr b =
      (blockWords b.mRam increment n addr).foldlM Gpu.gp0 b.mGpu >>= fun gpu =>
        .ok { b with mGpu := gpu } := by
  induction n generalizing addr b with
  | zero => rfl
  | succ n ih =>
    rw [blockWords_succ, List.foldlM_cons]
    simp only [blockLoop, blockWord, Ram.load32_masked, ok_bind]
    cases b.mGpu.gp0 (b.mRam.word (addr &&& 0x1ffffc)) with
    | error e => rfl
    | ok gpu => exact ih (addr + increment) { b with mGpu := gpu }

/-- The address of word `i` of the transfer that is set up for the GPU. -/
def wordAddr (b : Bus) (i : Nat) : Word :=
  match (b.mDma.channel .gpu).step with
  | .increment => ((b.mDma.channel .gpu).base + BitVec.ofNat 32 (4 * i)) &&& 0x1ffffc
  | .decrement => ((b.mDma.channel .gpu).base - BitVec.ofNat 32 (4 * i)) &&& 0x1ffffc

/-- The words of that transfer. -/
def transferWords (b : Bus) : List Word :=
  (List.range (b.mDma.channel .gpu).transferSize.toNat).map fun i => b.mRam.word (b.wordAddr i)

theorem transferWords_eq (b : Bus) : b.transferWords =
    blockWords b.mRam (b.mDma.channel .gpu).step.offset
      (b.mDma.channel .gpu).transferSize.toNat (b.mDma.channel .gpu).base := by
  refine List.map_congr_left fun i _ => ?_
  have hfour : BitVec.ofNat 32 (4 * i) = BitVec.ofNat 32 i * 4 := by
    rw [Nat.mul_comm, BitVec.ofNat_mul]
    rfl
  rw [wordAddr]
  cases (b.mDma.channel .gpu).step with
  | increment => rw [hfour]; rfl
  | decrement =>
    have hneg : BitVec.ofNat 32 i * Step.offset .decrement = -(BitVec.ofNat 32 i * 4) :=
      BitVec.mul_neg _ _
    rw [hfour, hneg, ← BitVec.sub_eq_add_neg]

/-- The state after the words `ws` went to the GPU and the channel was set to "completed". -/
structure Sent (b : Bus) (ws : List Word) (b' : Bus) : Prop where
  gpu : ws.foldlM Gpu.gp0 b.mGpu = .ok b'.mGpu
  received : b'.mGpu.received = b.mGpu.received ++ ws
  ram : b'.mRam = b.mRam
  base : (b'.mDma.channel .gpu).base = (b.mDma.channel .gpu).base
  blockControl : (b'.mDma.channel .gpu).blockControl = (b.mDma.channel .gpu).blockControl
  enable : (b'.mDma.channel .gpu).mEnable = false
  trigger : (b'.mDma.channel .gpu).mTrigger = false
  others : ∀ port, port ≠ .gpu → b'.mDma.channel port = b.mDma.channel port

theorem doDmaBlock_transferWords {b : Bus} (hsync : (b.mDma.channel .gpu).sync ≠ .linkedList)
    (hdir : (b.mDma.channel .gpu).direction = .fromRam) :
    b.doDmaBlock .gpu = b.transferWords.foldlM Gpu.gp0 b.mGpu >>= fun gpu =>
      .ok { b with
        mGpu := gpu
        mDma := b.mDma.putChannel .gpu (b.mDma.channel .gpu).done } := by
  rw [doDmaBlock_eq, if_neg (Channel.transferSize_ne hsync), hdir, blockLoop_gpu, transferWords_eq]
  generalize List.foldlM Gpu.gp0 b.mGpu _ = run
  cases run <;> rfl

/-- **A block transfer to the GPU** calls `gp0` with exactly the words of the transfer, in order. -/
theorem doDmaBlock_gpu {b : Bus} {gpu : Gpu} (hsync : (b.mDma.channel .gpu).sync ≠ .linkedList)
    (hdir : (b.mDma.channel .gpu).direction = .fromRam)
    (haccepted : b.transferWords.foldlM Gpu.gp0 b.mGpu = .ok gpu) :
    ∃ b', b.doDmaBlock .gpu = .ok b' ∧ b.Sent b.transferWords b' := by
  rw [doDmaBlock_transferWords hsync hdir, haccepted]
  have hdone := b.mDma.channel_putChannel_self .gpu (b.mDma.channel .gpu).done
  exact ⟨_, rfl, haccepted, Gpu.run_received haccepted, rfl,
    (congrArg Channel.base hdone).trans rfl, (congrArg Channel.blockControl hdone).trans rfl,
    congrArg Channel.mEnable hdone, congrArg Channel.mTrigger hdone,
    fun port hport => Function.update_of_ne hport _ _⟩

/-- Three words from the start of RAM. -/
theorem doDmaBlock_gpu_three :
    ∃ b', (withBlocks .manual 3).doDmaBlock .gpu = .ok b' ∧
      b'.mGpu.received = [0, 0, 0] := by
  have hrun : okAnd ((withBlocks .manual 3).transferWords.foldlM Gpu.gp0 Gpu.new)
      (fun _ => true) = true := by decide +kernel
  obtain ⟨gpu, haccepted, -⟩ := exists_of_okAnd hrun
  obtain ⟨b', hdma, hsent⟩ := doDmaBlock_gpu (b := withBlocks .manual 3) (by decide) rfl haccepted
  refine ⟨b', hdma, hsent.received.trans ?_⟩
  decide +kernel

end Bus

end CppStation
