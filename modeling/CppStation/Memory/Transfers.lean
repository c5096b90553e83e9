import CppStation.Memory.Traffic

/-!
# Which transfers complete

The program implements two kinds of transfer: to the GPU, in blocks or along a
list, and from the OTC channel.  Every other one panics, unless it has no words
to move.  A transfer that completes is determined by its traffic.
-/

namespace CppStation

open Fallible ByteMemory

namespace Bus

/-- The transfer set up on `port` is implemented, and comes to an end. -/
def Supported (b : Bus) (port : Port) : Prop :=
  if (b.mDma.channel port).sync = .linkedList then
    port = .gpu ∧ (b.mDma.channel port).direction = .fromRam ∧ ∃ n, b.StopsAt n
  else
    (b.mDma.channel port).exactSize = 0 ∨
      (port = .gpu ∧ (b.mDma.channel port).direction = .fromRam) ∨
      (port = .otc ∧ (b.mDma.channel port).direction = .toRam)

/-- All that a transfer leaves behind. -/
structure Transferred (b : Bus) (port : Port) (b' : Bus) : Prop where
  moves : b.Moves ((b.transferSent port).map .gp0) (b.transferWrites port) b'
  channel : b'.mDma = b.mDma.putChannel port (b.mDma.channel port).done

/-- It leaves one state behind. -/
theorem Transferred.eq {b b' : Bus} {port : Port} (h : b.Transferred port b') :
    ∃ gpu, ((b.transferSent port).foldlM Gpu.gp0 b.mGpu) = .ok gpu ∧
      b' = ⟨⟨replay b.mRam.mData (b.transferWrites port)⟩, b.mBios,
        b.mDma.putChannel port (b.mDma.channel port).done, gpu⟩ := by
  obtain ⟨⟨hgpu, hram, hbios⟩, hchannel⟩ := h
  obtain ⟨⟨data⟩, bios, dma, gpu⟩ := b'
  cases hram
  cases hbios
  cases hchannel
  rw [run_gp0] at hgpu
  exact ⟨gpu, hgpu, rfl⟩

/-- The words of a list that stops. -/
theorem StopsAt.listWords {b : Bus} {n : Nat} (h : b.StopsAt n) : b.listWords = b.packets n := by
  have hwalk : Chain.walk b.mRam.nextEntry b.mRam.packet b.mRam.oddHeader (2 ^ 19) b.listStart =
      some (b.packets n) := Chain.walk_eq_some_iff.mpr ⟨n, endsAt_lt h, h, rfl⟩
  rw [Bus.listWords, hwalk, Option.getD_some]

theorem supported_of_doDma {fuel : Nat} {b b' : Bus} {port : Port}
    (h : b.doDma fuel port = .ok b') : b.Supported port := by
  unfold Supported
  unfold doDma at h
  split at h
  · next hsync =>
    rw [if_pos hsync]
    simp only [doDmaLinkedList] at h
    split at h
    · cases h
    split at h
    · cases h
    · next hdir hport =>
      obtain rfl : port = .gpu := not_not.mp hport
      have hfrom : (b.mDma.channel .gpu).direction = .fromRam := by
        cases hd : (b.mDma.channel .gpu).direction with
        | toRam => exact absurd hd hdir
        | fromRam => rfl
      obtain ⟨gpu, hloop, -⟩ := bind_eq_ok.mp h
      obtain ⟨words, hwalk, -⟩ := linkedListLoop_eq_ok_iff.mp hloop
      obtain ⟨n, -, hstop, -⟩ := Chain.walk_eq_some_iff.mp hwalk
      exact ⟨rfl, hfrom, n, hstop⟩
  · next hsync =>
    rw [if_neg hsync]
    by_cases hgpu : port = .gpu ∧ (b.mDma.channel port).direction = .fromRam
    · exact .inr (.inl hgpu)
    by_cases hotc : port = .otc ∧ (b.mDma.channel port).direction = .toRam
    · exact .inr (.inr hotc)
    · rw [doDmaBlock_eq, if_neg (Channel.transferSize_ne hsync)] at h
      obtain ⟨b1, hloop, -⟩ := bind_eq_ok.mp h
      rw [Channel.toNat_transferSize hsync] at hloop
      exact .inl (blockLoop_unhandled hgpu hotc hloop).1

/-- A list that stops is sent. -/
theorem doDma_list {b : Bus} {n : Nat} {gpu : Gpu}
    (hsync : (b.mDma.channel .gpu).sync = .linkedList)
    (hdir : (b.mDma.channel .gpu).direction = .fromRam) (hstop : b.StopsAt n)
    (hsent : b.listWords.foldlM Gpu.gp0 b.mGpu = .ok gpu) :
    b.doDma (n + 1) .gpu = .ok { b with
      mGpu := gpu
      mDma := b.mDma.putChannel .gpu (b.mDma.channel .gpu).done } := by
  rw [hstop.listWords] at hsent
  have hwalk : Chain.walk b.mRam.nextEntry b.mRam.packet b.mRam.oddHeader (n + 1) b.listStart =
      some (b.packets n) := Chain.walk_eq_some_iff.mpr ⟨n, Nat.lt_succ_self n, hstop, rfl⟩
  have hloop := linkedListLoop_eq_ok_iff.mpr ⟨_, hwalk, hsent⟩
  have hlist := (doDmaLinkedList_eq_ok_iff hdir).mpr ⟨gpu, hloop, rfl⟩
  rw [doDma, hsync]
  exact hlist

theorem doDma_block {b : Bus} {port : Port} (fuel : Nat)
    (hsync : (b.mDma.channel port).sync ≠ .linkedList) :
    b.doDma fuel port = b.doDmaBlock port := by
  unfold doDma
  split
  · next hlist => exact absurd hlist hsync
  · rfl

/-- The three kinds of block transfer. -/
theorem doDmaBlock_supported {b : Bus} {port : Port} {gpu : Gpu}
    (hsync : (b.mDma.channel port).sync ≠ .linkedList)
    (hsupported : (b.mDma.channel port).exactSize = 0 ∨
      (port = .gpu ∧ (b.mDma.channel port).direction = .fromRam) ∨
      (port = .otc ∧ (b.mDma.channel port).direction = .toRam))
    (hsent : (b.transferSent port).foldlM Gpu.gp0 b.mGpu = .ok gpu) :
    b.doDmaBlock port = .ok ⟨⟨replay b.mRam.mData (b.transferWrites port)⟩, b.mBios,
      b.mDma.putChannel port (b.mDma.channel port).done, gpu⟩ := by
  by_cases hgpu : port = .gpu ∧ (b.mDma.channel port).direction = .fromRam
  · rw [transferSent, if_pos hgpu, if_neg hsync] at hsent
    obtain ⟨rfl, hdir⟩ := hgpu
    rw [doDmaBlock_transferWords hsync hdir, hsent]
    rfl
  rw [transferSent, if_neg hgpu] at hsent
  cases hsent
  rw [doDmaBlock_eq, if_neg (Channel.transferSize_ne hsync)]
  by_cases hotc : port = .otc ∧ (b.mDma.channel port).direction = .toRam
  · rw [transferWrites, if_pos hotc]
    obtain ⟨rfl, hdir⟩ := hotc
    rw [hdir, blockLoop_otcWrites]
    rfl
  · have hzero : (b.mDma.channel port).exactSize = 0 :=
      hsupported.resolve_right fun h => h.elim hgpu hotc
    rw [transferWrites, if_neg hotc, Channel.toNat_transferSize hsync, hzero]
    rfl

theorem doDma_supported {b : Bus} {port : Port} {gpu : Gpu} (hsupported : b.Supported port)
    (hsent : (b.transferSent port).foldlM Gpu.gp0 b.mGpu = .ok gpu) :
    ∃ fuel, b.doDma fuel port = .ok ⟨⟨replay b.mRam.mData (b.transferWrites port)⟩, b.mBios,
      b.mDma.putChannel port (b.mDma.channel port).done, gpu⟩ := by
  unfold Supported at hsupported
  split at hsupported
  · next hsync =>
    obtain ⟨rfl, hdir, n, hstop⟩ := hsupported
    rw [transferSent, if_pos ⟨rfl, hdir⟩, if_pos hsync] at hsent
    exact ⟨n + 1, doDma_list hsync hdir hstop hsent⟩
  · next hsync =>
    exact ⟨0, (doDma_block 0 hsync).trans (doDmaBlock_supported hsync hsupported hsent)⟩

/-- **A transfer completes exactly when** it is supported and GP0 accepts its words; then it has
moved its words, made its writes, marked its channel as done, and done nothing else. -/
theorem doDma_iff {b b' : Bus} {port : Port} :
    (∃ fuel, b.doDma fuel port = .ok b') ↔ b.Supported port ∧ b.Transferred port b' := by
  constructor
  · rintro ⟨fuel, h⟩
    exact ⟨supported_of_doDma h, moves_doDma h, doDma_dma h⟩
  · rintro ⟨hsupported, htransferred⟩
    obtain ⟨gpu, hsent, rfl⟩ := htransferred.eq
    exact doDma_supported hsupported hsent

end Bus

end CppStation
