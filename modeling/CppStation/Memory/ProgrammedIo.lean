import CppStation.Memory.Domain

/-!
# Transfers as stores

A program can do the work of a DMA transfer itself: store the words of a
transfer to the GPU in GP0 one by one, and the links of an ordering table in
RAM.  Apart from the channel registers the result is the same.
-/

namespace CppStation

open Fallible Map ByteMemory

namespace Bus

/-- The stores that link `n` entries from `addr` on. -/
def otcStores (increment : Word) (n : Nat) (addr : Word) : List Access :=
  (List.range n).map fun i =>
    let slot := addr + BitVec.ofNat 32 i * increment
    .store32 (slot &&& 0x1ffffc) (if i + 1 = n then 0xffffff else (slot - 4) &&& 0x1fffff)

/-- The stores that do the work of the transfer set up on `port`. -/
def transferStores (b : Bus) (port : Port) : List Access :=
  if port = .otc ∧ (b.mDma.channel port).direction = .toRam then
    otcStores (b.mDma.channel port).step.offset (b.mDma.channel port).transferSize.toNat
      (b.mDma.channel port).base
  else (b.transferSent port).map (.store32 0x1f801810)

/-! ## Words for the GPU -/

theorem access_gp0 (b : Bus) (word : Word) :
    b.access 0 (.store32 0x1f801810 word) =
      b.mGpu.gp0 word >>= fun gpu => .ok { b with mGpu := gpu } := by
  have hsel : offsetIn (maskRegion 0x1f801810) Map.mGpu ≠ -1 := by decide
  exact store32_gpu 0 b word hsel

theorem foldlM_gp0 (words : List Word) (b : Bus) :
    (words.map (Access.store32 0x1f801810)).foldlM (access 0) b =
      words.foldlM Gpu.gp0 b.mGpu >>= fun gpu => .ok { b with mGpu := gpu } := by
  induction words generalizing b with
  | nil => rfl
  | cons word words ih =>
    rw [List.map_cons, List.foldlM_cons, List.foldlM_cons, access_gp0]
    cases b.mGpu.gp0 word with
    | error e => rfl
    | ok gpu => exact ih { b with mGpu := gpu }

/-! ## Links of an ordering table -/

theorem toNat_slot_lt (x : Word) : (x &&& 0x1ffffc).toNat < ramSize := by
  have hin := dmaMask_inRange x
  omega

theorem maskRegion_slot (x : Word) : maskRegion (x &&& 0x1ffffc) = x &&& 0x1ffffc := by
  obtain ⟨k, hk, -, hmask⟩ := toNat_maskRegion (x &&& 0x1ffffc)
  have hlt := toNat_slot_lt x
  have hpow : 2 ^ 29 ≤ 2 ^ k := Nat.pow_le_pow_right (by decide) hk
  apply BitVec.eq_of_toNat_eq
  rw [hmask, Nat.mod_eq_of_lt]
  unfold ramSize at hlt
  omega

theorem foldlM_links (links : List (Word × Word)) (b : Bus) :
    (links.map fun link => Access.store32 (link.1 &&& 0x1ffffc) link.2).foldlM (access 0) b =
      .ok { b with mRam := ⟨replay b.mRam.mData
        (links.map fun link => ⟨(link.1 &&& 0x1ffffc).toNat, bytesOf 4 link.2⟩)⟩ } := by
  induction links generalizing b with
  | nil => rfl
  | cons link links ih =>
    have haligned : (link.1 &&& 0x1ffffc) % 4 = 0 := by
      apply BitVec.eq_of_toNat_eq
      rw [BitVec.toNat_umod, toNat_dmaMask]
      exact Nat.mul_mod_left _ 4
    have hram : (maskRegion (link.1 &&& 0x1ffffc)).toNat < ramSize := by
      rw [maskRegion_slot]
      exact toNat_slot_lt link.1
    rw [List.map_cons, List.foldlM_cons, access, b.store32_withWrite 0 haligned hram, ok_bind, ih,
      maskRegion_slot]
    rfl

theorem foldlM_otcStores (increment : Word) (n : Nat) (addr : Word) (b : Bus) :
    (otcStores increment n addr).foldlM (access 0) b =
      .ok { b with mRam := ⟨replay b.mRam.mData (otcWrites increment n addr)⟩ } := by
  have h := foldlM_links ((List.range n).map fun i =>
    (addr + BitVec.ofNat 32 i * increment,
      if i + 1 = n then 0xffffff else (addr + BitVec.ofNat 32 i * increment - 4) &&& 0x1fffff)) b
  rw [List.map_map, List.map_map] at h
  exact h

/-! ## Transfers -/

theorem foldlM_transferStores (b : Bus) (port : Port) :
    (b.transferStores port).foldlM (access 0) b =
      (b.transferSent port).foldlM Gpu.gp0 b.mGpu >>= fun gpu => .ok { b with
        mGpu := gpu
        mRam := ⟨replay b.mRam.mData (b.transferWrites port)⟩ } := by
  unfold transferStores transferWrites
  by_cases hotc : port = .otc ∧ (b.mDma.channel port).direction = .toRam
  · have hgpu : ¬ (port = .gpu ∧ (b.mDma.channel port).direction = .fromRam) := by
      rintro ⟨rfl, -⟩
      cases hotc.1
    rw [if_pos hotc, if_pos hotc, foldlM_otcStores, transferSent, if_neg hgpu]
    rfl
  · rw [if_neg hotc, if_neg hotc, foldlM_gp0]
    rfl

/-- **A transfer is a sequence of stores**: it completes exactly when it is supported and the
stores do, and leaves the same bus as they, with its channel done. -/
theorem doDma_iff_stores {b b' : Bus} {port : Port} :
    (∃ fuel, b.doDma fuel port = .ok b') ↔
      b.Supported port ∧ ∃ b1, (b.transferStores port).foldlM (access 0) b = .ok b1 ∧
        b' = { b1 with mDma := b.mDma.putChannel port (b.mDma.channel port).done } := by
  rw [doDma_iff, foldlM_transferStores]
  refine and_congr_right fun _ => ⟨fun htransferred => ?_, ?_⟩
  · obtain ⟨gpu, hsent, rfl⟩ := htransferred.eq
    exact ⟨_, bind_eq_ok.mpr ⟨gpu, hsent, rfl⟩, rfl⟩
  · rintro ⟨b1, hstores, rfl⟩
    obtain ⟨gpu, hsent, hret⟩ := bind_eq_ok.mp hstores
    cases hret
    exact ⟨⟨(run_gp0 _ _).trans hsent, rfl, rfl⟩, rfl⟩

end Bus

end CppStation
