import CppStation.Memory.LinkedList

/-!
# Clearing an ordering table and walking it

The OTC channel writes a list of empty entries downwards from its base; the
GPU channel then walks it.  The writer keeps 21 bits of an address and the
reader clears the two low bits of them; both agree on aligned addresses, and
fewer than `2 ^ 19` entries never meet again when they wrap below address 0.
-/

namespace CppStation

open Fallible ByteMemory

namespace OrderingTable

/-! ## The table -/

/-- The address of entry `i` of a table at `base`. -/
def slot (base : Word) (i : Nat) : Word := (base - BitVec.ofNat 32 (4 * i)) &&& 0x1ffffc

/-- The header of entry `i`, if it is not the last. -/
def pointer (base : Word) (i : Nat) : Word := (base - BitVec.ofNat 32 (4 * (i + 1))) &&& 0x1fffff

/-- The header of entry `i` of `n`. -/
def header (base : Word) (n i : Nat) : Word := if i + 1 = n then 0xffffff else pointer base i

/-- The writes of the OTC channel, in order. -/
def writes (base : Word) (n : Nat) : List Write :=
  (List.range n).map fun i => ⟨(slot base i).toNat, bytesOf 4 (header base n i)⟩

theorem toNat_slot (base : Word) (i : Nat) :
    (slot base i).toNat = (2 ^ 32 - 4 * i % 2 ^ 32 + base.toNat) % 2 ^ 32 / 4 % 2 ^ 19 * 4 := by
  rw [slot, toNat_dmaMask, BitVec.toNat_sub, BitVec.toNat_ofNat]

/-- The first entry is where the channels start. -/
theorem slot_zero (base : Word) : slot base 0 = base &&& 0x1ffffc := by
  rw [slot, Nat.mul_zero, BitVec.sub_zero]

/-- Entries that are not a multiple of `2 ^ 19` apart have slots apart. -/
theorem slot_apart {base : Word} {i j k l : Nat} (hne : i ≠ j) (hi : i < 2 ^ 19) (hj : j < 2 ^ 19)
    (hk : k < 4) (hl : l < 4) : (slot base i).toNat + k ≠ (slot base j).toNat + l := by
  rw [toNat_slot, toNat_slot]
  omega

/-- The byte `a` lies in entry `i`. -/
def InSlot (base : Word) (i a : Nat) : Prop :=
  (slot base i).toNat ≤ a ∧ a < (slot base i).toNat + 4

/-- After the writes every entry has its header. -/
theorem word_replay {base : Word} {n i : Nat} (hi : i < n) (hn : n ≤ 2 ^ 19) (m : Nat → Byte) :
    (Ram.mk (replay m (writes base n))).word (slot base i) = header base n i := by
  have hbytes : ∀ k < 4, replay m (writes base n) ((slot base i).toNat + k) =
      byteOf (header base n i) k := by
    intro k hk
    refine replay_of_mem (List.mem_map.mpr ⟨i, List.mem_range.mpr hi, rfl⟩) ?_ ?_ m
    · rw [byte?_bytesOf, if_pos (by omega), Nat.add_sub_cancel_left]
    · intro wr' hmem hcovers
      obtain ⟨j, hj, rfl⟩ := List.mem_map.mp hmem
      rw [byte?_bytesOf] at hcovers
      split at hcovers
      · next hin =>
        have hlt := List.mem_range.mp hj
        by_cases hij : i = j
        · rw [hij]
        · have heq : (slot base i).toNat + k =
              (slot base j).toNat + ((slot base i).toNat + k - (slot base j).toNat) := by omega
          exact absurd heq (slot_apart hij (by omega) (by omega) hk (by omega))
      · exact absurd rfl hcovers
  exact (compose_congr hbytes).trans (compose_byteOf (n := 4) (header base n i))

/-- The writes change nothing else. -/
theorem replay_outside {base : Word} {n a : Nat} (h : ∀ i < n, ¬ InSlot base i a)
    (m : Nat → Byte) : replay m (writes base n) a = m a := by
  refine replay_of_not_covered (fun wr hmem => ?_) m
  obtain ⟨i, hi, rfl⟩ := List.mem_map.mp hmem
  exact (byte?_bytesOf _ _ _ _).trans (if_neg (h i (List.mem_range.mp hi)))

/-! ## The writer -/

theorem step_base (base : Word) (i : Nat) :
    base - BitVec.ofNat 32 (4 * (i + 1)) = base - 4 - BitVec.ofNat 32 (4 * i) := by
  apply BitVec.eq_of_toNat_eq
  rw [BitVec.toNat_sub, BitVec.toNat_sub, BitVec.toNat_sub, BitVec.toNat_ofNat, BitVec.toNat_ofNat]
  change _ = (2 ^ 32 - 4 * i % 2 ^ 32 + (2 ^ 32 - 4 + base.toNat) % 2 ^ 32) % 2 ^ 32
  omega

theorem writes_succ (base : Word) (n : Nat) :
    writes base (n + 1) =
      ⟨(base &&& 0x1ffffc).toNat, bytesOf 4 (if n + 1 = 1 then 0xffffff else
        (base - 4) &&& 0x1fffff)⟩ :: writes (base - 4) n := by
  have hheader : header base (n + 1) 0 =
      if n + 1 = 1 then 0xffffff else (base - 4) &&& 0x1fffff := by
    rw [header, pointer]
    by_cases hn : n = 0
    · rw [if_pos (by omega), if_pos (by omega)]
    · rw [if_neg (by omega), if_neg (by omega)]
      rfl
  rw [writes, List.range_succ_eq_map, List.map_cons, List.map_map, slot_zero, hheader, writes]
  congr 1
  refine List.map_congr_left fun i _ => ?_
  have hslot : slot base (i + 1) = slot (base - 4) i := by
    rw [slot, step_base, slot]
  have hnext : header base (n + 1) (i + 1) = header (base - 4) n i := by
    rw [header, header, pointer, step_base, pointer]
    simp only [Nat.add_right_cancel_iff]
  rw [Function.comp, hslot, hnext]

/-- **The loop** makes the writes of the table. -/
theorem blockLoop_otc (n : Nat) (base : Word) (b : Bus) :
    Bus.blockLoop .otc .toRam (-4) n base b =
      .ok { b with mRam := ⟨replay b.mRam.mData (writes base n)⟩ } := by
  induction n generalizing base b with
  | zero => rfl
  | succ n ih =>
    have hword : ∀ v : Word, b.mRam.store32 (base &&& 0x1ffffc).toNat v = _ := fun v =>
      store32_of_inRange b.mRam v (dmaMask_inRange base)
    rw [Bus.blockLoop]
    simp only [Bus.blockWord, ok_bind, hword]
    change Bus.blockLoop .otc .toRam (-4) n (base + -4) _ = _
    rw [← BitVec.sub_eq_add_neg, ih, writes_succ]
    rfl

/-! ## The reader -/

section

variable {ram : Ram} {base : Word} {n : Nat}

/-- RAM holds the table. -/
def Holds (ram : Ram) (base : Word) (n : Nat) : Prop :=
  ∀ i < n, ram.word (slot base i) = header base n i

/-- The reader clears what the writer keeps of a pointer. -/
theorem nextEntry_slot (h : Holds ram base n) {i : Nat} (hi : i + 1 < n) :
    ram.nextEntry (slot base i) = slot base (i + 1) := by
  rw [Ram.nextEntry, h i (by omega), header, if_neg (by omega), pointer, BitVec.and_assoc]
  rfl

/-- The headers carry no words. -/
theorem packet_slot (h : Holds ram base n) {i : Nat} (hi : i < n) :
    ram.packet (slot base i) = [] := by
  have hsize : (header base n i).toNat < 2 ^ 24 := by
    unfold header
    split
    · decide
    · have hlt : (pointer base i).toNat < 2 ^ 21 :=
        Nat.lt_of_le_of_lt (Bits.toNat_and_le _ _) (by decide)
      omega
  have hzero : (header base n i >>> 24).toNat = 0 := by
    rw [BitVec.toNat_ushiftRight, Nat.shiftRight_eq_div_pow]
    omega
  rw [Ram.packet, h i hi, hzero]
  rfl

/-- Pointers to aligned addresses are even, the end marker is odd. -/
theorem oddHeader_slot (h : Holds ram base n) (haligned : base.toNat % 4 = 0) {i : Nat}
    (hi : i < n) : ram.oddHeader (slot base i) = decide (i + 1 = n) := by
  rw [Ram.oddHeader, h i hi, header]
  split
  · next hlast =>
    rw [decide_eq_true hlast]
    rfl
  · next hmore =>
    have heven : (base - BitVec.ofNat 32 (4 * (i + 1))).getLsbD 0 = false := by
      rw [BitVec.getLsbD, Nat.testBit_zero, BitVec.toNat_sub, BitVec.toNat_ofNat]
      simp only [decide_eq_false_iff_not]
      omega
    rw [decide_eq_false hmore, pointer, BitVec.getLsbD_and, heven, Bool.false_and]

/-- The chain goes through the slots in order. -/
theorem iterate_slot (h : Holds ram base n) {i : Nat} (hi : i < n) :
    ram.nextEntry^[i] (slot base 0) = slot base i := by
  induction i with
  | zero => rfl
  | succ i ih => rw [Function.iterate_succ_apply', ih (by omega), nextEntry_slot h hi]

theorem endsAt_slot (h : Holds ram base n) (haligned : base.toNat % 4 = 0) (hn : 0 < n) :
    Chain.EndsAt ram.nextEntry ram.oddHeader (slot base 0) (n - 1) := by
  constructor
  · rw [iterate_slot h (by omega), oddHeader_slot h haligned (by omega)]
    exact decide_eq_true (by omega)
  · intro i hi
    rw [iterate_slot h (by omega), oddHeader_slot h haligned (by omega)]
    exact decide_eq_false (by omega)

/-- The headers that the walk reads are the slots in order. -/
theorem walk_slot (h : Holds ram base n) (haligned : base.toNat % 4 = 0) (hn : 0 < n) {fuel : Nat}
    (hfuel : n ≤ fuel) :
    Chain.walk ram.nextEntry (fun addr => [addr]) ram.oddHeader fuel (slot base 0) =
      some ((List.range n).map (slot base)) := by
  refine Chain.walk_eq_some_iff.mpr ⟨n - 1, by omega, endsAt_slot h haligned hn, ?_⟩
  rw [Chain.visited_eq_flatMap, Nat.sub_add_cancel hn, ← List.map_eq_flatMap]
  exact List.map_congr_left fun i hi => iterate_slot h (List.mem_range.mp hi)

/-- With a smaller bound the walk is not finished. -/
theorem walk_slot_eq_none (h : Holds ram base n) (haligned : base.toNat % 4 = 0) (hn : 0 < n)
    {fuel : Nat} (hfuel : fuel < n) :
    Chain.walk ram.nextEntry (fun addr => [addr]) ram.oddHeader fuel (slot base 0) = none :=
  (endsAt_slot h haligned hn).walk_eq_none (Nat.le_sub_one_of_lt hfuel)

theorem visited_slot (h : Holds ram base n) {i : Nat} (hi : i < n) :
    Chain.visited ram.nextEntry ram.packet i (slot base 0) = [] := by
  refine Chain.visited_eq_nil_iff.mpr fun j hj => ?_
  rw [iterate_slot h (by omega)]
  exact packet_slot h (by omega)

/-- The loop sends nothing to GP0. -/
theorem linkedListLoop_slot (h : Holds ram base n) (haligned : base.toNat % 4 = 0) (hn : 0 < n)
    {fuel : Nat} (hfuel : n ≤ fuel) (gpu : Gpu) :
    Bus.linkedListLoop ram fuel (base &&& 0x1ffffc) gpu = .ok gpu := by
  refine Bus.linkedListLoop_eq_ok_iff.mpr ⟨[], ?_, rfl⟩
  rw [← slot_zero]
  exact Chain.walk_eq_some_iff.mpr
    ⟨n - 1, by omega, endsAt_slot h haligned hn, visited_slot h (by omega)⟩

/-- It reads all `n` headers before it ends. -/
theorem linkedListLoop_slot_outOfFuel (h : Holds ram base n) (haligned : base.toNat % 4 = 0)
    {fuel : Nat} (hfuel : fuel < n) (gpu : Gpu) :
    Bus.linkedListLoop ram fuel (base &&& 0x1ffffc) gpu = .error .outOfFuel := by
  refine Bus.linkedListLoop_outOfFuel fuel (fun i hi => ?_) fun i hi => ⟨gpu, ?_⟩
  · rw [← slot_zero, iterate_slot h (by omega), oddHeader_slot h haligned (by omega)]
    exact decide_eq_false (by omega)
  · rw [← slot_zero, visited_slot h (by omega)]
    rfl

end

end OrderingTable

open OrderingTable

namespace Bus

/-- The OTC channel is set up to clear a table of `n` entries. -/
structure Clears (b : Bus) (base : Word) (n : Nat) : Prop where
  direction : (b.mDma.channel .otc).direction = .toRam
  step : (b.mDma.channel .otc).step = .decrement
  sync : (b.mDma.channel .otc).sync = .manual
  size : (b.mDma.channel .otc).mBlockSize.toNat = n
  base : (b.mDma.channel .otc).base = base

/-- The GPU channel is set up to walk a list. -/
structure Walks (b : Bus) (base : Word) : Prop where
  direction : (b.mDma.channel .gpu).direction = .fromRam
  sync : (b.mDma.channel .gpu).sync = .linkedList
  base : (b.mDma.channel .gpu).base = base

theorem Clears.doDma {b : Bus} {base : Word} {n : Nat} (h : b.Clears base n) (fuel : Nat) :
    ∃ b1, b.doDma fuel .otc = .ok b1 ∧ b1.mRam = ⟨replay b.mRam.mData (writes base n)⟩ := by
  have hsize : (b.mDma.channel .otc).transferSize =
      (b.mDma.channel .otc).mBlockSize.setWidth 32 := by
    rw [Channel.transferSize, show (b.mDma.channel .otc).mSync = .manual from h.sync]
  have hnat : ((b.mDma.channel .otc).mBlockSize.setWidth 32 : Word).toNat = n := by
    rw [BitVec.toNat_setWidth, h.size]
    have hlt := (b.mDma.channel .otc).mBlockSize.isLt
    rw [h.size] at hlt
    omega
  have hne : ¬ ((b.mDma.channel .otc).mBlockSize.setWidth 32 : Word) = -1 := by
    intro heq
    have hlt := (b.mDma.channel .otc).mBlockSize.isLt
    rw [heq] at hnat
    rw [h.size, ← hnat] at hlt
    exact absurd hlt (by decide)
  unfold Bus.doDma
  simp only [h.sync, doDmaBlock, if_neg hne, h.direction, h.step, h.base, hsize, hnat,
    blockLoop_otc, ok_bind]
  exact ⟨_, rfl, rfl⟩

theorem Walks.doDma {b : Bus} {base : Word} (h : b.Walks base) (fuel : Nat) :
    b.doDma fuel .gpu = linkedListLoop b.mRam fuel (base &&& 0x1ffffc) b.mGpu >>= fun gpu =>
      .ok { b with mGpu := gpu, mDma := b.mDma.putChannel .gpu (b.mDma.channel .gpu).done } := by
  have hdma : b.doDma fuel .gpu = b.doDmaLinkedList fuel .gpu := by
    unfold Bus.doDma
    rw [h.sync]
  rw [hdma, doDmaLinkedList_eq fuel h.direction, h.base]

/-- **Clearing and walking an ordering table agree.**  The OTC transfer leaves the table and
changes no other byte; a linked-list transfer from the same base then reads its `n` headers in
order, sends nothing to GP0 and returns.  A bound of fewer than `n` headers is too small for it. -/
theorem orderingTable {b : Bus} {base : Word} {n : Nat} (haligned : base.toNat % 4 = 0)
    (hn : 0 < n) (h : b.Clears base n) (fuel : Nat) :
    ∃ b1, b.doDma fuel .otc = .ok b1 ∧
      (∀ i < n - 1, b1.mRam.word (slot base i) = pointer base i) ∧
      b1.mRam.word (slot base (n - 1)) = 0xffffff ∧
      (∀ a, (∀ i < n, ¬ InSlot base i a) → b1.mRam.mData a = b.mRam.mData a) ∧
      ∀ b2 : Bus, b2.mRam = b1.mRam → b2.Walks base →
        (∀ fuel' ≥ n,
          Chain.walk b2.mRam.nextEntry (fun addr => [addr]) b2.mRam.oddHeader fuel'
              (base &&& 0x1ffffc) = some ((List.range n).map (slot base)) ∧
            ∃ b3, b2.doDma fuel' .gpu = .ok b3 ∧ b3.mGpu = b2.mGpu ∧ b3.mRam = b2.mRam) ∧
        ∀ fuel' < n,
          Chain.walk b2.mRam.nextEntry (fun addr => [addr]) b2.mRam.oddHeader fuel'
              (base &&& 0x1ffffc) = none ∧
            b2.doDma fuel' .gpu = .error .outOfFuel := by
  obtain ⟨b1, hb1, hram⟩ := h.doDma fuel
  have hlt : n < 2 ^ 16 := h.size ▸ (b.mDma.channel .otc).mBlockSize.isLt
  have htable : Holds b1.mRam base n := by
    intro i hi
    rw [hram]
    exact word_replay hi (by omega) b.mRam.mData
  refine ⟨b1, hb1, ?_, ?_, ?_, ?_⟩
  · intro i hi
    rw [htable i (by omega), header, if_neg (by omega)]
  · rw [htable (n - 1) (by omega), header, if_pos (by omega)]
  · intro a ha
    rw [hram]
    exact replay_outside ha b.mRam.mData
  · intro b2 hsame hwalks
    have hdma := fun fuel' => hwalks.doDma fuel'
    rw [hsame] at hdma
    rw [hsame, ← slot_zero]
    constructor
    · intro fuel' hfuel
      refine ⟨walk_slot htable haligned hn hfuel, ?_⟩
      rw [hdma, linkedListLoop_slot htable haligned hn hfuel, ok_bind]
      exact ⟨_, rfl, rfl, rfl⟩
    · intro fuel' hfuel
      refine ⟨walk_slot_eq_none htable haligned hn hfuel, ?_⟩
      rw [hdma, linkedListLoop_slot_outOfFuel htable haligned hfuel, error_bind]

/-- A table of three entries that wraps below address 0. -/
theorem orderingTable_wraps :
    ∃ b b1 b2 b3 : Bus, b.doDma 0 .otc = .ok b1 ∧ b1.mRam.word 0 = 0x1ffffc ∧
      b1.mRam.word 0x1ffff8 = 0xffffff ∧ b1.mRam.mData 4 = b.mRam.mData 4 ∧
      b2.doDma 3 .gpu = .ok b3 ∧ b3.mGpu = b.mGpu ∧ b2.doDma 2 .gpu = .error .outOfFuel := by
  let b : Bus := { new (.ofWords []) with
    mDma := Dma.new.putChannel .otc { Channel.new with mStep := .decrement, mBlockSize := 3 } }
  have hclears : b.Clears 0 3 := ⟨rfl, rfl, rfl, rfl, rfl⟩
  obtain ⟨b1, hb1, hpointers, hlast, hothers, hlater⟩ :=
    orderingTable (by decide) (by decide) hclears 0
  have hout : ∀ i < 3, ¬ InSlot 0 i 4 := by
    unfold InSlot
    decide
  let list : Channel := { Channel.new with mDirection := .fromRam, mSync := .linkedList }
  let b2 : Bus := ⟨b1.mRam, b.mBios, b.mDma.putChannel .gpu list, b.mGpu⟩
  have hwalks : b2.Walks 0 := ⟨rfl, rfl, rfl⟩
  obtain ⟨henough, hless⟩ := hlater b2 rfl hwalks
  obtain ⟨-, b3, hb3, hgpu, -⟩ := henough 3 (Nat.le_refl 3)
  exact ⟨b, b1, b2, b3, hb1, hpointers 0 (by decide), hlast, hothers 4 hout, hb3, hgpu,
    (hless 2 (by decide)).2⟩

end Bus

end CppStation
