import CppStation.Gpu.Reachable
import CppStation.Lib.Bits
import CppStation.Lib.Chain
import CppStation.Memory.Bounds

/-!
# The linked-list DMA as a walk

The entries of the list are found through their headers.  The list ends at the
first header with bit 23 set; the program stops at the first with bit 0 set.
Both follow the same pointers.
-/

namespace CppStation

open Fallible ByteMemory

namespace Ram

/-! ## The list in RAM -/

/-- The word at an address. -/
def word (r : Ram) (addr : Word) : Word := compose 32 4 fun k => r.mData (addr.toNat + k)

/-- The address of the entry after the one at `addr`. -/
def nextEntry (r : Ram) (addr : Word) : Word := r.word addr &&& 0x1ffffc

/-- The words at `addr + 4`, …, `addr + 4 * count`, wrapping around the end of RAM. -/
def wordsAfter (r : Ram) (count : Nat) (addr : Word) : List Word :=
  (List.range count).map fun i => r.word ((addr + BitVec.ofNat 32 (4 * (i + 1))) &&& 0x1ffffc)

/-- The packet of the entry at `addr`; the high byte of the header is its length. -/
def packet (r : Ram) (addr : Word) : List Word := r.wordsAfter (r.word addr >>> 24).toNat addr

/-- The entry at `addr` is the last of the list. -/
def endMarker (r : Ram) (addr : Word) : Bool := (r.word addr).getLsbD 23

/-- The program stops after the entry at `addr`. -/
def oddHeader (r : Ram) (addr : Word) : Bool := (r.word addr).getLsbD 0

theorem load32_masked (r : Ram) (addr : Word) :
    r.load32 (addr &&& 0x1ffffc).toNat = .ok (r.word (addr &&& 0x1ffffc)) :=
  load32_of_inRange r (dmaMask_inRange addr)

end Ram

theorem toNat_dmaMask (x : Word) : (x &&& 0x1ffffc).toNat = x.toNat / 4 % 2 ^ 19 * 4 :=
  Bits.toNat_and_shiftedMask x (j := 2) (k := 19) (by decide)

/-- Masking before a step of whole words does not change the masked result. -/
theorem dmaMask_add (x : Word) (n : Nat) :
    ((x &&& 0x1ffffc) + BitVec.ofNat 32 (4 * n)) &&& 0x1ffffc =
      (x + BitVec.ofNat 32 (4 * n)) &&& 0x1ffffc := by
  apply BitVec.eq_of_toNat_eq
  rw [toNat_dmaMask, toNat_dmaMask, BitVec.toNat_add, BitVec.toNat_add, toNat_dmaMask,
    BitVec.toNat_ofNat]
  omega

theorem Ram.wordsAfter_succ (r : Ram) (count : Nat) (addr : Word) :
    r.wordsAfter (count + 1) addr =
      r.word ((addr + 4) &&& 0x1ffffc) :: r.wordsAfter count ((addr + 4) &&& 0x1ffffc) := by
  simp only [Ram.wordsAfter, List.range_succ_eq_map, List.map_cons, List.map_map]
  congr 1
  refine List.map_congr_left fun i _ => ?_
  have hstep : (addr + 4) + BitVec.ofNat 32 (4 * (i + 1)) =
      addr + BitVec.ofNat 32 (4 * (i + 1 + 1)) := by
    rw [BitVec.add_assoc]
    congr 1
    apply BitVec.eq_of_toNat_eq
    rw [BitVec.toNat_add, BitVec.toNat_ofNat, BitVec.toNat_ofNat]
    change (4 + _) % _ = _
    omega
  simp only [Function.comp, Nat.succ_eq_add_one]
  rw [dmaMask_add, hstep]

namespace Bus

/-! ## The loops -/

/-- The packet loop sends the words of the packet. -/
theorem packetLoop_eq (ram : Ram) (remsz : Nat) (addr : Word) (gpu : Gpu) :
    packetLoop ram remsz addr gpu = (ram.wordsAfter remsz addr).foldlM Gpu.gp0 gpu := by
  induction remsz generalizing addr gpu with
  | zero => rfl
  | succ remsz ih =>
    rw [Ram.wordsAfter_succ, List.foldlM_cons]
    simp only [packetLoop, Ram.load32_masked, ok_bind, ih]

theorem stop_eq (header : Word) :
    truth (header &&& ofBool ((0x800000 : Word) != 0)) = header.getLsbD 0 := by
  have hbit := Bits.and_one_shiftLeft_ne_zero_iff header (i := 0) (by decide)
  change (header &&& 1#32 <<< 0 != 0#32) = _
  rw [Bool.eq_iff_iff, bne_iff_ne, hbit]

/-- One turn of the loop: the packet is sent, then the header decides. -/
theorem linkedListLoop_succ (ram : Ram) (fuel : Nat) (addr : Word) (gpu : Gpu) :
    linkedListLoop ram (fuel + 1) (addr &&& 0x1ffffc) gpu =
      (ram.packet (addr &&& 0x1ffffc)).foldlM Gpu.gp0 gpu >>= fun g =>
        if ram.oddHeader (addr &&& 0x1ffffc) then .ok g
        else linkedListLoop ram fuel (ram.nextEntry (addr &&& 0x1ffffc)) g := by
  simp only [linkedListLoop, Ram.load32_masked, ok_bind, packetLoop_eq, stop_eq]
  rfl

/-- **The loop is a walk** that stops at the first odd header. -/
theorem linkedListLoop_eq_ok_iff {ram : Ram} {fuel : Nat} {addr : Word} {gpu gpu' : Gpu} :
    linkedListLoop ram fuel (addr &&& 0x1ffffc) gpu = .ok gpu' ↔
      ∃ words, Chain.walk ram.nextEntry ram.packet ram.oddHeader fuel (addr &&& 0x1ffffc) =
        some words ∧ words.foldlM Gpu.gp0 gpu = .ok gpu' := by
  induction fuel generalizing addr gpu with
  | zero => simp [linkedListLoop, Chain.walk]
  | succ fuel ih =>
    rw [linkedListLoop_succ, Chain.walk]
    cases ram.oddHeader (addr &&& 0x1ffffc) with
    | true =>
      simp only [if_true]
      constructor
      · intro h
        obtain ⟨g, hsent, hret⟩ := bind_eq_ok.mp h
        cases hret
        exact ⟨_, rfl, hsent⟩
      · rintro ⟨words, hwords, hsent⟩
        cases hwords
        exact bind_eq_ok.mpr ⟨gpu', hsent, rfl⟩
    | false =>
      simp only [Bool.false_eq_true, if_false, Option.map_eq_some_iff]
      constructor
      · intro h
        obtain ⟨g, hsent, hrest⟩ := bind_eq_ok.mp h
        obtain ⟨rest, hwalk, hsent'⟩ := ih.mp hrest
        refine ⟨_, ⟨rest, hwalk, rfl⟩, ?_⟩
        rw [List.foldlM_append]
        exact bind_eq_ok.mpr ⟨g, hsent, hsent'⟩
      · rintro ⟨words, ⟨rest, hwalk, rfl⟩, hsent⟩
        rw [List.foldlM_append] at hsent
        obtain ⟨g, hsent, hsent'⟩ := bind_eq_ok.mp hsent
        exact bind_eq_ok.mpr ⟨g, hsent, ih.mpr ⟨rest, hwalk, hsent'⟩⟩

/-- It takes one turn for every entry: as many turns as there are even headers do not bring it to
an end. -/
theorem linkedListLoop_outOfFuel {ram : Ram} (fuel : Nat) {addr : Word} {gpu : Gpu}
    (heven : ∀ n < fuel, ram.oddHeader (ram.nextEntry^[n] (addr &&& 0x1ffffc)) = false)
    (haccepted : ∀ n < fuel, ∃ gpu', (Chain.visited ram.nextEntry ram.packet n
      (addr &&& 0x1ffffc)).foldlM Gpu.gp0 gpu = .ok gpu') :
    linkedListLoop ram fuel (addr &&& 0x1ffffc) gpu = .error .outOfFuel := by
  induction fuel generalizing addr gpu with
  | zero => rfl
  | succ fuel ih =>
    have hgo : ram.oddHeader (addr &&& 0x1ffffc) = false := heven 0 (Nat.succ_pos fuel)
    obtain ⟨g, hg⟩ := haccepted 0 (Nat.succ_pos fuel)
    have hpacket : (ram.packet (addr &&& 0x1ffffc)).foldlM Gpu.gp0 gpu = .ok g := hg
    rw [linkedListLoop_succ, hpacket, ok_bind, hgo, if_neg Bool.false_ne_true]
    refine ih (fun n hn => heven (n + 1) (Nat.succ_lt_succ hn)) fun n hn => ?_
    obtain ⟨gpu', hgpu'⟩ := haccepted (n + 1) (Nat.succ_lt_succ hn)
    rw [Chain.visited, List.foldlM_append, hpacket, ok_bind] at hgpu'
    exact ⟨gpu', hgpu'⟩

/-- A word that GP0 refuses ends the loop, if no header before it does. -/
theorem linkedListLoop_refused {ram : Ram} {n fuel : Nat} {addr : Word} {gpu : Gpu} {e : Fault}
    (heven : ∀ i < n, ram.oddHeader (ram.nextEntry^[i] (addr &&& 0x1ffffc)) = false)
    (hrefused : (Chain.visited ram.nextEntry ram.packet n (addr &&& 0x1ffffc)).foldlM
      Gpu.gp0 gpu = .error e) (hfuel : n < fuel) :
    linkedListLoop ram fuel (addr &&& 0x1ffffc) gpu = .error e := by
  induction n generalizing fuel addr gpu with
  | zero =>
    obtain ⟨bound, rfl⟩ := Nat.exists_eq_add_of_lt hfuel
    have hpacket : (ram.packet (addr &&& 0x1ffffc)).foldlM Gpu.gp0 gpu = .error e := hrefused
    rw [linkedListLoop_succ, hpacket, error_bind]
  | succ n ih =>
    obtain ⟨bound, rfl⟩ := Nat.exists_eq_add_of_lt hfuel
    have hgo : ram.oddHeader (addr &&& 0x1ffffc) = false := heven 0 (Nat.succ_pos n)
    rw [Chain.visited, List.foldlM_append] at hrefused
    rw [linkedListLoop_succ]
    rcases bind_eq_error.mp hrefused with hfirst | ⟨g, hfirst, hrest⟩
    · rw [hfirst, error_bind]
    · rw [hfirst, ok_bind, hgo, if_neg Bool.false_ne_true]
      exact ih (fun i hi => heven (i + 1) (Nat.succ_lt_succ hi)) hrest (by omega)

theorem doDmaLinkedList_eq {b : Bus} (fuel : Nat)
    (hdir : (b.mDma.channel .gpu).direction = .fromRam) :
    b.doDmaLinkedList fuel .gpu =
      linkedListLoop b.mRam fuel ((b.mDma.channel .gpu).base &&& 0x1ffffc) b.mGpu >>= fun gpu =>
        .ok { b with mGpu := gpu, mDma := b.mDma.putChannel .gpu (b.mDma.channel .gpu).done } := by
  have hnot : ¬ (b.mDma.channel .gpu).direction = .toRam := by
    rw [hdir]
    decide
  unfold doDmaLinkedList
  rw [if_neg hnot, if_neg (by decide)]
  rfl

theorem doDmaLinkedList_eq_ok_iff {fuel : Nat} {b b' : Bus}
    (hdir : (b.mDma.channel .gpu).direction = .fromRam) :
    b.doDmaLinkedList fuel .gpu = .ok b' ↔
      ∃ gpu, linkedListLoop b.mRam fuel ((b.mDma.channel .gpu).base &&& 0x1ffffc) b.mGpu = .ok gpu ∧
        b' = { b with mGpu := gpu, mDma := b.mDma.putChannel .gpu (b.mDma.channel .gpu).done } := by
  rw [doDmaLinkedList_eq fuel hdir, bind_eq_ok]
  constructor
  · rintro ⟨gpu, hloop, hret⟩
    cases hret
    exact ⟨gpu, hloop, rfl⟩
  · rintro ⟨gpu, hloop, rfl⟩
    exact ⟨gpu, hloop, rfl⟩

/-! ## The law of the transfer -/

/-- The address of the first entry. -/
def listStart (b : Bus) : Word := (b.mDma.channel .gpu).base &&& 0x1ffffc

/-- The packets of the entries at positions `0, …, n`, in chain order. -/
def packets (b : Bus) (n : Nat) : List Word :=
  Chain.visited b.mRam.nextEntry b.mRam.packet n b.listStart

/-- The packet of the entry at position `i`. -/
def packetAt (b : Bus) (i : Nat) : List Word := b.mRam.packet (b.mRam.nextEntry^[i] b.listStart)

/-- The chain reaches its last entry at position `n`, and GP0 accepts its words. -/
structure Listed (b : Bus) (n : Nat) : Prop where
  direction : (b.mDma.channel .gpu).direction = .fromRam
  ends : Chain.EndsAt b.mRam.nextEntry b.mRam.endMarker b.listStart n
  accepted : ∃ gpu, (b.packets n).foldlM Gpu.gp0 b.mGpu = .ok gpu

/-- The transfer returns; `gp0` was called with exactly `words`, RAM is unchanged and the channel
is done. -/
def Transfers (b : Bus) (words : List Word) : Prop :=
  ∃ fuel b', b.doDmaLinkedList fuel .gpu = .ok b' ∧
    b'.mGpu.received = b.mGpu.received ++ words ∧ b'.mRam = b.mRam ∧
    (b'.mDma.channel .gpu).mEnable = false ∧ (b'.mDma.channel .gpu).mTrigger = false

/-- The first odd header of the chain is at position `m`. -/
def StopsAt (b : Bus) (m : Nat) : Prop :=
  Chain.EndsAt b.mRam.nextEntry b.mRam.oddHeader b.listStart m

/-- **The linked-list transfer** is faithful exactly when it stops, and the entries between its
stop and the end of the list carry no words. -/
theorem transfers_iff {b : Bus} {n : Nat} (h : b.Listed n) :
    b.Transfers (b.packets n) ↔
      ∃ m, b.StopsAt m ∧ ∀ i, min m n < i → i ≤ max m n → b.packetAt i = [] := by
  constructor
  · rintro ⟨fuel, b', hdma, hreceived, -, -, -⟩
    obtain ⟨gpu, hloop, rfl⟩ := (doDmaLinkedList_eq_ok_iff h.direction).mp hdma
    obtain ⟨words, hwalk, hsent⟩ := linkedListLoop_eq_ok_iff.mp hloop
    obtain ⟨m, -, hstop, rfl⟩ := Chain.walk_eq_some_iff.mp hwalk
    rw [Gpu.run_received hsent, List.append_cancel_left_eq] at hreceived
    exact ⟨m, hstop, Chain.visited_eq_iff.mp hreceived⟩
  · rintro ⟨m, hstop, hempty⟩
    obtain ⟨gpu, hsent⟩ := h.accepted
    have hwords : Chain.visited b.mRam.nextEntry b.mRam.packet m b.listStart = b.packets n :=
      Chain.visited_eq_iff.mpr hempty
    have hwalk := Chain.walk_eq_some_iff.mpr ⟨m, Nat.lt_succ_self m, hstop, hwords⟩
    have hloop := linkedListLoop_eq_ok_iff.mpr ⟨_, hwalk, hsent⟩
    refine ⟨m + 1, _, (doDmaLinkedList_eq_ok_iff h.direction).mpr ⟨gpu, hloop, rfl⟩,
      Gpu.run_received hsent, rfl, ?_, ?_⟩
    · rw [Dma.channel_putChannel_self]
      rfl
    · rw [Dma.channel_putChannel_self]
      rfl

/-- A bus with the words `ws` at the start of RAM, and the list there. -/
def ofList (ws : List Word) : Bus :=
  { Bus.new (.ofWords []) with
    mRam := ⟨fun i => byteOf (ws.getD (i / 4) 0) (i % 4)⟩
    mDma := Dma.new.putChannel .gpu { Channel.new with mDirection := .fromRam } }

/-- An entry with a drawing offset, one with a draw mode behind it, then the usual marker. -/
theorem transfers_pointers :
    (ofList [0x0100000c, 0xe5000001, 0, 0x01000018, 0xe1000001, 0, 0x00ffffff]).Transfers
      [0xe5000001, 0xe1000001] := by
  have hlist : (ofList [0x0100000c, 0xe5000001, 0, 0x01000018, 0xe1000001, 0,
      0x00ffffff]).Listed 2 :=
    ⟨rfl, ⟨by decide +kernel, by decide +kernel⟩, _, rfl⟩
  exact (transfers_iff hlist).mpr
    ⟨2, ⟨by decide +kernel, by decide +kernel⟩, fun i hlt hle => by omega⟩

/-- The marker `0x00800000` is even: the transfer does not see it and never returns. -/
theorem not_forall_transfers : ¬ ∀ b n, Listed b n → b.Transfers (b.packets n) := by
  intro h
  have hlist : (ofList [0x00800000]).Listed 0 := ⟨rfl, .zero (by decide +kernel), _, rfl⟩
  obtain ⟨fuel, b', hdma, -⟩ := h _ _ hlist
  obtain ⟨gpu, hloop, -⟩ := (doDmaLinkedList_eq_ok_iff hlist.direction).mp hdma
  obtain ⟨words, hwalk, -⟩ := linkedListLoop_eq_ok_iff.mp hloop
  obtain ⟨m, -, hstop, -⟩ := Chain.walk_eq_some_iff.mp hwalk
  -- the entry is its own successor, and its header is even
  have hself : (ofList [0x00800000]).mRam.nextEntry 0 = 0 := by decide +kernel
  have heven : (ofList [0x00800000]).mRam.oddHeader 0 = false := by decide +kernel
  have hstart : (ofList [0x00800000]).listStart = 0 := rfl
  have hodd := hstop.atEnd
  change (ofList [0x00800000]).mRam.oddHeader (_^[m] (ofList [0x00800000]).listStart) = true at hodd
  rw [hstart, Function.iterate_fixed hself, heven] at hodd
  cases hodd

end Bus

end CppStation
