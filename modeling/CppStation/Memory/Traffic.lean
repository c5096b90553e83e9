import CppStation.Gpu.Display
import CppStation.Memory.BlockDma
import CppStation.Memory.ByteView
import CppStation.Memory.DmaIdle
import CppStation.Memory.OrderingTable

/-!
# The traffic of an access

What an access sends to the ports of the GPU and writes to RAM, as two lists.
A store to a DMA register counts with all the words of the transfer that it
starts.  Nothing else reaches the GPU or RAM, and nothing reaches the BIOS.
-/

namespace CppStation

open Fallible Map ByteMemory

/-! ## The ranges of the map -/

namespace Map

/-- The ranges that an access can select. -/
def ranges : List Range :=
  [mBios, mMemControl, mRamSize, mCacheControl, mRam, mSpu, mExpansion1, mExpansion2, mIrqControl,
    mTimers, mDma, mGpu]

/-- **The ranges do not overlap**: an address selects at most one. -/
theorem ranges_apart {addr : Word} {r r' : Range} (hr : r ∈ ranges) (hr' : r' ∈ ranges)
    (h : offsetIn addr r ≠ -1) (h' : offsetIn addr r' ≠ -1) : r = r' := by
  have hends : ∀ r ∈ ranges, ∀ r' ∈ ranges, r = r' ∨ r.mEnd.toNat ≤ r'.mBase.toNat ∨
      r'.mEnd.toNat ≤ r.mBase.toNat := by decide
  obtain ⟨hbase, hend⟩ := offsetIn_ne_iff.mp h
  obtain ⟨hbase', hend'⟩ := offsetIn_ne_iff.mp h'
  rw [BitVec.le_def] at hbase hbase'
  rw [BitVec.lt_def] at hend hend'
  rcases hends r hr r' hr' with heq | hlt | hlt
  · exact heq
  · omega
  · omega

theorem not_selected {addr : Word} {r r' : Range} (h : offsetIn addr r ≠ -1)
    (hne : r ≠ r' := by decide) (hr : r ∈ ranges := by decide) (hr' : r' ∈ ranges := by decide) :
    ¬ offsetIn addr r' ≠ -1 := fun h' => hne (ranges_apart hr hr' h h')

end Map

/-- The words on the two ports, and the writes to RAM, that lead from `b` to `b'`. -/
structure Bus.Moves (b : Bus) (ports : List PortWrite) (writes : List Write) (b' : Bus) : Prop where
  gpu : b.mGpu.run ports = .ok b'.mGpu
  ram : b'.mRam.mData = replay b.mRam.mData writes
  bios : b'.mBios = b.mBios

namespace Bus

theorem moves_refl (b : Bus) : b.Moves [] [] b := ⟨rfl, rfl, rfl⟩

theorem run_gp0 (g : Gpu) (words : List Word) :
    g.run (words.map .gp0) = words.foldlM Gpu.gp0 g := by
  rw [Gpu.run, List.foldlM_map]
  rfl

/-! ## The linked list -/

/-- The words of the list for the GPU.  Fewer than `2 ^ 19` entries have addresses of their own. -/
def listWords (b : Bus) : List Word :=
  (Chain.walk b.mRam.nextEntry b.mRam.packet b.mRam.oddHeader (2 ^ 19) b.listStart).getD []

/-- Every entry is at an aligned address of RAM. -/
theorem iterate_nextEntry_masked (ram : Ram) (addr : Word) (i : Nat) :
    ∃ x, ram.nextEntry^[i] (addr &&& 0x1ffffc) = x &&& 0x1ffffc := by
  cases i with
  | zero => exact ⟨addr, rfl⟩
  | succ i =>
    rw [Function.iterate_succ_apply']
    exact ⟨_, rfl⟩

/-- A list that ends has at most `2 ^ 19` entries. -/
theorem endsAt_lt {ram : Ram} {addr : Word} {n : Nat}
    (h : Chain.EndsAt ram.nextEntry ram.oddHeader (addr &&& 0x1ffffc) n) : n < 2 ^ 19 := by
  refine h.lt_card (fun x => x.toNat / 4) (fun i _ => ?_) (fun i _ j _ heq => ?_)
  · obtain ⟨x, hx⟩ := iterate_nextEntry_masked ram addr i
    rw [hx, toNat_dmaMask]
    omega
  · obtain ⟨x, hx⟩ := iterate_nextEntry_masked ram addr i
    obtain ⟨y, hy⟩ := iterate_nextEntry_masked ram addr j
    rw [hx, hy, toNat_dmaMask, toNat_dmaMask] at heq
    rw [hx, hy]
    apply BitVec.eq_of_toNat_eq
    rw [toNat_dmaMask, toNat_dmaMask]
    omega

/-- **A walk that returns** sends the words of the list. -/
theorem linkedListLoop_listWords {b : Bus} {fuel : Nat} {gpu : Gpu}
    (h : linkedListLoop b.mRam fuel b.listStart b.mGpu = .ok gpu) :
    b.listWords.foldlM Gpu.gp0 b.mGpu = .ok gpu := by
  obtain ⟨words, hwalk, hsent⟩ := linkedListLoop_eq_ok_iff.mp h
  have hbound := Chain.walk_mono hwalk fun n => endsAt_lt
  rw [listWords, listStart, hbound]
  exact hsent

/-! ## The block transfers -/

/-- The writes of a transfer from the OTC channel, for `n` entries from `addr`. -/
def otcWrites (increment : Word) (n : Nat) (addr : Word) : List Write :=
  (List.range n).map fun i =>
    let slot := addr + BitVec.ofNat 32 i * increment
    ⟨(slot &&& 0x1ffffc).toNat,
      bytesOf 4 (if i + 1 = n then 0xffffff else (slot - 4) &&& 0x1fffff)⟩

theorem otcWrites_succ (increment : Word) (n : Nat) (addr : Word) :
    otcWrites increment (n + 1) addr =
      ⟨(addr &&& 0x1ffffc).toNat,
        bytesOf 4 (if n + 1 = 1 then 0xffffff else (addr - 4) &&& 0x1fffff)⟩ ::
        otcWrites increment n (addr + increment) := by
  rw [otcWrites, List.range_succ_eq_map, List.map_cons, List.map_map, otcWrites]
  congr 1
  · have hslot : addr + BitVec.ofNat 32 0 * increment = addr := by simp
    have hlast : (0 + 1 = n + 1) = (n + 1 = 1) := by
      rw [eq_iff_iff]
      omega
    simp only [hslot, hlast]
  · refine List.map_congr_left fun i _ => ?_
    have hslot : addr + BitVec.ofNat 32 (i + 1) * increment =
        addr + increment + BitVec.ofNat 32 i * increment := by
      rw [BitVec.ofNat_add, BitVec.add_mul, BitVec.one_mul, BitVec.add_comm _ increment,
        BitVec.add_assoc]
    simp only [Function.comp, Nat.succ_eq_add_one, hslot, Nat.add_right_cancel_iff]

/-- **The OTC loop** makes its writes, in both directions. -/
theorem blockLoop_otcWrites (increment : Word) (n : Nat) (addr : Word) (b : Bus) :
    blockLoop .otc .toRam increment n addr b =
      .ok { b with mRam := ⟨replay b.mRam.mData (otcWrites increment n addr)⟩ } := by
  induction n generalizing addr b with
  | zero => rfl
  | succ n ih =>
    have hword : ∀ v : Word, b.mRam.store32 (addr &&& 0x1ffffc).toNat v = _ := fun v =>
      store32_of_inRange b.mRam v (dmaMask_inRange addr)
    rw [blockLoop]
    simp only [blockWord, ok_bind, hword]
    change blockLoop .otc .toRam increment n (addr + increment) _ = _
    rw [ih, otcWrites_succ]
    rfl

/-- A transfer with words to move on another port, or in the other direction, panics. -/
theorem blockLoop_unhandled {port : Port} {dir : Direction} {increment addr : Word} {n : Nat}
    {b b' : Bus} (hgpu : ¬ (port = .gpu ∧ dir = .fromRam)) (hotc : ¬ (port = .otc ∧ dir = .toRam))
    (h : blockLoop port dir increment n addr b = .ok b') : n = 0 ∧ b' = b := by
  cases n with
  | zero =>
    cases h
    exact ⟨rfl, rfl⟩
  | succ n =>
    obtain ⟨b1, hword, -⟩ := bind_eq_ok.mp h
    cases dir with
    | fromRam =>
      obtain ⟨v, -, hport⟩ := bind_eq_ok.mp hword
      cases port
      case gpu => exact absurd ⟨rfl, rfl⟩ hgpu
      all_goals cases hport
    | toRam =>
      cases port
      case otc => exact absurd ⟨rfl, rfl⟩ hotc
      all_goals cases hword

/-! ## The transfers -/

/-- The words that a transfer on `port` sends to GP0. -/
def transferSent (b : Bus) (port : Port) : List Word :=
  if port = .gpu ∧ (b.mDma.channel port).direction = .fromRam then
    if (b.mDma.channel port).sync = .linkedList then b.listWords else b.transferWords
  else []

/-- The writes that a transfer on `port` makes. -/
def transferWrites (b : Bus) (port : Port) : List Write :=
  if port = .otc ∧ (b.mDma.channel port).direction = .toRam then
    otcWrites (b.mDma.channel port).step.offset (b.mDma.channel port).transferSize.toNat
      (b.mDma.channel port).base
  else []

theorem moves_doDmaLinkedList {fuel : Nat} {b b' : Bus} {port : Port}
    (hsync : (b.mDma.channel port).sync = .linkedList)
    (h : b.doDmaLinkedList fuel port = .ok b') :
    b.Moves ((b.transferSent port).map .gp0) (b.transferWrites port) b' := by
  simp only [doDmaLinkedList] at h
  split at h
  · cases h
  split at h
  · cases h
  · next hdir hport =>
    obtain rfl : port = .gpu := not_not.mp hport
    have hfrom : (b.mDma.channel .gpu).direction = .fromRam := by
      cases hd : (b.mDma.channel .gpu).direction with
      | toRam => exact absurd hd hdir
      | fromRam => rfl
    obtain ⟨gpu, hloop, hret⟩ := bind_eq_ok.mp h
    cases hret
    refine ⟨?_, rfl, rfl⟩
    rw [transferSent, if_pos ⟨rfl, hfrom⟩, if_pos hsync, run_gp0]
    exact linkedListLoop_listWords hloop

theorem moves_doDmaBlock {b b' : Bus} {port : Port}
    (hsync : (b.mDma.channel port).sync ≠ .linkedList) (h : b.doDmaBlock port = .ok b') :
    b.Moves ((b.transferSent port).map .gp0) (b.transferWrites port) b' := by
  by_cases hgpu : port = .gpu ∧ (b.mDma.channel port).direction = .fromRam
  · rw [transferSent, if_pos hgpu, if_neg hsync]
    obtain ⟨rfl, hdir⟩ := hgpu
    rw [doDmaBlock_transferWords hsync hdir] at h
    obtain ⟨gpu, hsent, hret⟩ := bind_eq_ok.mp h
    cases hret
    refine ⟨?_, rfl, rfl⟩
    rw [run_gp0]
    exact hsent
  · rw [doDmaBlock_eq, if_neg (Channel.transferSize_ne hsync)] at h
    rw [transferSent, if_neg hgpu]
    obtain ⟨b1, hloop, hret⟩ := bind_eq_ok.mp h
    cases hret
    by_cases hotc : port = .otc ∧ (b.mDma.channel port).direction = .toRam
    · rw [transferWrites, if_pos hotc]
      obtain ⟨rfl, hdir⟩ := hotc
      rw [hdir, blockLoop_otcWrites] at hloop
      cases hloop
      exact ⟨rfl, rfl, rfl⟩
    · rw [transferWrites, if_neg hotc]
      obtain ⟨-, rfl⟩ := blockLoop_unhandled hgpu hotc hloop
      exact ⟨rfl, rfl, rfl⟩

/-- **A transfer that returns** has moved all of its words, and nothing else. -/
theorem moves_doDma {fuel : Nat} {b b' : Bus} {port : Port} (h : b.doDma fuel port = .ok b') :
    b.Moves ((b.transferSent port).map .gp0) (b.transferWrites port) b' := by
  unfold doDma at h
  split at h
  · next hsync => exact moves_doDmaLinkedList hsync h
  · next hsync => exact moves_doDmaBlock hsync h

/-! ## The stores to RAM -/

theorem writeByte_lt {buffer : Buffer} {size index : Nat} {data d : Nat → Byte} {val : Byte}
    (h : writeByte buffer size data index val = .ok d) : index < size := by
  unfold writeByte at h
  split at h
  · next hlt => exact hlt
  · cases h

/-- A store that returns is inside the array. -/
theorem ram_store32_eq_ok {r r' : Ram} {offset : Nat} {val : Word}
    (h : r.store32 offset val = .ok r') :
    r'.mData = Write.apply ⟨offset, bytesOf 4 val⟩ r.mData := by
  obtain ⟨_, -, h1⟩ := bind_eq_ok.mp h
  obtain ⟨_, -, h2⟩ := bind_eq_ok.mp h1
  obtain ⟨_, -, h3⟩ := bind_eq_ok.mp h2
  obtain ⟨_, hlast, -⟩ := bind_eq_ok.mp h3
  have hin : offset + 4 ≤ ramSize := writeByte_lt hlast
  rw [store32_of_inRange r val hin] at h
  cases h
  rfl

theorem ram_store16_eq_ok {r r' : Ram} {offset : Nat} {val : Half}
    (h : r.store16 offset val = .ok r') :
    r'.mData = Write.apply ⟨offset, bytesOf 2 val⟩ r.mData := by
  obtain ⟨_, -, h1⟩ := bind_eq_ok.mp h
  obtain ⟨_, hlast, -⟩ := bind_eq_ok.mp h1
  have hin : offset + 2 ≤ ramSize := writeByte_lt hlast
  rw [store16_of_inRange r val hin] at h
  cases h
  rfl

theorem ram_store8_eq_ok {r r' : Ram} {offset : Nat} {val : Byte}
    (h : r.store8 offset val = .ok r') :
    r'.mData = Write.apply ⟨offset, bytesOf 1 val⟩ r.mData := by
  obtain ⟨_, hlast, -⟩ := bind_eq_ok.mp h
  rw [store8_of_inRange r val (writeByte_lt hlast)] at h
  cases h
  rfl

/-- A store to an aligned word of RAM. -/
theorem store32_withWrite (b : Bus) (fuel : Nat) {addr : Word} (haddr : addr % 4 = 0)
    (hram : (maskRegion addr).toNat < ramSize) (val : Word) :
    b.store32 fuel addr val = .ok (b.withWrite ⟨(maskRegion addr).toNat, bytesOf 4 val⟩) := by
  have hmod : (maskRegion addr).toNat % 4 = 0 :=
    (maskRegion_mod addr (j := 2) (by decide)).trans (congrArg BitVec.toNat haddr)
  have hin : (maskRegion addr).toNat + 4 ≤ ramSize := by
    unfold ramSize at hram ⊢
    omega
  conv_lhs => rw [eq_addr_of_maskRegion hram]
  rw [b.store32_ram _ hram, store32_of_inRange _ _ hin, ok_bind]
  rfl

theorem moves_ram {b : Bus} {ram : Ram} {wr : Write} (h : ram.mData = wr.apply b.mRam.mData) :
    b.Moves [] [wr] { b with mRam := ram } := ⟨rfl, h, rfl⟩

/-! ## The accesses -/

/-- The transfer that writing a DMA register starts, and the bus that it starts in. -/
def started (b : Bus) (offset val : Word) : Option (Bus × Port) :=
  match b.writeDmaReg offset val with
  | .ok (b1, some port) => some (b1, port)
  | _ => none

/-- The words that an access sends to the ports of the GPU. -/
def sent (b : Bus) : Access → List PortWrite
  | .store32 addr val =>
    if offsetIn (maskRegion addr) Map.mDma ≠ -1 then
      match b.started (offsetIn (maskRegion addr) Map.mDma) val with
      | some (b1, port) => (b1.transferSent port).map .gp0
      | none => []
    else if maskRegion addr = 0x1f801810 then [.gp0 val]
    else if maskRegion addr = 0x1f801814 then [.gp1 val]
    else []
  | _ => []

/-- The writes to RAM that an access makes. -/
def written (b : Bus) : Access → List Write
  | .store32 addr val =>
    if offsetIn (maskRegion addr) Map.mDma ≠ -1 then
      match b.started (offsetIn (maskRegion addr) Map.mDma) val with
      | some (b1, port) => b1.transferWrites port
      | none => []
    else if (maskRegion addr).toNat < ramSize then [⟨(maskRegion addr).toNat, bytesOf 4 val⟩]
    else []
  | .store16 addr val =>
    if (maskRegion addr).toNat < ramSize then [⟨(maskRegion addr).toNat, bytesOf 2 val⟩] else []
  | .store8 addr val =>
    if (maskRegion addr).toNat < ramSize then [⟨(maskRegion addr).toNat, bytesOf 1 val⟩] else []
  | _ => []

/-- Writing a DMA register touches nothing but the DMA registers. -/
theorem writeDmaReg_frame {b b1 : Bus} {offset val : Word} {port : Option Port}
    (h : b.writeDmaReg offset val = .ok (b1, port)) :
    b1.mGpu = b.mGpu ∧ b1.mRam = b.mRam ∧ b1.mBios = b.mBios := by
  simp only [writeDmaReg] at h
  split at h
  · obtain ⟨_, -, hrest⟩ := bind_eq_ok.mp h
    obtain ⟨_, -, hret⟩ := bind_eq_ok.mp hrest
    cases hret
    exact ⟨rfl, rfl, rfl⟩
  split at h
  · cases h
    exact ⟨rfl, rfl, rfl⟩
  · cases h
    exact ⟨rfl, rfl, rfl⟩
  · cases h

theorem moves_setDmaReg {fuel : Nat} {b b' : Bus} {addr val : Word}
    (hdma : offsetIn (maskRegion addr) Map.mDma ≠ -1)
    (h : b.setDmaReg fuel (offsetIn (maskRegion addr) Map.mDma) val = .ok b') :
    b.Moves (b.sent (.store32 addr val)) (b.written (.store32 addr val)) b' := by
  rw [setDmaReg_eq] at h
  obtain ⟨⟨b1, port⟩, hwrite, htransfer⟩ := bind_eq_ok.mp h
  obtain ⟨hgpu, hram, hbios⟩ := writeDmaReg_frame hwrite
  simp only [sent, written, if_pos hdma, started, hwrite]
  cases port with
  | none =>
    cases htransfer
    exact ⟨congrArg Except.ok hgpu.symm, congrArg Ram.mData hram, hbios⟩
  | some port =>
    obtain ⟨hsent, hwritten, hrom⟩ := moves_doDma htransfer
    rw [hgpu] at hsent
    rw [hram] at hwritten
    exact ⟨hsent, hwritten, hrom.trans hbios⟩

/-- The ports of the GPU are the two words of its range. -/
theorem eq_port_of_offset {x : Word} (hgpu : offsetIn x Map.mGpu ≠ -1) {k : Nat}
    (hk : (offsetIn x Map.mGpu).toNat = k) : x.toNat = 0x1f801810 + k := by
  obtain ⟨hbase, hend⟩ := offsetIn_ne_iff.mp hgpu
  rw [toNat_offsetIn ⟨hbase, hend⟩] at hk
  rw [BitVec.le_def] at hbase
  change 0x1f801810 ≤ _ at hbase
  change x.toNat - 0x1f801810 = k at hk
  omega

theorem sent_other {b : Bus} {addr val : Word} (hdma : ¬ offsetIn (maskRegion addr) Map.mDma ≠ -1)
    (hgpu : ¬ offsetIn (maskRegion addr) Map.mGpu ≠ -1) : b.sent (.store32 addr val) = [] := by
  have hport : maskRegion addr ≠ 0x1f801810 ∧ maskRegion addr ≠ 0x1f801814 := by
    constructor
    all_goals
      intro heq
      rw [heq] at hgpu
      exact hgpu (by decide)
  simp only [sent, if_neg hdma, if_neg hport.1, if_neg hport.2]

theorem written_other {b : Bus} {addr val : Word}
    (hdma : ¬ offsetIn (maskRegion addr) Map.mDma ≠ -1)
    (hram : ¬ offsetIn (maskRegion addr) Map.mRam ≠ -1) : b.written (.store32 addr val) = [] := by
  rw [ram_selected_iff] at hram
  simp only [written, if_neg hdma, if_neg hram]

theorem moves_gpu {b b' : Bus} {addr val : Word} (w : PortWrite)
    (hgpu : offsetIn (maskRegion addr) Map.mGpu ≠ -1)
    (hsent : b.sent (.store32 addr val) = [w])
    (h : (b.mGpu.write w >>= fun gpu => .ok { b with mGpu := gpu }) = .ok b') :
    b.Moves (b.sent (.store32 addr val)) (b.written (.store32 addr val)) b' := by
  obtain ⟨gpu, hwrite, hret⟩ := bind_eq_ok.mp h
  cases hret
  rw [hsent, written_other (not_selected hgpu) (not_selected hgpu)]
  exact ⟨bind_eq_ok.mpr ⟨gpu, hwrite, rfl⟩, rfl, rfl⟩

theorem moves_store32 {fuel : Nat} {b b' : Bus} {addr val : Word}
    (hdma : ¬ offsetIn (maskRegion addr) Map.mDma ≠ -1) (h : b.store32 fuel addr val = .ok b') :
    b.Moves (b.sent (.store32 addr val)) (b.written (.store32 addr val)) b' := by
  simp only [store32, if_neg hdma] at h
  by_cases hram : offsetIn (maskRegion addr) Map.mRam ≠ -1
  · rw [if_pos hram] at h
    obtain ⟨ram, hstore, hret⟩ := bind_eq_ok.mp h
    cases hret
    have hwritten : b.written (.store32 addr val) = [⟨(maskRegion addr).toNat, bytesOf 4 val⟩] := by
      simp only [written, if_neg hdma, if_pos ((ram_selected_iff _).mp hram)]
    rw [sent_other hdma (not_selected hram), hwritten]
    rw [ram_toNat_offset hram] at hstore
    exact moves_ram (ram_store32_eq_ok hstore)
  rw [if_neg hram] at h
  have hquiet : ¬ offsetIn (maskRegion addr) Map.mGpu ≠ -1 → (.ok b : Result Bus) = .ok b' →
      b.Moves (b.sent (.store32 addr val)) (b.written (.store32 addr val)) b' := by
    intro hgpu heq
    cases heq
    rw [sent_other hdma hgpu, written_other hdma hram]
    exact b.moves_refl
  have hchecked : ∀ {p : Prop} [Decidable p] {format : String} {args : List Nat},
      (if p then panic format args else .ok b) = .ok b' → (.ok b : Result Bus) = .ok b' := by
    intro p _ format args heq
    split at heq
    · cases heq
    · exact heq
  split at h
  · next hsel =>
    refine hquiet (not_selected hsel) ?_
    split at h
    · exact hchecked h
    · exact hchecked h
    · exact h
  split at h
  · next hsel => exact hquiet (not_selected hsel) h
  split at h
  · next hsel => exact hquiet (not_selected hsel) h
  split at h
  · next hsel => exact hquiet (not_selected hsel) h
  split at h
  · next hgpu =>
    split at h
    · next hzero =>
      have haddr : maskRegion addr = 0x1f801810 :=
        BitVec.eq_of_toNat_eq (eq_port_of_offset hgpu hzero)
      refine moves_gpu (.gp0 val) hgpu ?_ h
      simp only [sent, if_neg hdma, if_pos haddr]
    · next hfour =>
      have haddr : maskRegion addr = 0x1f801814 :=
        BitVec.eq_of_toNat_eq (eq_port_of_offset hgpu hfour)
      refine moves_gpu (.gp1 val) hgpu ?_ h
      simp only [sent, haddr]
      rfl
    · cases h
  split at h
  · next hgpu _ => exact hquiet hgpu h
  · cases h

theorem moves_store16 {b b' : Bus} {addr : Word} {val : Half}
    (h : b.store16 addr val = .ok b') : b.Moves [] (b.written (.store16 addr val)) b' := by
  simp only [store16] at h
  by_cases hram : offsetIn (maskRegion addr) Map.mRam ≠ -1
  · rw [if_pos hram] at h
    obtain ⟨ram, hstore, hret⟩ := bind_eq_ok.mp h
    cases hret
    simp only [written, if_pos ((ram_selected_iff _).mp hram)]
    rw [ram_toNat_offset hram] at hstore
    exact moves_ram (ram_store16_eq_ok hstore)
  rw [if_neg hram] at h
  have hquiet : (.ok b : Result Bus) = .ok b' → b.Moves [] (b.written (.store16 addr val)) b' := by
    intro heq
    cases heq
    simp only [written, if_neg (fun hlt => hram ((ram_selected_iff _).mpr hlt))]
    exact b.moves_refl
  split at h
  · exact hquiet h
  split at h
  · exact hquiet h
  split at h
  · exact hquiet h
  · cases h

theorem moves_store8 {b b' : Bus} {addr : Word} {val : Byte}
    (h : b.store8 addr val = .ok b') : b.Moves [] (b.written (.store8 addr val)) b' := by
  simp only [store8] at h
  by_cases hram : offsetIn (maskRegion addr) Map.mRam ≠ -1
  · rw [if_pos hram] at h
    obtain ⟨ram, hstore, hret⟩ := bind_eq_ok.mp h
    cases hret
    simp only [written, if_pos ((ram_selected_iff _).mp hram)]
    rw [ram_toNat_offset hram] at hstore
    exact moves_ram (ram_store8_eq_ok hstore)
  rw [if_neg hram] at h
  split at h
  · cases h
    simp only [written, if_neg (fun hlt => hram ((ram_selected_iff _).mpr hlt))]
    exact b.moves_refl
  · cases h

/-- **Step lemma**: an access that returns has moved its traffic, and nothing else. -/
theorem moves_access {fuel : Nat} {b b' : Bus} {a : Access} (h : b.access fuel a = .ok b') :
    b.Moves (b.sent a) (b.written a) b' := by
  cases a with
  | store32 addr val =>
    by_cases hdma : offsetIn (maskRegion addr) Map.mDma ≠ -1
    · rw [access, store32_dma fuel b val hdma] at h
      exact moves_setDmaReg hdma h
    · exact moves_store32 hdma h
  | store16 addr val => exact moves_store16 h
  | store8 addr val => exact moves_store8 h
  | load32 addr | load16 addr | load8 addr =>
    obtain ⟨_, -, hret⟩ := bind_eq_ok.mp h
    cases hret
    exact b.moves_refl

end Bus

end CppStation
