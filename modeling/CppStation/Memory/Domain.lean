import CppStation.Gpu.Acceptance
import CppStation.Memory.DmaRegisters
import CppStation.Memory.Transfers

/-!
# The accesses in closed form

A table lists, for each kind of access, the ranges that it may select and the
offsets in them that are implemented.  Whether a load returns depends on nothing
else; a store can also start a transfer, or send a word that the GPU does not
take.  An access that returns is determined by its traffic and by the register
that it writes.
-/

namespace CppStation

open Fallible Map ByteMemory

namespace Map

/-! ## A test of the ranges in order -/

/-- The first range that has the address handles the access. -/
def dispatch {α : Type} (addr : Word) (otherwise : Result α) :
    List (Range × (Word → Result α)) → Result α
  | [] => otherwise
  | (range, handle) :: rows =>
    if offsetIn addr range ≠ -1 then handle (offsetIn addr range)
    else dispatch addr otherwise rows

/-- The ranges of an access, and the offsets in them that are implemented. -/
abbrev Table := List (Range × (Nat → Prop))

/-- The address is at an implemented offset of a range. -/
def Table.Has (t : Table) (addr : Word) : Prop :=
  ∃ row ∈ t, offsetIn (maskRegion addr) row.1 ≠ -1 ∧
    row.2 (offsetIn (maskRegion addr) row.1).toNat

/-- At the address `x`, the handler of a range returns as the table says. -/
def Handles {α : Type} (x : Word) (row : Range × (Word → Result α))
    (entry : Range × (Nat → Prop)) : Prop :=
  row.1 = entry.1 ∧ (offsetIn x entry.1 ≠ -1 →
    ((∃ a, row.2 (offsetIn x entry.1) = .ok a) ↔ entry.2 (offsetIn x entry.1).toNat))

theorem handles_of {α : Type} {x : Word} {r : Range} {handle : Word → Result α}
    {implemented : Nat → Prop}
    (h : offsetIn x r ≠ -1 →
      ((∃ a, handle (offsetIn x r) = .ok a) ↔ implemented (offsetIn x r).toNat)) :
    Handles x (r, handle) (r, implemented) :=
  ⟨rfl, h⟩

/-- A range of which every offset is implemented. -/
theorem handles_always {α : Type} {x : Word} {r : Range} {handle : Word → Result α}
    (h : offsetIn x r ≠ -1 → ∃ a, handle (offsetIn x r) = .ok a) :
    Handles x (r, handle) (r, fun _ => True) :=
  handles_of fun hsel => ⟨fun _ => trivial, fun _ => h hsel⟩

/-- **Dispatch rule.**  The ranges do not overlap, so their order does not matter. -/
theorem dispatch_iff {α : Type} {rows : List (Range × (Word → Result α))} {t : Table} {addr : Word}
    {otherwise : Result α} (h : List.Forall₂ (Handles (maskRegion addr)) rows t)
    (hranges : ∀ r ∈ t.map Prod.fst, r ∈ ranges) (hnodup : (t.map Prod.fst).Nodup)
    (hother : ∀ a, otherwise ≠ .ok a) :
    (∃ a, dispatch (maskRegion addr) otherwise rows = .ok a) ↔ t.Has addr := by
  induction h with
  | nil => exact ⟨fun ⟨a, ha⟩ => absurd ha (hother a), fun ⟨_, hmem, _⟩ => nomatch hmem⟩
  | @cons row entry rows t hrow _ ih =>
    obtain ⟨range, handle⟩ := row
    obtain ⟨range', implemented⟩ := entry
    obtain ⟨rfl, hhandles⟩ := hrow
    rw [List.map_cons, List.nodup_cons] at hnodup
    have hrange : range ∈ ranges := hranges _ (List.mem_cons_self ..)
    have htail : ∀ r ∈ t.map Prod.fst, r ∈ ranges := fun r hr =>
      hranges r (List.mem_cons_of_mem _ hr)
    by_cases hsel : offsetIn (maskRegion addr) range ≠ -1
    · simp only [dispatch, if_pos hsel]
      refine (hhandles hsel).trans ⟨fun himpl => ⟨_, List.mem_cons_self .., hsel, himpl⟩, ?_⟩
      rintro ⟨row, hrow, hsel', himpl⟩
      rcases List.mem_cons.mp hrow with rfl | hrow
      · exact himpl
      · have hfst := List.mem_map_of_mem (f := Prod.fst) hrow
        exact absurd (ranges_apart hrange (htail _ hfst) hsel hsel' ▸ hfst) hnodup.1
    · simp only [dispatch, if_neg hsel]
      rw [ih htail hnodup.2]
      refine ⟨fun ⟨row, hrow, hhas⟩ => ⟨row, List.mem_cons_of_mem _ hrow, hhas⟩, ?_⟩
      rintro ⟨row, hrow, hsel', himpl⟩
      rcases List.mem_cons.mp hrow with rfl | hrow
      · exact absurd hsel' hsel
      · exact ⟨row, hrow, hsel', himpl⟩

/-- The row of the range that the address selects decides. -/
theorem Table.has_iff {t : Table} {addr : Word} {r : Range} {implemented : Nat → Prop}
    (hsel : offsetIn (maskRegion addr) r ≠ -1) (hrow : (r, implemented) ∈ t)
    (hranges : ∀ r ∈ t.map Prod.fst, r ∈ ranges) (hnodup : (t.map Prod.fst).Nodup) :
    t.Has addr ↔ implemented (offsetIn (maskRegion addr) r).toNat := by
  refine ⟨fun ⟨row, hmem, hsel', himpl⟩ => ?_, fun himpl => ⟨_, hrow, hsel, himpl⟩⟩
  have hfst {row : Range × (Nat → Prop)} (h : row ∈ t) : row.1 ∈ ranges :=
    hranges _ (List.mem_map_of_mem (f := Prod.fst) h)
  have heq : row.1 = r := ranges_apart (hfst hmem) (hfst hrow) hsel' hsel
  obtain rfl : row = (r, implemented) := List.inj_on_of_nodup_map hnodup hmem hrow heq
  exact himpl

/-! ## The loads -/

/-- The words that can be read. -/
def loads32 : Table :=
  [(mRam, fun n => n + 4 ≤ ramSize), (mBios, fun n => n + 4 ≤ biosSize),
    (mIrqControl, fun _ => True), (mDma, fun n => ∃ r : DmaReg, n = r.offset),
    (mGpu, fun n => n = 0 ∨ n = 4), (mTimers, fun _ => True)]

def loads16 : Table :=
  [(mRam, fun n => n + 2 ≤ ramSize), (mSpu, fun _ => True), (mIrqControl, fun _ => True)]

def loads8 : Table := [(mRam, fun _ => True), (mBios, fun _ => True), (mExpansion1, fun _ => True)]

/-! ## The stores -/

/-- The DMA controller has a register for the value: the sync mode 3 does not exist. -/
def dmaStores (val : Word) (n : Nat) : Prop :=
  ∃ r : DmaReg, n = r.offset ∧ ∀ port, r = .channel port .control → (val >>> 9) &&& 3 ≠ 3

/-- The words that the value `val` can be written to. -/
def stores32 (val : Word) : Table :=
  [(mRam, fun n => n + 4 ≤ ramSize),
    -- The base addresses of the expansions cannot be moved
    (mMemControl, fun n => (n = 0 → val = 0x1f000000) ∧ (n = 4 → val = 0x1f802000)),
    (mRamSize, fun _ => True), (mCacheControl, fun _ => True), (mIrqControl, fun _ => True),
    (mDma, dmaStores val), (mGpu, fun n => n = 0 ∨ n = 4), (mTimers, fun _ => True)]

theorem stores32_ranges (val : Word) : (∀ r ∈ (stores32 val).map Prod.fst, r ∈ ranges) ∧
    ((stores32 val).map Prod.fst).Nodup := by
  change (∀ r ∈ (stores32 0).map Prod.fst, r ∈ ranges) ∧ ((stores32 0).map Prod.fst).Nodup
  decide

def stores16 : Table :=
  [(mRam, fun n => n + 2 ≤ ramSize), (mSpu, fun _ => True), (mTimers, fun _ => True),
    (mIrqControl, fun _ => True)]

def stores8 : Table := [(mRam, fun _ => True), (mExpansion2, fun _ => True)]

end Map

namespace DmaReg

/-- The registers, by their offsets. -/
def all : List DmaReg :=
  ([.mdecIn, .mdecOut, .gpu, .cdRom, .spu, .pio, .otc] : List Port).flatMap
    (fun port => [.channel port .base, .channel port .blockControl, .channel port .control]) ++
      [.control, .interrupt]

theorem mem_all (r : DmaReg) : r ∈ all := by
  cases r with
  | channel port reg => cases port <;> cases reg <;> decide
  | control => decide
  | interrupt => decide

theorem offset_injective {r r' : DmaReg} (h : r.offset = r'.offset) : r = r' := by
  have hinj : ∀ r ∈ all, ∀ r' ∈ all, r.offset = r'.offset → r = r' := by decide +kernel
  exact hinj r r.mem_all r' r'.mem_all h

/-- Neither `dmaReg` nor `setDmaReg` has a case for the offset. -/
def Unmapped (offset : Word) : Prop :=
  (offset &&& 0xf).toNat ≠ 0 ∧ (offset &&& 0xf).toNat ≠ 4 ∧
    (((offset &&& 0x70) >>> 4).toNat < 7 → (offset &&& 0xf).toNat ≠ 8)

theorem unmapped_ofNat : ∀ n < 0x80, ((BitVec.ofNat 32 n &&& 0xf).toNat ≠ 0 ∧
    (BitVec.ofNat 32 n &&& 0xf).toNat ≠ 4 ∧
      (((BitVec.ofNat 32 n &&& 0x70) >>> 4).toNat < 7 → (BitVec.ofNat 32 n &&& 0xf).toNat ≠ 8)) ↔
    ∀ r ∈ all, n ≠ r.offset := by
  decide +kernel

/-- An offset has a register, or it is not mapped. -/
theorem unmapped_iff {offset : Word} (h : offset.toNat < 0x80) :
    Unmapped offset ↔ ¬ ∃ r : DmaReg, offset.toNat = r.offset := by
  have hiff := unmapped_ofNat offset.toNat h
  rw [show BitVec.ofNat 32 offset.toNat = offset by simp] at hiff
  refine hiff.trans ⟨fun hall hex => ?_, fun hnone r _ hr => hnone ⟨r, hr⟩⟩
  obtain ⟨r, hr⟩ := hex
  exact hall r r.mem_all hr

end DmaReg

theorem toNat_dmaOffset_lt {addr : Word} (h : offsetIn addr Map.mDma ≠ -1) :
    (offsetIn addr Map.mDma).toNat < 0x80 := by
  have hmem := offsetIn_ne_iff.mp h
  have hbase : Map.mDma.mBase.toNat = 0x1f801080 := rfl
  have hend : Map.mDma.mEnd.toNat = 0x1f801100 := rfl
  rw [toNat_offsetIn hmem, hbase]
  rw [BitVec.le_def, BitVec.lt_def, hbase, hend] at hmem
  omega

namespace Bus

/-! ## Loads return by their address -/

section

variable (b : Bus) (x : Word)

theorem toNat_ramOffset_lt {x : Word} (h : offsetIn x Map.mRam ≠ -1) :
    (offsetIn x Map.mRam).toNat < ramSize := by
  rw [ram_toNat_offset h]
  exact (ram_selected_iff x).mp h

theorem toNat_biosOffset_lt {x : Word} (h : offsetIn x Map.mBios ≠ -1) :
    (offsetIn x Map.mBios).toNat < biosSize := by
  have hmem := (bios_selected_iff x).mp h
  rw [bios_toNat_offset h]
  omega

theorem handles_ram32 : Handles x (Map.mRam, fun offset => b.mRam.load32 offset.toNat)
    (Map.mRam, fun n => n + 4 ≤ ramSize) := by
  refine handles_of fun hsel => ⟨fun ⟨v, hv⟩ => ?_, fun h => ⟨_, load32_of_inRange b.mRam h⟩⟩
  by_contra hcross
  cases hv.symm.trans
    (load32_crosses b.mRam (toNat_ramOffset_lt hsel) (Nat.lt_of_not_le hcross))

theorem handles_ram16 : Handles x (Map.mRam, fun offset => b.mRam.load16 offset.toNat)
    (Map.mRam, fun n => n + 2 ≤ ramSize) := by
  refine handles_of fun hsel => ⟨fun ⟨v, hv⟩ => ?_, fun h => ⟨_, load16_of_inRange b.mRam h⟩⟩
  by_contra hcross
  cases hv.symm.trans
    (load16_crosses b.mRam (toNat_ramOffset_lt hsel) (Nat.lt_of_not_le hcross))

theorem handles_bios32 : Handles x (Map.mBios, fun offset => b.mBios.load32 offset.toNat)
    (Map.mBios, fun n => n + 4 ≤ biosSize) := by
  refine handles_of fun hsel =>
    ⟨fun ⟨v, hv⟩ => ?_, fun h => ⟨_, bios_load32_of_inRange b.mBios h⟩⟩
  by_contra hcross
  cases hv.symm.trans (bios_load32_crosses b.mBios (toNat_biosOffset_lt hsel)
    (Nat.lt_of_not_le hcross))

theorem dmaReg_unmapped {b : Bus} {offset v : Word} (h : DmaReg.Unmapped offset) :
    b.dmaReg offset ≠ .ok v := by
  obtain ⟨h0, h4, h8⟩ := h
  intro hv
  simp only [dmaReg] at hv
  split at hv
  · next hmajor =>
    obtain ⟨port, -, hv⟩ := bind_eq_ok.mp hv
    split at hv
    · next heq => exact h0 heq
    · next heq => exact h4 heq
    · next heq => exact h8 hmajor heq
    · cases hv
  · cases hv

theorem ofNat_offset {offset : Word} {r : DmaReg} (h : offset.toNat = r.offset) :
    offset = BitVec.ofNat 32 r.offset := by
  rw [← h]
  simp

theorem handles_dmaReg :
    Handles x (Map.mDma, b.dmaReg) (Map.mDma, fun n => ∃ r : DmaReg, n = r.offset) := by
  refine handles_of fun hsel => ?_
  have hunmapped := DmaReg.unmapped_iff (toNat_dmaOffset_lt hsel)
  constructor
  · rintro ⟨v, hv⟩
    exact not_not.mp fun hnone => dmaReg_unmapped (hunmapped.mpr hnone) hv
  · rintro ⟨r, hr⟩
    exact ⟨_, by rw [ofNat_offset hr, dmaReg_offset]⟩

/-- The handlers of `load32`, in its order. -/
def rows32 : List (Range × (Word → Result Word)) :=
  [(Map.mRam, fun offset => b.mRam.load32 offset.toNat),
    (Map.mBios, fun offset => b.mBios.load32 offset.toNat), (Map.mIrqControl, fun _ => .ok 0),
    (Map.mDma, b.dmaReg),
    (Map.mGpu, fun offset =>
      match offset.toNat with
      | 0 => .ok b.mGpu.read
      | 4 => .ok b.mGpu.status
      | offset => panic "Unhandled GPU read \x7b\x7d" [offset]),
    (Map.mTimers, fun _ => .ok 0)]

theorem load32_eq_dispatch (addr : Word) : b.load32 addr = dispatch (maskRegion addr)
    (panic "load32: Unhandled load32 at address \x7b:08x\x7d" [(maskRegion addr).toNat]) b.rows32 :=
  rfl

theorem load32_iff (addr : Word) : (∃ v, b.load32 addr = .ok v) ↔ loads32.Has addr := by
  rw [load32_eq_dispatch]
  refine dispatch_iff (.cons (b.handles_ram32 _) (.cons (b.handles_bios32 _)
    (.cons (handles_always fun _ => ⟨0, rfl⟩) (.cons (b.handles_dmaReg _)
      (.cons (handles_of fun _ => ?_) (.cons (handles_always fun _ => ⟨0, rfl⟩) .nil))))))
    (by decide) (by decide) (fun _ h => nomatch h)
  split
  · next hzero => exact ⟨fun _ => .inl hzero, fun _ => ⟨_, rfl⟩⟩
  · next hfour => exact ⟨fun _ => .inr hfour, fun _ => ⟨_, rfl⟩⟩
  · next hzero hfour =>
    exact ⟨fun ⟨_, hv⟩ => (nomatch hv), fun h => (h.elim hzero hfour).elim⟩

theorem load16_iff (addr : Word) : (∃ v, b.load16 addr = .ok v) ↔ loads16.Has addr := by
  have hdispatch : b.load16 addr = dispatch (maskRegion addr)
      (panic "unhandled load16 at address \x7b:08x\x7d" [addr.toNat])
      [(Map.mRam, fun offset => b.mRam.load16 offset.toNat), (Map.mSpu, fun _ => .ok 0),
        (Map.mIrqControl, fun _ => .ok 0)] := rfl
  rw [hdispatch]
  exact dispatch_iff (.cons (b.handles_ram16 _) (.cons (handles_always fun _ => ⟨0, rfl⟩)
    (.cons (handles_always fun _ => ⟨0, rfl⟩) .nil))) (by decide) (by decide)
    (fun _ h => nomatch h)

theorem load8_iff (addr : Word) : (∃ v, b.load8 addr = .ok v) ↔ loads8.Has addr := by
  have hdispatch : b.load8 addr = dispatch (maskRegion addr)
      (panic "unhandled load8 at address \x7b:08x\x7d" [addr.toNat])
      [(Map.mRam, fun offset => b.mRam.load8 offset.toNat),
        (Map.mBios, fun offset => b.mBios.load8 offset.toNat),
        (Map.mExpansion1, fun _ => .ok 0xff)] := rfl
  rw [hdispatch]
  exact dispatch_iff
    (.cons (handles_always fun hsel => ⟨_, load8_of_inRange b.mRam (toNat_ramOffset_lt hsel)⟩)
      (.cons (handles_always fun hsel => ⟨_, if_pos (toNat_biosOffset_lt hsel)⟩)
        (.cons (handles_always fun _ => ⟨0xff, rfl⟩) .nil))) (by decide) (by decide)
    (fun _ h => nomatch h)

end

/-! ## Stores to RAM and to the registers without effect -/

/-- A store whose result is put into the bus. -/
theorem returns_put {α : Type} {x : Result α} {f : α → Bus} :
    (∃ b', (x >>= fun a => .ok (f a)) = .ok b') ↔ ∃ a, x = .ok a := by
  cases x with
  | error e => exact ⟨fun ⟨_, h⟩ => (nomatch h), fun ⟨_, h⟩ => (nomatch h)⟩
  | ok a => exact ⟨fun _ => ⟨a, rfl⟩, fun _ => ⟨f a, rfl⟩⟩

section

variable (b : Bus) (addr : Word)

theorem ram_store32_iff (r : Ram) (offset : Nat) (val : Word) :
    (∃ r', r.store32 offset val = .ok r') ↔ offset + 4 ≤ ramSize := by
  refine ⟨fun ⟨r', h⟩ => ?_, fun h => ⟨_, store32_of_inRange r val h⟩⟩
  obtain ⟨_, -, h1⟩ := bind_eq_ok.mp h
  obtain ⟨_, -, h2⟩ := bind_eq_ok.mp h1
  obtain ⟨_, -, h3⟩ := bind_eq_ok.mp h2
  obtain ⟨_, hlast, -⟩ := bind_eq_ok.mp h3
  exact writeByte_lt hlast

theorem ram_store16_iff (r : Ram) (offset : Nat) (val : Half) :
    (∃ r', r.store16 offset val = .ok r') ↔ offset + 2 ≤ ramSize := by
  refine ⟨fun ⟨r', h⟩ => ?_, fun h => ⟨_, store16_of_inRange r val h⟩⟩
  obtain ⟨_, -, h1⟩ := bind_eq_ok.mp h
  obtain ⟨_, hlast, -⟩ := bind_eq_ok.mp h1
  exact writeByte_lt hlast

theorem store16_iff (val : Half) : (∃ b', b.store16 addr val = .ok b') ↔ stores16.Has addr := by
  have hdispatch : b.store16 addr val = dispatch (maskRegion addr)
      (panic "unhandled store16 into address \x7b:08x\x7d" [addr.toNat])
      [(Map.mRam, fun offset => do
          let ram ← b.mRam.store16 offset.toNat val
          return { b with mRam := ram }),
        (Map.mSpu, fun _ => .ok b), (Map.mTimers, fun _ => .ok b),
        (Map.mIrqControl, fun _ => .ok b)] := rfl
  have hquiet {r : Range} : Handles (maskRegion addr) (r, fun _ => (.ok b : Result Bus))
      (r, fun _ => True) := handles_always fun _ => ⟨b, rfl⟩
  rw [hdispatch]
  exact dispatch_iff (.cons (handles_of fun _ => returns_put.trans (ram_store16_iff _ _ val))
    (.cons hquiet (.cons hquiet (.cons hquiet .nil)))) (by decide) (by decide)
    (fun _ h => nomatch h)

theorem store8_iff (val : Byte) : (∃ b', b.store8 addr val = .ok b') ↔ stores8.Has addr := by
  have hdispatch : b.store8 addr val = dispatch (maskRegion addr)
      (panic "unhandled store8 into address \x7b:08x\x7d: \x7b:02x\x7d" [addr.toNat, val.toNat])
      [(Map.mRam, fun offset => do
          let ram ← b.mRam.store8 offset.toNat val
          return { b with mRam := ram }),
        (Map.mExpansion2, fun _ => .ok b)] := rfl
  rw [hdispatch]
  exact dispatch_iff
    (.cons (handles_always fun hsel => returns_put.mpr
        ⟨_, store8_of_inRange b.mRam val (toNat_ramOffset_lt hsel)⟩)
      (.cons (handles_always fun _ => ⟨b, rfl⟩) .nil)) (by decide) (by decide)
    (fun _ h => nomatch h)

/-- Outside the DMA controller and the GPU. -/
theorem store32_iff_of_quiet (fuel : Nat) (val : Word)
    (hdma : ¬ offsetIn (maskRegion addr) Map.mDma ≠ -1)
    (hgpu : ¬ offsetIn (maskRegion addr) Map.mGpu ≠ -1) :
    (∃ b', b.store32 fuel addr val = .ok b') ↔ (stores32 val).Has addr := by
  have hdispatch : b.store32 fuel addr val = dispatch (maskRegion addr)
      (panic "unhandled store32 into address \x7b:08x\x7d" [(maskRegion addr).toNat])
      [(Map.mRam, fun offset => do
          let ram ← b.mRam.store32 offset.toNat val
          return { b with mRam := ram }),
        (Map.mMemControl, fun offset =>
          match offset.toNat with
          | 0 =>
            if val ≠ 0x1f000000 then
              panic "Bad expansion 1 base address: 0x\x7b:08x\x7d" [val.toNat]
            else .ok b
          | 4 =>
            if val ≠ 0x1f802000 then
              panic "Bad expansion 2 base address: 0x\x7b:08x\x7d" [val.toNat]
            else .ok b
          | _ => .ok b),
        (Map.mRamSize, fun _ => .ok b), (Map.mCacheControl, fun _ => .ok b),
        (Map.mIrqControl, fun _ => .ok b), (Map.mDma, fun offset => b.setDmaReg fuel offset val),
        (Map.mGpu, fun offset =>
          match offset.toNat with
          | 0 => do
            let gpu ← b.mGpu.gp0 val
            return { b with mGpu := gpu }
          | 4 => do
            let gpu ← b.mGpu.gp1 val
            return { b with mGpu := gpu }
          | offset => panic "GPU write \x7b\x7d: \x7b:08x\x7d" [offset, val.toNat]),
        (Map.mTimers, fun _ => .ok b)] := rfl
  have hquiet {r : Range} : Handles (maskRegion addr) (r, fun _ => (.ok b : Result Bus))
      (r, fun _ => True) := handles_always fun _ => ⟨b, rfl⟩
  have hchecked {p : Prop} [Decidable p] {format : String} {args : List Nat} :
      (∃ b', (if p then panic format args else .ok b) = .ok b') ↔ ¬ p := by
    by_cases hp : p
    · rw [if_pos hp]
      exact ⟨fun ⟨_, h⟩ => (nomatch h), fun h => absurd hp h⟩
    · rw [if_neg hp]
      exact ⟨fun _ => hp, fun _ => ⟨b, rfl⟩⟩
  rw [hdispatch]
  refine dispatch_iff (.cons (handles_of fun _ => returns_put.trans (ram_store32_iff _ _ val))
    (.cons (handles_of fun _ => ?_) (.cons hquiet (.cons hquiet (.cons hquiet
      (.cons (handles_of fun hsel => absurd hsel hdma)
        (.cons (handles_of fun hsel => absurd hsel hgpu) (.cons hquiet .nil))))))))
    (stores32_ranges val).1 (stores32_ranges val).2 (fun _ h => nomatch h)
  split
  · next hzero =>
    rw [hchecked, not_not]
    exact ⟨fun h => ⟨fun _ => h, fun hfour => by omega⟩, fun h => h.1 hzero⟩
  · next hfour =>
    rw [hchecked, not_not]
    exact ⟨fun h => ⟨fun hzero => by omega, fun _ => h⟩, fun h => h.2 hfour⟩
  · next hzero hfour =>
    exact ⟨fun _ => ⟨fun h => absurd h hzero, fun h => absurd h hfour⟩, fun _ => ⟨b, rfl⟩⟩

end

/-! ## Stores to the DMA controller -/

theorem toNat_sync_ne (x : Sync) : x.toWord ≠ 3 := by cases x <;> decide

theorem setControl_iff (c : Channel) (val : Word) :
    (∃ c', c.setControl val = .ok c') ↔ (val >>> 9) &&& 3 ≠ 3 := by
  refine ⟨fun ⟨c', h⟩ hthree => ?_, fun hne => ?_⟩
  · have hsync := (Channel.decodes_of_setControl h).sync
    exact toNat_sync_ne _ (hsync.trans hthree)
  · have hle : ((val >>> 9) &&& 3).toNat ≤ 3 := Bits.toNat_and_le _ _
    have hthree : ((val >>> 9) &&& 3).toNat ≠ 3 := fun h => hne (BitVec.eq_of_toNat_eq h)
    simp only [Channel.setControl]
    split
    case h_4 h0 h1 h2 => exact absurd hle (by grind)
    all_goals exact ⟨_, rfl⟩

theorem writeDmaReg_offset (b : Bus) (r : DmaReg) (val : Word) :
    b.writeDmaReg (BitVec.ofNat 32 r.offset) val =
      match r with
      | .channel port reg => reg.write (b.mDma.channel port) val >>= fun channel =>
          .ok ({ b with mDma := b.mDma.putChannel port channel },
            if channel.active then some port else none)
      | .control => .ok ({ b with mDma := b.mDma.setControl val }, none)
      | .interrupt => .ok ({ b with mDma := b.mDma.setInterrupt val }, none) := by
  cases r with
  | channel port reg => cases port <;> cases reg <;> rfl
  | control => rfl
  | interrupt => rfl

theorem writeDmaReg_unmapped {b : Bus} {offset val : Word} {written : Bus × Option Port}
    (h : DmaReg.Unmapped offset) : b.writeDmaReg offset val ≠ .ok written := by
  obtain ⟨h0, h4, h8⟩ := h
  intro hwrite
  simp only [writeDmaReg] at hwrite
  split at hwrite
  · next hmajor =>
    obtain ⟨port, -, hwrite⟩ := bind_eq_ok.mp hwrite
    obtain ⟨channel, hchannel, -⟩ := bind_eq_ok.mp hwrite
    simp only [setChannelReg] at hchannel
    split at hchannel
    · next heq => exact h0 heq
    · next heq => exact h4 heq
    · next heq => exact h8 hmajor heq
    · cases hchannel
  · cases hwrite

/-- A register takes every value but a control word with the sync mode 3. -/
theorem writeDmaReg_iff {b : Bus} {offset : Word} (val : Word) (h : offset.toNat < 0x80) :
    (∃ written, b.writeDmaReg offset val = .ok written) ↔ dmaStores val offset.toNat := by
  by_cases hmapped : ∃ r : DmaReg, offset.toNat = r.offset
  · obtain ⟨r, hr⟩ := hmapped
    have hinj {r' : DmaReg} (hr' : offset.toNat = r'.offset) : r' = r :=
      DmaReg.offset_injective (hr'.symm.trans hr)
    have hstores : dmaStores val offset.toNat ↔
        ∀ port, r = .channel port .control → (val >>> 9) &&& 3 ≠ 3 := by
      refine ⟨fun ⟨r', hr', hsync⟩ => ?_, fun hsync => ⟨r, hr, hsync⟩⟩
      rw [← hinj hr']
      exact hsync
    rw [hstores, ofNat_offset hr, writeDmaReg_offset]
    cases r with
    | control => exact ⟨fun _ _ h => (nomatch h), fun _ => ⟨_, rfl⟩⟩
    | interrupt => exact ⟨fun _ _ h => (nomatch h), fun _ => ⟨_, rfl⟩⟩
    | channel port reg =>
      cases reg with
      | base => exact ⟨fun _ _ h => (nomatch h), fun _ => ⟨_, rfl⟩⟩
      | blockControl => exact ⟨fun _ _ h => (nomatch h), fun _ => ⟨_, rfl⟩⟩
      | control =>
        have hiff := setControl_iff (b.mDma.channel port) val
        refine ⟨fun ⟨written, hwrite⟩ _ _ => ?_, fun hsync => ?_⟩
        · obtain ⟨channel, hchannel, -⟩ := bind_eq_ok.mp hwrite
          exact hiff.mp ⟨channel, hchannel⟩
        · obtain ⟨channel, hchannel⟩ := hiff.mpr (hsync port rfl)
          exact ⟨_, bind_eq_ok.mpr ⟨channel, hchannel, rfl⟩⟩
  · refine ⟨fun ⟨_, hwrite⟩ => ?_, fun ⟨r, hr, _⟩ => absurd ⟨r, hr⟩ hmapped⟩
    exact absurd hwrite (writeDmaReg_unmapped ((DmaReg.unmapped_iff h).mpr hmapped))

/-! ## Every access -/

/-- The transfer that the access starts. -/
def starts (b : Bus) : Access → Option (Bus × Port)
  | .store32 addr val =>
    if offsetIn (maskRegion addr) Map.mDma ≠ -1 then
      b.started (offsetIn (maskRegion addr) Map.mDma) val
    else none
  | _ => none

end Bus

/-- The address is implemented for the access, and so is the value at the address. -/
def Access.Mapped : Access → Prop
  | .load32 addr => loads32.Has addr
  | .load16 addr => loads16.Has addr
  | .load8 addr => loads8.Has addr
  | .store32 addr val => (stores32 val).Has addr
  | .store16 addr _ => stores16.Has addr
  | .store8 addr _ => stores8.Has addr

namespace Bus

/-- What an access needs in order to return. -/
structure Accepts (b : Bus) (a : Access) : Prop where
  mapped : a.Mapped
  supported : ∀ b1 port, b.starts a = some (b1, port) → b1.Supported port
  taken : b.mGpu.parser.accepts (b.sent a) = true

theorem Reachable.gpu {bios : Bios} {b : Bus} (h : Reachable bios b) : b.mGpu.Reachable := by
  refine Transition.Reachable.invariant (P := fun b : Bus => b.mGpu.Reachable) .new ?_ h
  rintro b b' hgpu ⟨fuel, a, haccess⟩
  exact hgpu.run (moves_access haccess).gpu

theorem store32_gpu (fuel : Nat) (b : Bus) {addr : Word} (val : Word)
    (hsel : offsetIn (maskRegion addr) Map.mGpu ≠ -1) :
    b.store32 fuel addr val =
      match (offsetIn (maskRegion addr) Map.mGpu).toNat with
      | 0 => do
        let gpu ← b.mGpu.gp0 val
        return { b with mGpu := gpu }
      | 4 => do
        let gpu ← b.mGpu.gp1 val
        return { b with mGpu := gpu }
      | offset => panic "GPU write \x7b\x7d: \x7b:08x\x7d" [offset, val.toNat] := by
  have hapart : ∀ r ∈ ranges, r ≠ Map.mGpu → ¬ offsetIn (maskRegion addr) r ≠ -1 :=
    fun r hr hne hsel' => hne (ranges_apart hr (by decide) hsel' hsel)
  refine (if_neg (hapart Map.mRam (by decide) (by decide))).trans ?_
  refine (if_neg (hapart Map.mMemControl (by decide) (by decide))).trans ?_
  refine (if_neg (hapart Map.mRamSize (by decide) (by decide))).trans ?_
  refine (if_neg (hapart Map.mCacheControl (by decide) (by decide))).trans ?_
  refine (if_neg (hapart Map.mIrqControl (by decide) (by decide))).trans ?_
  exact (if_neg (hapart Map.mDma (by decide) (by decide))).trans (if_pos hsel)

/-! ### An access that returns -/

theorem mapped_of_store32 {fuel : Nat} {b b' : Bus} {addr val : Word}
    (h : b.store32 fuel addr val = .ok b') : (stores32 val).Has addr := by
  obtain ⟨hranges, hnodup⟩ := stores32_ranges val
  by_cases hdma : offsetIn (maskRegion addr) Map.mDma ≠ -1
  · rw [store32_dma fuel b val hdma, setDmaReg_eq] at h
    obtain ⟨written, hwrite, -⟩ := bind_eq_ok.mp h
    have hstores := (writeDmaReg_iff val (toNat_dmaOffset_lt hdma)).mp ⟨written, hwrite⟩
    exact (Table.has_iff hdma (by simp [stores32]) hranges hnodup).mpr hstores
  by_cases hgpu : offsetIn (maskRegion addr) Map.mGpu ≠ -1
  · have hrow : (Map.mGpu, fun n => n = 0 ∨ n = 4) ∈ stores32 val := by simp [stores32]
    refine (Table.has_iff hgpu hrow hranges hnodup).mpr ?_
    rw [store32_gpu fuel b val hgpu] at h
    split at h
    · next hzero => exact .inl hzero
    · next hfour => exact .inr hfour
    · cases h
  · exact (b.store32_iff_of_quiet addr fuel val hdma hgpu).mp ⟨b', h⟩

theorem mapped_of_access {fuel : Nat} {b b' : Bus} {a : Access} (h : b.access fuel a = .ok b') :
    a.Mapped := by
  cases a with
  | store32 addr val => exact mapped_of_store32 h
  | store16 addr val => exact (b.store16_iff addr val).mp ⟨b', h⟩
  | store8 addr val => exact (b.store8_iff addr val).mp ⟨b', h⟩
  | load32 addr =>
    obtain ⟨v, hv, -⟩ := bind_eq_ok.mp h
    exact (b.load32_iff addr).mp ⟨v, hv⟩
  | load16 addr =>
    obtain ⟨v, hv, -⟩ := bind_eq_ok.mp h
    exact (b.load16_iff addr).mp ⟨v, hv⟩
  | load8 addr =>
    obtain ⟨v, hv, -⟩ := bind_eq_ok.mp h
    exact (b.load8_iff addr).mp ⟨v, hv⟩

theorem supported_of_access {fuel : Nat} {b b' b1 : Bus} {a : Access} {port : Port}
    (h : b.access fuel a = .ok b') (hstarts : b.starts a = some (b1, port)) :
    b1.Supported port := by
  cases a with
  | store32 addr val =>
    by_cases hdma : offsetIn (maskRegion addr) Map.mDma ≠ -1
    · rw [access, store32_dma fuel b val hdma, setDmaReg_eq] at h
      obtain ⟨⟨b2, started⟩, hwrite, hdone⟩ := bind_eq_ok.mp h
      rw [starts, if_pos hdma, Bus.started, hwrite] at hstarts
      cases started with
      | none => cases hstarts
      | some port' =>
        cases hstarts
        exact supported_of_doDma hdone
    · rw [starts, if_neg hdma] at hstarts
      cases hstarts
  | store16 addr val | store8 addr val | load32 addr | load16 addr | load8 addr => cases hstarts

/-! ### An access that is accepted -/

theorem store32_of_accepts {b : Bus} {addr val : Word} (hgpu : b.mGpu.Reachable)
    (h : b.Accepts (.store32 addr val)) : ∃ fuel b', b.store32 fuel addr val = .ok b' := by
  obtain ⟨hranges, hnodup⟩ := stores32_ranges val
  obtain ⟨hmapped, hsupported, htaken⟩ := h
  obtain ⟨gpu, hsent⟩ := hgpu.parses_parser.accepts.1.mpr htaken
  by_cases hdma : offsetIn (maskRegion addr) Map.mDma ≠ -1
  · have hrow : (Map.mDma, dmaStores val) ∈ stores32 val := by simp [stores32]
    have hstores := (Table.has_iff hdma hrow hranges hnodup).mp hmapped
    obtain ⟨⟨b1, started⟩, hwrite⟩ :=
      (writeDmaReg_iff (b := b) val (toNat_dmaOffset_lt hdma)).mpr hstores
    simp only [store32_dma _ b val hdma, setDmaReg_eq, hwrite, ok_bind]
    cases started with
    | none => exact ⟨0, b1, rfl⟩
    | some port =>
      have hstarted : b.started (offsetIn (maskRegion addr) Map.mDma) val = some (b1, port) := by
        rw [Bus.started, hwrite]
      simp only [sent, if_pos hdma, hstarted] at hsent
      rw [run_gp0, ← (writeDmaReg_frame hwrite).1] at hsent
      have hstarts : b.starts (.store32 addr val) = some (b1, port) := by
        rw [starts, if_pos hdma, hstarted]
      obtain ⟨fuel, hdone⟩ := doDma_supported (hsupported b1 port hstarts) hsent
      exact ⟨fuel, _, hdone⟩
  by_cases hport : offsetIn (maskRegion addr) Map.mGpu ≠ -1
  · have hrow : (Map.mGpu, fun n => n = 0 ∨ n = 4) ∈ stores32 val := by simp [stores32]
    have hoffset := (Table.has_iff hport hrow hranges hnodup).mp hmapped
    refine ⟨0, ?_⟩
    rw [store32_gpu 0 b val hport]
    rcases hoffset with hzero | hfour
    · have haddr : maskRegion addr = 0x1f801810 :=
        BitVec.eq_of_toNat_eq (eq_port_of_offset hport hzero)
      simp only [sent, if_neg hdma, if_pos haddr, Gpu.run, List.foldlM_cons] at hsent
      obtain ⟨g, hg, -⟩ := bind_eq_ok.mp hsent
      simp only [hzero]
      exact returns_put.mpr ⟨g, hg⟩
    · have haddr : maskRegion addr = 0x1f801814 :=
        BitVec.eq_of_toNat_eq (eq_port_of_offset hport hfour)
      have hne : ¬ maskRegion addr = 0x1f801810 := by
        rw [haddr]
        decide
      simp only [sent, if_neg hdma, if_neg hne, if_pos haddr, Gpu.run, List.foldlM_cons] at hsent
      obtain ⟨g, hg, -⟩ := bind_eq_ok.mp hsent
      simp only [hfour]
      exact returns_put.mpr ⟨g, hg⟩
  · exact ⟨0, (b.store32_iff_of_quiet addr 0 val hdma hport).mpr hmapped⟩

theorem accepts_of_access {fuel : Nat} {b b' : Bus} {a : Access} (hgpu : b.mGpu.Reachable)
    (h : b.access fuel a = .ok b') : b.Accepts a :=
  ⟨mapped_of_access h, fun _ _ => supported_of_access h,
    hgpu.parses_parser.accepts.1.mp ⟨_, (moves_access h).gpu⟩⟩

theorem access_of_accepts {b : Bus} {a : Access} (hgpu : b.mGpu.Reachable) (h : b.Accepts a) :
    ∃ fuel b', b.access fuel a = .ok b' := by
  have hload {w : Nat} {x : Result (BitVec w)} (hx : ∃ v, x = .ok v) :
      ∃ b', (do let _ ← x; return b) = .ok b' := by
    obtain ⟨v, hv⟩ := hx
    exact ⟨b, by rw [hv]; rfl⟩
  have hmapped := h.mapped
  cases a with
  | store32 addr val => exact store32_of_accepts hgpu h
  | store16 addr val => exact ⟨0, (b.store16_iff addr val).mpr hmapped⟩
  | store8 addr val => exact ⟨0, (b.store8_iff addr val).mpr hmapped⟩
  | load32 addr => exact ⟨0, hload ((b.load32_iff addr).mpr hmapped)⟩
  | load16 addr => exact ⟨0, hload ((b.load16_iff addr).mpr hmapped)⟩
  | load8 addr => exact ⟨0, hload ((b.load8_iff addr).mpr hmapped)⟩

/-! ### What an access leaves behind -/

/-- The DMA controller after the access. -/
def dmaAfter (b : Bus) : Access → Dma
  | .store32 addr val =>
    if offsetIn (maskRegion addr) Map.mDma ≠ -1 then
      match b.writeDmaReg (offsetIn (maskRegion addr) Map.mDma) val with
      | .ok (b1, some port) => b1.mDma.putChannel port (b1.mDma.channel port).done
      | .ok (b1, none) => b1.mDma
      | .error _ => b.mDma
    else b.mDma
  | _ => b.mDma

theorem dma_access {fuel : Nat} {b b' : Bus} {a : Access} (h : b.access fuel a = .ok b') :
    b'.mDma = b.dmaAfter a := by
  by_cases hdma : a.WritesDma
  · cases a with
    | store32 addr val =>
      rw [access, store32_dma fuel b val hdma, setDmaReg_eq] at h
      obtain ⟨⟨b1, started⟩, hwrite, hdone⟩ := bind_eq_ok.mp h
      have hsel : offsetIn (maskRegion addr) Map.mDma ≠ -1 := hdma
      simp only [dmaAfter, if_pos hsel, hwrite]
      cases started with
      | none =>
        cases hdone
        rfl
      | some port => exact doDma_dma hdone
    | _ => cases hdma
  · rw [access_dma_frame hdma h]
    cases a with
    | store32 addr val => exact (if_neg hdma).symm
    | _ => rfl

/-- All that an access leaves behind. -/
structure Leaves (b : Bus) (a : Access) (b' : Bus) : Prop where
  moves : b.Moves (b.sent a) (b.written a) b'
  dma : b'.mDma = b.dmaAfter a

theorem leaves_access {fuel : Nat} {b b' : Bus} {a : Access} (h : b.access fuel a = .ok b') :
    b.Leaves a b' :=
  ⟨moves_access h, dma_access h⟩

/-- It leaves one state behind. -/
theorem Leaves.eq {b b1 b2 : Bus} {a : Access} (h1 : b.Leaves a b1) (h2 : b.Leaves a b2) :
    b1 = b2 := by
  obtain ⟨⟨hgpu1, hram1, hbios1⟩, hdma1⟩ := h1
  obtain ⟨⟨hgpu2, hram2, hbios2⟩, hdma2⟩ := h2
  obtain ⟨⟨data1⟩, bios1, dma1, gpu1⟩ := b1
  obtain ⟨⟨data2⟩, bios2, dma2, gpu2⟩ := b2
  cases hram1.trans hram2.symm
  cases hbios1.trans hbios2.symm
  cases hdma1.trans hdma2.symm
  cases hgpu1.symm.trans hgpu2
  rfl

theorem access_of_leaves {b b' : Bus} {a : Access} (hgpu : b.mGpu.Reachable) (h : b.Accepts a)
    (hleaves : b.Leaves a b') : ∃ fuel, b.access fuel a = .ok b' := by
  obtain ⟨fuel, b1, haccess⟩ := access_of_accepts hgpu h
  rw [(leaves_access haccess).eq hleaves] at haccess
  exact ⟨fuel, haccess⟩

/-- **The bus in closed form.**  In every reachable state an access returns exactly when its
address and value are implemented, the transfer that it starts, if any, is supported, and the GPU
takes its words.  It has then sent these words, made its writes to RAM, written its register of
the DMA controller, and done nothing else. -/
theorem access_iff {bios : Bios} {b b' : Bus} (h : Reachable bios b) (a : Access) :
    (∃ fuel, b.access fuel a = .ok b') ↔ b.Accepts a ∧ b.Leaves a b' :=
  ⟨fun ⟨_, haccess⟩ => ⟨accepts_of_access h.gpu haccess, leaves_access haccess⟩,
    fun ⟨haccepts, hleaves⟩ => access_of_leaves h.gpu haccepts hleaves⟩

/-- The draw mode word with texture depth 3 has an address and a port, but is not taken. -/
theorem access_iff_depth : ¬ ∃ b' fuel,
    (new (.ofWords [])).access fuel (.store32 0x1f801810 0xe1000180) = .ok b' := by
  have hstart : Reachable (.ofWords []) (new (.ofWords [])) := Transition.Reachable.refl _ _
  rintro ⟨b', hreturns⟩
  have htaken := ((access_iff hstart _).mp hreturns).1.taken
  revert htaken
  decide +kernel

end Bus

end CppStation
