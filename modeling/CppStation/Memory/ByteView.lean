import CppStation.Bus

/-!
# RAM as one byte memory

RAM is reached through three aliases and at three widths.  A history of stores
through any of them is a history of byte writes, and every load composes the
bytes most recently written.
-/

namespace CppStation

open ByteMemory Fallible Map

/-! ## Aliases -/

inductive Alias
  | kuseg
  | kseg0
  | kseg1
  deriving DecidableEq, Repr

def Alias.base : Alias → Nat
  | .kuseg => 0
  | .kseg0 => 0x80000000
  | .kseg1 => 0xa0000000

/-- The address of a RAM byte through an alias. -/
def Alias.addr (a : Alias) (offset : Nat) : Word := BitVec.ofNat 32 (a.base + offset)

theorem Alias.toNat_addr (a : Alias) {offset : Nat} (h : offset < ramSize) :
    (a.addr offset).toNat = a.base + offset := by
  rw [Alias.addr, BitVec.toNat_ofNat]
  cases a <;> simp only [Alias.base, ramSize] at h ⊢ <;> omega

theorem Alias.addr_add (al : Alias) (o i : Nat) :
    al.addr o + BitVec.ofNat 32 i = al.addr (o + i) := by
  rw [Alias.addr, Alias.addr, ← BitVec.ofNat_add, Nat.add_assoc]

theorem Alias.offset_inj {al al' : Alias} {o o' : Nat} (h : al.base + o = al'.base + o')
    (ho : o < 2 ^ 29) (ho' : o' < 2 ^ 29) : o = o' := by
  cases al <;> cases al' <;> simp only [Alias.base] at h <;> omega

theorem maskRegion_addr (a : Alias) {offset : Nat} (h : offset < ramSize) :
    (maskRegion (a.addr offset)).toNat = offset := by
  have haddr := a.toNat_addr h
  have hregion : (a.addr offset >>> 29).toNat = a.base / 2 ^ 29 := by
    rw [BitVec.toNat_ushiftRight, haddr, Nat.shiftRight_eq_div_pow]
    cases a <;> simp only [Alias.base, ramSize] at h ⊢ <;> omega
  unfold maskRegion
  rw [hregion]
  cases a
  · refine (Bits.toNat_and_mask _ (k := 32) (by decide)).trans ?_
    rw [haddr]
    simp only [Alias.base, ramSize] at h ⊢
    omega
  · refine (Bits.toNat_and_mask _ (k := 31) (by decide)).trans ?_
    rw [haddr]
    simp only [Alias.base, ramSize] at h ⊢
    omega
  · refine (Bits.toNat_and_mask _ (k := 29) (by decide)).trans ?_
    rw [haddr]
    simp only [Alias.base, ramSize] at h ⊢
    omega

/-- The alias of a RAM address, by its region bits. -/
def aliasOf (addr : Word) : Alias :=
  match (addr >>> 29).toNat with
  | 4 => .kseg0
  | 5 => .kseg1
  | _ => .kuseg

theorem toNat_aliasOf (addr : Word) :
    addr.toNat = (aliasOf addr).base + (maskRegion addr).toNat := by
  have hlt := addr.isLt
  have hregion : (addr >>> 29).toNat = addr.toNat / 2 ^ 29 := by
    rw [BitVec.toNat_ushiftRight, Nat.shiftRight_eq_div_pow]
  unfold aliasOf maskRegion regionMask
  split
  case h_1 heq =>
    have hmask : (addr &&& 0x7fffffff).toNat = addr.toNat % 2 ^ 31 :=
      Bits.toNat_and_mask addr (k := 31) (by decide)
    simp only [heq, Alias.base]
    omega
  case h_2 heq =>
    have hmask : (addr &&& 0x1fffffff).toNat = addr.toNat % 2 ^ 29 :=
      Bits.toNat_and_mask addr (k := 29) (by decide)
    simp only [heq, Alias.base]
    omega
  case h_3 h₄ h₅ =>
    have hmask : (addr &&& 0xffffffff).toNat = addr.toNat % 2 ^ 32 :=
      Bits.toNat_and_mask addr (k := 32) (by decide)
    split
    case h_5 heq => exact (h₄ heq).elim
    case h_6 heq => exact (h₅ heq).elim
    all_goals
      simp only [Alias.base]
      omega

/-- Every address that selects RAM goes through an alias. -/
theorem eq_addr_of_maskRegion {addr : Word} (h : (maskRegion addr).toNat < ramSize) :
    addr = (aliasOf addr).addr (maskRegion addr).toNat :=
  BitVec.eq_of_toNat_eq ((toNat_aliasOf addr).trans ((aliasOf addr).toNat_addr h).symm)

/-- Every alias selects RAM, at the same offset. -/
theorem ram_offset (a : Alias) {offset : Nat} (h : offset < ramSize) :
    offsetIn (maskRegion (a.addr offset)) mRam ≠ -1 ∧
      (offsetIn (maskRegion (a.addr offset)) mRam).toNat = offset := by
  have hne : offsetIn (maskRegion (a.addr offset)) mRam ≠ -1 :=
    (ram_selected_iff _).mpr ((maskRegion_addr a h).symm ▸ h)
  exact ⟨hne, (ram_toNat_offset hne).trans (maskRegion_addr a h)⟩

namespace Bus

section

variable (b : Bus) (a : Alias) {offset : Nat} (h : offset < ramSize)
include h

theorem load32_ram : b.load32 (a.addr offset) = b.mRam.load32 offset := by
  obtain ⟨hne, hoff⟩ := ram_offset a h
  simp only [load32, if_pos hne, hoff]

theorem load16_ram : b.load16 (a.addr offset) = b.mRam.load16 offset := by
  obtain ⟨hne, hoff⟩ := ram_offset a h
  simp only [load16, if_pos hne, hoff]

theorem load8_ram : b.load8 (a.addr offset) = b.mRam.load8 offset := by
  obtain ⟨hne, hoff⟩ := ram_offset a h
  simp only [load8, if_pos hne, hoff]

theorem store32_ram (fuel : Nat) (val : Word) :
    b.store32 fuel (a.addr offset) val =
      b.mRam.store32 offset val >>= fun ram => .ok { b with mRam := ram } := by
  obtain ⟨hne, hoff⟩ := ram_offset a h
  simp only [store32, if_pos hne, hoff]
  rfl

theorem store16_ram (val : Half) :
    b.store16 (a.addr offset) val =
      b.mRam.store16 offset val >>= fun ram => .ok { b with mRam := ram } := by
  obtain ⟨hne, hoff⟩ := ram_offset a h
  simp only [store16, if_pos hne, hoff]
  rfl

theorem store8_ram (val : Byte) :
    b.store8 (a.addr offset) val =
      b.mRam.store8 offset val >>= fun ram => .ok { b with mRam := ram } := by
  obtain ⟨hne, hoff⟩ := ram_offset a h
  simp only [store8, if_pos hne, hoff]
  rfl

end

end Bus

/-! ## Histories of stores -/

/-- The bus with the bytes of a write put in RAM. -/
def Bus.withWrite (b : Bus) (wr : Write) : Bus := { b with mRam := ⟨wr.apply b.mRam.mData⟩ }

inductive StoreValue
  | byte (val : Byte)
  | half (val : Half)
  | word (val : Word)

def StoreValue.width : StoreValue → Nat
  | .byte _ => 1
  | .half _ => 2
  | .word _ => 4

def StoreValue.bytes : StoreValue → List Byte
  | .byte val => bytesOf 1 val
  | .half val => bytesOf 2 val
  | .word val => bytesOf 4 val

/-- A store whose bytes lie wholly in RAM. -/
structure RamStore where
  via : Alias
  offset : Nat
  value : StoreValue
  inRange : offset + value.width ≤ ramSize

namespace RamStore

def perform (fuel : Nat) (b : Bus) (st : RamStore) : Result Bus :=
  match st.value with
  | .byte val => b.store8 (st.via.addr st.offset) val
  | .half val => b.store16 (st.via.addr st.offset) val
  | .word val => b.store32 fuel (st.via.addr st.offset) val

/-- The store as a write of bytes. -/
def write (st : RamStore) : Write := ⟨st.offset, st.value.bytes⟩

theorem length_bytes (v : StoreValue) : v.bytes.length = v.width := by
  cases v <;> simp [StoreValue.bytes, StoreValue.width, bytesOf]

/-- A store changes RAM by its write, and nothing else. -/
theorem perform_eq (fuel : Nat) (b : Bus) (st : RamStore) :
    st.perform fuel b = .ok (b.withWrite st.write) := by
  obtain ⟨via, offset, value, hin⟩ := st
  have hoff : offset < ramSize := by
    cases value <;> simp only [StoreValue.width] at hin <;> omega
  cases value with
  | byte val =>
    simp only [perform, b.store8_ram via hoff, store8_of_inRange b.mRam val hoff, ok_bind]
    rfl
  | half val =>
    simp only [perform, b.store16_ram via hoff, store16_of_inRange b.mRam val hin, ok_bind]
    rfl
  | word val =>
    simp only [perform, b.store32_ram via hoff, store32_of_inRange b.mRam val hin, ok_bind]
    rfl

/-- **A history of stores replays its writes.** -/
theorem foldlM_perform (fuel : Nat) (hist : List RamStore) (b : Bus) :
    hist.foldlM (fun b st => st.perform fuel b) b =
      .ok { b with mRam := ⟨replay b.mRam.mData (hist.map write)⟩ } := by
  induction hist generalizing b with
  | nil => rfl
  | cons st hist ih =>
    rw [List.foldlM_cons, perform_eq, ok_bind, ih]
    rfl

end RamStore

/-- The byte most recently stored at an address, or the initial contents. -/
def byteAt (hist : List RamStore) (a : Nat) : Byte :=
  (lastWritten (hist.map RamStore.write) a).getD 0xca

/-- Loads through every alias and at every width compose the bytes `f`. -/
structure LoadsCompose (b : Bus) (f : Nat → Byte) : Prop where
  load8 : ∀ (a : Alias) offset, offset + 1 ≤ ramSize → b.load8 (a.addr offset) = .ok (f offset)
  load16 : ∀ (a : Alias) offset, offset + 2 ≤ ramSize →
    b.load16 (a.addr offset) = .ok (compose 16 2 fun k => f (offset + k))
  load32 : ∀ (a : Alias) offset, offset + 4 ≤ ramSize →
    b.load32 (a.addr offset) = .ok (compose 32 4 fun k => f (offset + k))

theorem loadsCompose (b : Bus) : LoadsCompose b b.mRam.mData where
  load8 a _ h := (b.load8_ram a (by omega)).trans (load8_of_inRange b.mRam h)
  load16 a _ h := (b.load16_ram a (by omega)).trans (load16_of_inRange b.mRam h)
  load32 a _ h := (b.load32_ram a (by omega)).trans (load32_of_inRange b.mRam h)

theorem loadsCompose_history (bios : Bios) (fuel : Nat) (hist : List RamStore) :
    ∃ b, hist.foldlM (fun b st => st.perform fuel b) (Bus.new bios) = .ok b ∧
      LoadsCompose b (byteAt hist) := by
  refine ⟨_, RamStore.foldlM_perform fuel hist (Bus.new bios), ?_⟩
  have h : replay (Bus.new bios).mRam.mData (hist.map RamStore.write) = byteAt hist :=
    funext fun a => replay_apply _ _ a
  rw [h]
  exact loadsCompose _

/-- A store changes no byte outside its own width. -/
theorem perform_frame {fuel : Nat} {b b' : Bus} {st : RamStore}
    (h : st.perform fuel b = .ok b') {x : Nat}
    (hx : x < st.offset ∨ st.offset + st.value.width ≤ x) :
    b'.mRam.mData x = b.mRam.mData x := by
  rw [RamStore.perform_eq] at h
  cases h
  exact Write.apply_of_outside _ _ (RamStore.length_bytes st.value ▸ hx)

end CppStation
