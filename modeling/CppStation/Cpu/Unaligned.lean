import CppStation.Cpu.MemoryAccess
import CppStation.Lib.ByteLanes

/-!
# Unaligned pairs

LWL and LWR load the two parts of a word at any address, SWL and SWR store
them.  Each merges the aligned word that it reads with a register, by a mask and
a shift for each alignment.  Those of LWL are right.  LWR and SWR have the
shifts of LWL, the cases in the opposite order, and LWR and SWL keep the low
bytes, on which the moved ones fall; so a pair works only for some bytes.
-/

namespace CppStation

open ByteMemory Fallible Instruction Map

/-- The two parts of an unaligned access. -/
inductive Side
  | left | right
  deriving DecidableEq, Repr

namespace Side

def other : Side → Side
  | left => right
  | right => left

def loadOp : Side → Op
  | left => .opLwl
  | right => .opLwr

def storeOp : Side → Op
  | left => .opSwl
  | right => .opSwr

/-- The address in the instruction, for the word at `a`. -/
def addr : Side → Word → Word
  | left, a => a + 3
  | right, a => a

def mergeLoad : Side → Word → Word → Word → Result Word
  | left => mergeLwl
  | right => mergeLwr

def mergeStore : Side → Word → Word → Word → Result Word
  | left => mergeSwl
  | right => mergeSwr

/-- The byte that the instruction addresses, for the word at the RAM byte `o`. -/
def byte : Side → Nat → Nat
  | left, o => o + 3
  | right, o => o

/-- What LWL and LWR do to the register, and SWR and SWL to the word in memory. -/
def join : Side → Nat → Word → Word → Word
  | left => joinUp
  | right => joinDown

end Side

/-! ## Merges by bytes -/

/-- A merge, by the two low bits of the address. -/
theorem merge_eq {merge : Word → Word → Word → Result Word} {f : Nat → Word}
    {addr x y : Word}
    (h : merge addr x y =
      match (addr &&& 3).toNat with
      | 0 => .ok (f 3)
      | 1 => .ok (f 2)
      | 2 => .ok (f 1)
      | 3 => .ok (f 0)
      | _ => panic "unreachable" []) :
    merge addr x y = .ok (f (3 - addr.toNat % 4)) := by
  have hlow : (addr &&& 3).toNat = addr.toNat % 4 := Bits.toNat_and_mask addr (k := 2) (by decide)
  have hlt := Nat.mod_lt addr.toNat (show 0 < 4 by decide)
  rw [h, hlow]
  generalize addr.toNat % 4 = p at hlt
  interval_cases p <;> rfl

theorem mergeLoad_join (side : Side) (addr x y : Word) :
    side.mergeLoad addr x y = .ok (side.join (3 - addr.toNat % 4) x y) := by
  cases side
  · exact merge_eq (f := fun q => joinUp q x y) rfl
  · exact merge_eq (f := fun q => joinDown q x y) rfl

theorem mergeStore_join (side : Side) (addr x y : Word) :
    side.mergeStore addr x y = .ok (side.other.join (3 - addr.toNat % 4) x y) := by
  cases side
  · exact merge_eq (f := fun q => joinDown q x y) rfl
  · exact merge_eq (f := fun q => joinUp q x y) rfl

/-! ## Words in RAM -/

/-- The four bytes at `a` lie in RAM. -/
def WordInRam (a : Word) : Prop :=
  ∀ i < 4, (maskRegion (a + BitVec.ofNat 32 i)).toNat < ramSize

instance (a : Word) : Decidable (WordInRam a) :=
  inferInstanceAs (Decidable (∀ i < 4, (maskRegion (a + BitVec.ofNat 32 i)).toNat < ramSize))

/-- The word at the RAM byte `o`. -/
def wordAt (ram : Nat → Byte) (o : Nat) : Word := compose 32 4 fun k => ram (o + k)

theorem byteOf_wordAt (ram : Nat → Byte) (o k : Nat) :
    byteOf (wordAt ram o) k = if k < 4 then ram (o + k) else 0 := by
  split
  · next hk => exact byteOf_compose _ hk (by decide)
  · next hk => exact byteOf_of_ge _ (by omega)

/-- LWL, SWR: the kept bytes, and above them those of the other word. -/
theorem byteOf_join_left (x y : Word) {q k : Nat} (hq : q < 4) (hk : k < 4) :
    byteOf (Side.left.join q x y) k = if k < q then byteOf x k else byteOf y (k - q) :=
  byteOf_joinUp x y (by omega) (by omega)

/-- LWR, SWL: the kept bytes are not those above the moved ones, but those they fall on. -/
theorem byteOf_join_right (x y : Word) {q k : Nat} (hq : q < 4) :
    byteOf (Side.right.join q x y) k = (if k < q then byteOf x k else 0) ||| byteOf y (k + q) :=
  byteOf_joinDown x y (by omega)

theorem word_eq_iff {x y : Word} : x = y ↔ ∀ k < 4, byteOf x k = byteOf y k :=
  eq_iff_byteOf (n := 4)

theorem Side.addr_alias (side : Side) (al : Alias) (o : Nat) :
    side.addr (al.addr o) = al.addr (side.byte o) := by
  cases side
  · exact al.addr_add o 3
  · rfl

/-- The word lies behind one alias. -/
theorem WordInRam.range {a : Word} (h : WordInRam a) :
    a = (aliasOf a).addr (maskRegion a).toNat ∧ (maskRegion a).toNat + 4 ≤ ramSize := by
  have hfirst : (maskRegion a).toNat < ramSize := by
    have h₀ := h 0 (by decide)
    rwa [BitVec.add_zero] at h₀
  refine ⟨eq_addr_of_maskRegion hfirst, ?_⟩
  have hlast := h 3 (by decide)
  have hlow := toNat_aliasOf a
  have hdecomp := toNat_aliasOf (a + BitVec.ofNat 32 3)
  have hsum : (a + BitVec.ofNat 32 3).toNat = (aliasOf a).base + (maskRegion a).toNat + 3 := by
    rw [BitVec.toNat_add, BitVec.toNat_ofNat, hlow]
    simp only [ramSize] at hfirst
    cases aliasOf a <;> simp only [Alias.base] <;> omega
  rw [hsum, Nat.add_assoc] at hdecomp
  simp only [ramSize] at hfirst hlast ⊢
  have hoffset := Alias.offset_inj hdecomp (by omega) (by omega)
  omega

theorem wordAddress_alias (al : Alias) {x : Nat} (hx : x < ramSize) :
    al.addr x &&& ~~~3 = al.addr (x / 4 * 4) := by
  apply BitVec.eq_of_toNat_eq
  have hle : x / 4 * 4 < ramSize := Nat.lt_of_le_of_lt (Nat.div_mul_le_self x 4) hx
  rw [Bits.toNat_wordAddress, al.toNat_addr hx, al.toNat_addr hle]
  cases al <;> simp only [Alias.base] <;> omega

/-- An aligned word around a byte of RAM lies in RAM. -/
theorem alignedWord_le {x : Nat} (hx : x < ramSize) : x / 4 * 4 + 4 ≤ ramSize := by
  simp only [ramSize] at hx ⊢
  omega

theorem load32_alignedWord (b : Bus) (al : Alias) {x : Nat} (hx : x < ramSize) :
    b.load32 (al.addr x &&& ~~~3) = .ok (wordAt b.mRam.mData (x / 4 * 4)) := by
  rw [wordAddress_alias al hx]
  exact (loadsCompose b).load32 al _ (alignedWord_le hx)

namespace Machine

/-! ## One part -/

section

variable {m : Machine} {instruction : Word} {side : Side} {al : Alias} {x : Nat}

theorem effectOf_loadPart (hop : decode instruction = side.loadOp)
    (haddr : m.effectiveAddr instruction = al.addr x) (hx : x < ramSize) :
    m.effectOf instruction =
      .ok { load := some (t instruction,
        side.join (3 - x % 4) (m.mCpu.committed (t instruction).slot)
          (wordAt m.mBus.mRam.mData (x / 4 * 4))) } := by
  have heffect : m.effectOf instruction =
      m.mBus.load32 (m.effectiveAddr instruction &&& ~~~3) >>= fun word =>
        side.mergeLoad (m.effectiveAddr instruction) (m.mCpu.committed (t instruction).slot)
          word >>= fun v => loadT instruction v := by
    cases side <;> exact effectOf_eq hop
  rw [heffect, haddr, load32_alignedWord m.mBus al hx, ok_bind, mergeLoad_join, ok_bind,
    al.toNat_addr_mod hx]
  rfl

theorem effectOf_storePart (hiso : m.mCpu.cacheIsolated = false)
    (hop : decode instruction = side.storeOp)
    (haddr : m.effectiveAddr instruction = al.addr x) (hx : x < ramSize) :
    m.effectOf instruction =
      .ok { store := some (.word (al.addr (x / 4 * 4))
        (side.other.join (3 - x % 4) (wordAt m.mBus.mRam.mData (x / 4 * 4))
          (m.mCpu.reg (t instruction)))) } := by
  have heffect : m.effectOf instruction =
      m.mBus.load32 (m.effectiveAddr instruction &&& ~~~3) >>= fun word =>
        side.mergeStore (m.effectiveAddr instruction) word (m.mCpu.reg (t instruction)) >>= fun v =>
          .ok { store :=
            if m.mCpu.cacheIsolated then none
            else some (.word (m.effectiveAddr instruction &&& ~~~3) v) } := by
    cases side <;> exact effectOf_eq hop
  rw [heffect, haddr, load32_alignedWord m.mBus al hx, ok_bind, mergeStore_join, ok_bind,
    al.toNat_addr_mod hx, wordAddress_alias al hx, hiso]
  rfl

end

end Machine

/-! ## Both parts -/

namespace Side

/-- The register after one of the loads of the word at `o`. -/
def loadPart (side : Side) (ram : Nat → Byte) (o : Nat) (c : Word) : Word :=
  let x := side.byte o
  side.join (3 - x % 4) c (wordAt ram (x / 4 * 4))

/-- The register after both. -/
def loaded (first : Side) (ram : Nat → Byte) (c : Word) (o : Nat) : Word :=
  first.other.loadPart ram o (first.loadPart ram o c)

/-- RAM after one of the stores of the word at `o`. -/
def storePart (side : Side) (v : Word) (o : Nat) (ram : Nat → Byte) : Nat → Byte :=
  let x := side.byte o
  Write.apply ⟨x / 4 * 4, bytesOf 4 (side.other.join (3 - x % 4) (wordAt ram (x / 4 * 4)) v)⟩ ram

/-- RAM after both. -/
def stored (first : Side) (v : Word) (o : Nat) (ram : Nat → Byte) : Nat → Byte :=
  first.other.storePart v o (first.storePart v o ram)

/-- RAM with the word at `o` replaced. -/
def putWord (ram : Nat → Byte) (o : Nat) (v : Word) (x : Nat) : Byte :=
  if o ≤ x ∧ x < o + 4 then byteOf v (x - o) else ram x

/-- When the loads give the word, for the bytes `d` of RAM from the last multiple of four on and
the bytes `c` of the register before. -/
def LoadsExactly (d c : Nat → Byte) : Side → Nat → Prop
  | left, 0 => d 3 = 0
  | left, 1 => c 0 ||| d 2 = d 1 ∧ c 1 = d 2 ∧ d 3 = 0 ∧ d 4 = 0
  | left, 2 => c 0 ||| d 1 = d 2 ∧ d 2 = d 3 ∧ d 3 = d 4 ∧ d 5 = 0
  | left, _ => d 0 = d 3 ∧ d 1 = d 4 ∧ d 2 = d 5 ∧ d 3 = d 6
  | right, 0 => True
  | right, 1 => c 0 ||| d 2 = d 1 ∧ c 1 = d 2 ∧ d 3 = 0
  | right, 2 => c 0 ||| d 1 = d 2 ∧ d 2 = d 3
  | right, _ => d 0 = d 3

/-- When the stores put the word, for the bytes `d` of RAM from the last multiple of four on and
the bytes `v` of the word. -/
def StoresExactly (d v : Nat → Byte) : Side → Nat → Prop
  | left, 0 => v 0 = v 3
  | right, 0 => True
  | _, 1 => d 1 = v 0 ∧ v 0 = v 1 ∧ v 1 = v 2 ∧ d 4 ||| v 3 = v 3 ∧ d 7 = 0
  | _, 2 =>
    d 1 = v 0 ∧ v 0 = v 1 ∧ v 1 = v 2 ∧ d 4 ||| v 2 = v 2 ∧ d 5 ||| v 3 = v 3 ∧ d 6 = 0 ∧ d 7 = 0
  | _, _ => d 0 = v 0 ∧ d 1 = v 1 ∧ d 2 = v 2 ∧ v 0 = v 3 ∧ d 4 ||| v 1 = v 1 ∧ d 7 = 0

theorem byte_lt (side : Side) {o : Nat} (h : o + 4 ≤ ramSize) : side.byte o < ramSize := by
  cases side <;> simp only [byte] <;> omega

/-! Both parts lie in the two aligned words from `o / 4 * 4` on. -/

theorem byte_mod (side : Side) (n r : Nat) :
    side.byte (4 * n + r) % 4 = side.byte r % 4 ∧
      side.byte (4 * n + r) / 4 * 4 = 4 * n + side.byte r / 4 * 4 := by
  cases side <;> simp only [byte] <;> omega

theorem wordAt_add (ram : Nat → Byte) (n o : Nat) :
    wordAt ram (n + o) = wordAt (fun j => ram (n + j)) o :=
  compose_congr fun k _ => congrArg ram (Nat.add_assoc n o k)

theorem loaded_add (first : Side) (ram : Nat → Byte) (c : Word) (n r : Nat) :
    first.loaded ram c (4 * n + r) = first.loaded (fun j => ram (4 * n + j)) c r := by
  obtain ⟨hmod₁, hdiv₁⟩ := first.byte_mod n r
  obtain ⟨hmod₂, hdiv₂⟩ := first.other.byte_mod n r
  simp only [loaded, loadPart, hmod₁, hdiv₁, hmod₂, hdiv₂, wordAt_add]

theorem storePart_add (side : Side) (v : Word) (n r : Nat) (ram : Nat → Byte) (j : Nat) :
    side.storePart v (4 * n + r) ram (4 * n + j) =
      side.storePart v r (fun j => ram (4 * n + j)) j := by
  obtain ⟨hmod, hdiv⟩ := side.byte_mod n r
  simp only [storePart, hmod, hdiv, wordAt_add, apply_bytesOf, Nat.add_assoc,
    Nat.add_le_add_iff_left, Nat.add_lt_add_iff_left, Nat.add_sub_add_left]

/-- A store leaves the bytes outside the two words alone. -/
theorem storePart_of_outside (side : Side) (v : Word) {n r : Nat} (hr : r < 4)
    (ram : Nat → Byte) {x : Nat} (hx : x < 4 * n ∨ 4 * n + 8 ≤ x) :
    side.storePart v (4 * n + r) ram x = ram x := by
  rw [storePart, apply_bytesOf, if_neg]
  cases side <;> simp only [byte] <;> omega

theorem stored_add (first : Side) (v : Word) (n r : Nat) (ram : Nat → Byte) (j : Nat) :
    first.stored v (4 * n + r) ram (4 * n + j) =
      first.stored v r (fun j => ram (4 * n + j)) j := by
  rw [stored, storePart_add, stored]
  exact congrArg (fun f => first.other.storePart v r f j)
    (funext fun j => first.storePart_add v n r ram j)

/-! The four alignments. -/

theorem loaded_low_iff (first : Side) (d : Nat → Byte) (c : Word) {r : Nat} (hr : r < 4) :
    first.loaded d c r = wordAt d r ↔ first.LoadsExactly d (byteOf c) r := by
  rw [word_eq_iff]
  simp only [Nat.forall_lt_succ_right, Nat.not_lt_zero, false_imp_iff, implies_true, true_and]
  cases first <;> interval_cases r <;>
    simp [loaded, loadPart, LoadsExactly, other, byte, byteOf_join_left, byteOf_join_right,
      byteOf_wordAt]
  all_goals grind

theorem stored_low_iff (first : Side) (d : Nat → Byte) (v : Word) {r : Nat} (hr : r < 4) :
    (∀ j < 8, first.stored v r d j = putWord d r v j) ↔ first.StoresExactly d (byteOf v) r := by
  have hzero : ∀ k, 4 ≤ k → byteOf v k = 0 := fun k hk => byteOf_of_ge v (by omega)
  simp only [Nat.forall_lt_succ_right, Nat.not_lt_zero, false_imp_iff, implies_true, true_and]
  cases first <;> interval_cases r <;>
    simp [stored, storePart, StoresExactly, putWord, other, byte, byteOf_join_left,
      byteOf_join_right, byteOf_wordAt, apply_bytesOf, hzero]
  all_goals grind

/-! Any address. -/

theorem loaded_iff (first : Side) (ram : Nat → Byte) (c : Word) (o : Nat) :
    first.loaded ram c o = wordAt ram o ↔
      first.LoadsExactly (fun j => ram (o / 4 * 4 + j)) (byteOf c) (o % 4) := by
  have h := first.loaded_low_iff (fun j => ram (o / 4 * 4 + j)) c (Nat.mod_lt o (by decide))
  rw [Nat.mul_comm (o / 4)] at h ⊢
  rwa [← loaded_add, ← wordAt_add, Nat.div_add_mod] at h

theorem stored_iff (first : Side) (ram : Nat → Byte) (v : Word) (o : Nat) :
    (∀ x, first.stored v o ram x = putWord ram o v x) ↔
      first.StoresExactly (fun j => ram (o / 4 * 4 + j)) (byteOf v) (o % 4) := by
  have hr := Nat.mod_lt o (show 0 < 4 by decide)
  have ho := Nat.div_add_mod o 4
  rw [← first.stored_low_iff _ v hr, Nat.mul_comm (o / 4)]
  generalize o / 4 = n at ho ⊢
  generalize o % 4 = r at hr ho ⊢
  subst ho
  have hput : ∀ j, putWord ram (4 * n + r) v (4 * n + j) =
      putWord (fun j => ram (4 * n + j)) r v j := by
    intro j
    simp only [putWord, Nat.add_assoc, Nat.add_le_add_iff_left, Nat.add_lt_add_iff_left,
      Nat.add_sub_add_left]
  simp only [← stored_add, ← hput]
  constructor
  · exact fun h j _ => h (4 * n + j)
  · intro h x
    by_cases hx : x < 4 * n ∨ 4 * n + 8 ≤ x
    · rw [stored, storePart_of_outside _ v hr _ hx, storePart_of_outside _ v hr _ hx, putWord,
        if_neg (by omega)]
    · have hin := h (x - 4 * n) (by omega)
      rwa [Nat.add_sub_cancel' (by omega)] at hin

end Side

namespace Machine

/-- Between two instructions with no load pending, `w₁` and then `w₂` access the two parts of the
word at `a`, through the register `rt`. -/
structure Pair (m : Machine) (op : Side → Op) (first : Side) (a : Word) (rt : Fin 32)
    (w₁ w₂ : Word) : Prop where
  settled : m.mCpu.Settled
  noLoad : m.mCpu.mLoadRegIdx.slot = 0
  inRam : WordInRam a
  op₁ : decode w₁ = op first
  op₂ : decode w₂ = op first.other
  addr₁ : m.effectiveAddr w₁ = first.addr a
  addr₂ : m.effectiveAddr w₂ = first.other.addr a
  target₁ : (t w₁).slot = rt
  target₂ : (t w₂).slot = rt

/-- Both loads return, and whatever instruction comes next finds the word at `a` in `rt`, unless
it raises an exception or writes `rt` itself. -/
def LoadsWord (m : Machine) (a : Word) (rt : Fin 32) (w₁ w₂ : Word) : Prop :=
  ∀ fuel, ∃ m₁ m₂, m.execute fuel w₁ = .ok m₁ ∧ m₁.execute fuel w₂ = .ok m₂ ∧
    ∀ w₃ e m₃, m₂.effectOf w₃ = .ok e → e.raise = none → e.Keeps rt →
      m₂.execute fuel w₃ = .ok m₃ →
      m₃.mCpu.mRegs rt = wordAt m.mBus.mRam.mData (maskRegion a).toNat

/-- Both stores return, and change RAM by the word in `rt`, at `a`. -/
def StoresWord (m : Machine) (a : Word) (rt : Fin 32) (w₁ w₂ : Word) : Prop :=
  ∀ fuel, ∃ m₁ m₂, m.execute fuel w₁ = .ok m₁ ∧ m₁.execute fuel w₂ = .ok m₂ ∧
    ∀ x, m₂.mBus.mRam.mData x =
      Side.putWord m.mBus.mRam.mData (maskRegion a).toNat (m.mCpu.mRegs rt) x

/-- One of the loads. -/
theorem execute_loadPart {m : Machine} {instruction : Word} {side : Side} {al : Alias} {o : Nat}
    (hop : decode instruction = side.loadOp)
    (haddr : m.effectiveAddr instruction = al.addr (side.byte o)) (ho : o + 4 ≤ ramSize)
    (hslot : (t instruction).slot ≠ 0) (fuel : Nat) :
    ∃ m', m.execute fuel instruction = .ok m' ∧ m'.mBus = m.mBus ∧
      m'.mCpu.mRegs = m.mCpu.committed ∧
      m'.mCpu.committed (t instruction).slot =
        side.loadPart m.mBus.mRam.mData o (m.mCpu.committed (t instruction).slot) := by
  have he := effectOf_loadPart hop haddr (side.byte_lt ho)
  refine ⟨m.after _ m.mBus, execute_eq_ok.mpr ⟨_, he, rfl, rfl⟩, rfl, rfl, ?_⟩
  rw [Cpu.committed, Function.update_of_ne hslot]
  exact Function.update_self _ _ _

/-- One of the stores. -/
theorem execute_storePart {m : Machine} {instruction : Word} {side : Side} {al : Alias} {o : Nat}
    (hiso : m.mCpu.cacheIsolated = false) (hop : decode instruction = side.storeOp)
    (haddr : m.effectiveAddr instruction = al.addr (side.byte o)) (ho : o + 4 ≤ ramSize)
    (fuel : Nat) :
    ∃ m', m.execute fuel instruction = .ok m' ∧ m'.mCpu.mRegs = m.mCpu.committed ∧
      m'.mCpu.cacheIsolated = false ∧
      m'.mBus.mRam.mData =
        side.storePart (m.mCpu.reg (t instruction)) o m.mBus.mRam.mData := by
  have hx := side.byte_lt ho
  have he := effectOf_storePart hiso hop haddr hx
  have hstore := RamStore.perform_eq fuel m.mBus
    ⟨al, side.byte o / 4 * 4, .word (side.other.join (3 - side.byte o % 4)
      (wordAt m.mBus.mRam.mData (side.byte o / 4 * 4)) (m.mCpu.reg (t instruction))),
      alignedWord_le hx⟩
  exact ⟨m.after _ _, execute_eq_ok.mpr ⟨_, he, hstore, rfl⟩, rfl, hiso, rfl⟩

variable {m : Machine} {op : Side → Op} {first : Side} {a : Word} {rt : Fin 32} {w₁ w₂ : Word}

/-- The offsets of both parts, which the first instruction leaves as they are. -/
theorem Pair.effectiveAddr (h : m.Pair op first a rt w₁ w₂) :
    m.effectiveAddr w₁ = (aliasOf a).addr (first.byte (maskRegion a).toNat) ∧
      ∀ m₁ : Machine, m₁.mCpu.mRegs = m.mCpu.committed →
        m₁.effectiveAddr w₂ = (aliasOf a).addr (first.other.byte (maskRegion a).toNat) := by
  obtain ⟨ha, -⟩ := h.inRam.range
  rw [← Side.addr_alias, ← Side.addr_alias, ← ha]
  refine ⟨h.addr₁, fun m₁ hregs => ?_⟩
  rw [← h.addr₂, Machine.effectiveAddr, Cpu.reg, hregs, h.settled.committed_of_noLoad h.noLoad]

/-- Both loads return, and leave the joined word in the load delay slot. -/
theorem Pair.execute_loads (h : m.Pair Side.loadOp first a rt w₁ w₂) (hrt : rt ≠ 0) (fuel : Nat) :
    ∃ m₁ m₂, m.execute fuel w₁ = .ok m₁ ∧ m₁.execute fuel w₂ = .ok m₂ ∧
      m₂.mCpu.committed rt =
        first.loaded m.mBus.mRam.mData (m.mCpu.mRegs rt) (maskRegion a).toNat := by
  obtain ⟨haddr₁, haddr₂⟩ := h.effectiveAddr
  obtain ⟨-, hin⟩ := h.inRam.range
  obtain ⟨m₁, hm₁, hbus₁, hregs₁, hload₁⟩ :=
    execute_loadPart h.op₁ haddr₁ hin (h.target₁ ▸ hrt) fuel
  obtain ⟨m₂, hm₂, -, -, hload₂⟩ :=
    execute_loadPart h.op₂ (haddr₂ m₁ hregs₁) hin (h.target₂ ▸ hrt) fuel
  rw [h.target₁, h.settled.committed_of_noLoad h.noLoad] at hload₁
  rw [h.target₂, hload₁, hbus₁] at hload₂
  exact ⟨m₁, m₂, hm₁, hm₂, hload₂⟩

/-- Both stores return. -/
theorem Pair.execute_stores (h : m.Pair Side.storeOp first a rt w₁ w₂)
    (hiso : m.mCpu.cacheIsolated = false) (fuel : Nat) :
    ∃ m₁ m₂, m.execute fuel w₁ = .ok m₁ ∧ m₁.execute fuel w₂ = .ok m₂ ∧
      m₂.mBus.mRam.mData =
        first.stored (m.mCpu.mRegs rt) (maskRegion a).toNat m.mBus.mRam.mData := by
  obtain ⟨haddr₁, haddr₂⟩ := h.effectiveAddr
  obtain ⟨-, hin⟩ := h.inRam.range
  obtain ⟨m₁, hm₁, hregs₁, hiso₁, hram₁⟩ := execute_storePart hiso h.op₁ haddr₁ hin fuel
  obtain ⟨m₂, hm₂, -, -, hram₂⟩ :=
    execute_storePart hiso₁ h.op₂ (haddr₂ m₁ hregs₁) hin fuel
  rw [Cpu.reg, h.target₁] at hram₁
  rw [Cpu.reg, h.target₂, hregs₁, h.settled.committed_of_noLoad h.noLoad, hram₁] at hram₂
  exact ⟨m₁, m₂, hm₁, hm₂, hram₂⟩

/-- `sll r0, r0, 0` -/
def nopEffect (m : Machine) : Effect :=
  { write := some (d 0, m.mCpu.reg (t 0) <<< shift 0) }

theorem effectOf_nop (m : Machine) : m.effectOf 0 = .ok m.nopEffect :=
  effectOf_eq (show decode 0 = .opSll by decide)

theorem nop_keeps (m : Machine) {i : Fin 32} (hi : i ≠ 0) : m.nopEffect.Keeps i := by
  intro p hp
  cases hp
  exact hi.symm

/-- **The loads give the word exactly when the bytes are as listed.** -/
theorem loadsWord_iff (h : m.Pair Side.loadOp first a rt w₁ w₂) (hrt : rt ≠ 0) :
    m.LoadsWord a rt w₁ w₂ ↔
      first.LoadsExactly
        (fun j => m.mBus.mRam.mData ((maskRegion a).toNat / 4 * 4 + j))
        (byteOf (m.mCpu.mRegs rt)) ((maskRegion a).toNat % 4) := by
  rw [← first.loaded_iff]
  constructor
  · intro hloads
    obtain ⟨m₁, m₂, hm₁, hm₂, hnext⟩ := hloads 0
    obtain ⟨m₁', m₂', hm₁', hm₂', hload⟩ := h.execute_loads hrt 0
    obtain rfl : m₁' = m₁ := Except.ok.inj (hm₁'.symm.trans hm₁)
    obtain rfl : m₂' = m₂ := Except.ok.inj (hm₂'.symm.trans hm₂)
    have hkeeps := nop_keeps m₂' hrt
    have hnop := hnext 0 _ (m₂'.after _ m₂'.mBus) (effectOf_nop m₂') rfl hkeeps
      (execute_eq_ok.mpr ⟨_, effectOf_nop m₂', rfl, rfl⟩)
    exact hload.symm.trans ((hkeeps.file hrt m₂'.mCpu.committed).symm.trans hnop)
  · intro hloaded fuel
    obtain ⟨m₁, m₂, hm₁, hm₂, hload⟩ := h.execute_loads hrt fuel
    refine ⟨m₁, m₂, hm₁, hm₂, fun w₃ e m₃ he hraise hkeeps hm₃ => ?_⟩
    obtain ⟨e', he', -, hafter⟩ := execute_eq_ok.mp hm₃
    obtain rfl : e = e' := Except.ok.inj (he.symm.trans he')
    rw [hafter, ← hloaded, ← hload]
    exact hkeeps.file hrt m₂.mCpu.committed

/-- `lwl r1, 6(r0)` and `lwr r1, 3(r0)`, with every byte of RAM the same. -/
theorem loadsWord_three : (reset (.ofWords [])).LoadsWord 3 1 0x88010006 0x98010003 := by
  have hpair : (reset (.ofWords [])).Pair Side.loadOp .left 3 1 0x88010006 0x98010003 :=
    ⟨settled_new, rfl, by decide, by decide, by decide, by decide, by decide, rfl, rfl⟩
  exact (loadsWord_iff hpair (by decide)).mpr ⟨rfl, rfl, rfl, rfl⟩

/-- `lwl r1, 3(r0)` and `lwr r1, 0(r0)` clear the high byte of `r1`. -/
theorem not_forall_loadsWord :
    ¬ ∀ (m : Machine) (first : Side) (a : Word) (rt : Fin 32) (w₁ w₂ : Word),
      m.mCpu.cacheIsolated = false → m.Pair Side.loadOp first a rt w₁ w₂ → rt ≠ 0 →
      m.LoadsWord a rt w₁ w₂ := by
  intro h
  have hpair : (reset (.ofWords [])).Pair Side.loadOp .left 0 1 0x88010003 0x98010000 :=
    ⟨settled_new, rfl, by decide, by decide, by decide, by decide, by decide, rfl, rfl⟩
  have hloads := h _ .left 0 1 _ _ (by decide) hpair (by decide)
  have hlast : (0xca : Byte) = 0 := (loadsWord_iff hpair (by decide)).mp hloads
  exact absurd hlast (by decide)

/-- **The stores put the word exactly when the bytes are as listed.** -/
theorem storesWord_iff (h : m.Pair Side.storeOp first a rt w₁ w₂)
    (hiso : m.mCpu.cacheIsolated = false) :
    m.StoresWord a rt w₁ w₂ ↔
      first.StoresExactly
        (fun j => m.mBus.mRam.mData ((maskRegion a).toNat / 4 * 4 + j))
        (byteOf (m.mCpu.mRegs rt)) ((maskRegion a).toNat % 4) := by
  rw [← first.stored_iff]
  constructor
  · intro hstores
    obtain ⟨m₁, m₂, hm₁, hm₂, hram⟩ := hstores 0
    obtain ⟨m₁', m₂', hm₁', hm₂', hstored⟩ := h.execute_stores hiso 0
    obtain rfl : m₁' = m₁ := Except.ok.inj (hm₁'.symm.trans hm₁)
    obtain rfl : m₂' = m₂ := Except.ok.inj (hm₂'.symm.trans hm₂)
    rwa [hstored] at hram
  · intro hput fuel
    obtain ⟨m₁, m₂, hm₁, hm₂, hstored⟩ := h.execute_stores hiso fuel
    exact ⟨m₁, m₂, hm₁, hm₂, fun x => (congrFun hstored x).trans (hput x)⟩

/-- `swl r1, 3(r0)` and `swr r1, 0(r0)`, with the low byte of `r1` also its high byte. -/
theorem storesWord_zero : (reset (.ofWords [])).StoresWord 0 1 0xa8010003 0xb8010000 := by
  have hpair : (reset (.ofWords [])).Pair Side.storeOp .left 0 1 0xa8010003 0xb8010000 :=
    ⟨settled_new, rfl, by decide, by decide, by decide, by decide, by decide, rfl, rfl⟩
  have hbytes : byteOf (0xdeadc0de : Word) 0 = byteOf (0xdeadc0de : Word) 3 := by decide
  exact (storesWord_iff hpair (by decide)).mpr hbytes

/-- `swl r1, 4(r0)` and `swr r1, 1(r0)` write over the byte 7. -/
theorem not_forall_storesWord :
    ¬ ∀ (m : Machine) (first : Side) (a : Word) (rt : Fin 32) (w₁ w₂ : Word),
      m.mCpu.cacheIsolated = false → m.Pair Side.storeOp first a rt w₁ w₂ →
      m.StoresWord a rt w₁ w₂ := by
  intro h
  have hpair : (reset (.ofWords [])).Pair Side.storeOp .left 1 1 0xa8010004 0xb8010001 :=
    ⟨settled_new, rfl, by decide, by decide, by decide, by decide, by decide, rfl, rfl⟩
  have hstores := h _ .left 1 1 _ _ (by decide) hpair
  have hlast : (0xca : Byte) = 0 :=
    ((storesWord_iff hpair (by decide)).mp hstores).2.2.2.2
  exact absurd hlast (by decide)

end Machine

end CppStation
