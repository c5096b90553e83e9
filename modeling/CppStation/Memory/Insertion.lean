import CppStation.Memory.OrderingTable
import CppStation.Memory.ProgrammedIo
import Mathlib.Data.List.Flatten
import Mathlib.Data.List.Nodup

/-!
# Filling an ordering table

A program that draws clears a table with the OTC channel, inserts its packets
behind the entries of the table, and sends the list with the GPU channel.  An
insertion is a load and two stores: the packet takes over the link of the
entry, and the entry then leads to the packet.
-/

namespace CppStation

open Fallible ByteMemory Map OrderingTable

/-- An entry of a list, with the words of its packet. -/
structure Entry where
  addr : Word
  words : List Word
  masked : addr &&& 0x1ffffc = addr
  short : words.length < 256

namespace Entry

/-- The address of word `i` of the packet behind the header at `addr`. -/
def bodyAddr (addr : Word) (i : Nat) : Word := (addr + BitVec.ofNat 32 (4 * (i + 1))) &&& 0x1ffffc

/-- The addresses of the header and of the packet. -/
def cells (e : Entry) : List Word := e.addr :: (List.range e.words.length).map (bodyAddr e.addr)

/-- The packet is in RAM. -/
def InRam (e : Entry) (ram : Ram) : Prop := ram.wordsAfter e.words.length e.addr = e.words

/-- The header: the length of the packet over the link. -/
def header (e : Entry) (old : Word) : Word :=
  BitVec.ofNat 32 e.words.length <<< 24 ||| (old &&& 0xffffff)

end Entry

/-- The header of an entry that keeps its length and leads to `addr`. -/
def relink (old addr : Word) : Word := (old &&& 0xff000000) ||| addr

/-- Insert the packet behind the entry at `addr`. -/
def Bus.insert (fuel : Nat) (b : Bus) (addr : Word) (e : Entry) : Result Bus := do
  let old ← b.load32 addr
  let b ← b.store32 fuel e.addr (e.header old)
  b.store32 fuel addr (relink old e.addr)

/-! ## Words of RAM -/

theorem and_mask_idem (x : Word) : (x &&& 0x1ffffc) &&& 0x1ffffc = x &&& 0x1ffffc := by
  rw [BitVec.and_assoc, BitVec.and_self]

theorem toNat_of_masked {x : Word} (h : x &&& 0x1ffffc = x) :
    x.toNat = x.toNat / 4 % 2 ^ 19 * 4 := by
  rw [← toNat_dmaMask, h]

/-- RAM after a store of a word. -/
def Ram.put (ram : Ram) (addr v : Word) : Ram :=
  ⟨(Write.mk addr.toNat (bytesOf 4 v)).apply ram.mData⟩

theorem Ram.word_put (ram : Ram) {addr x : Word} (haddr : addr &&& 0x1ffffc = addr)
    (hx : x &&& 0x1ffffc = x) (v : Word) :
    (ram.put addr v).word x = if x = addr then v else ram.word x := by
  have haddr' := toNat_of_masked haddr
  have hx' := toNat_of_masked hx
  split
  · next heq =>
    subst heq
    refine Eq.trans (compose_congr fun k hk => ?_) (compose_byteOf (n := 4) v)
    have hin : x.toNat ≤ x.toNat + k ∧ x.toNat + k < x.toNat + 4 := by omega
    simp only [Ram.put, Write.apply, byte?_bytesOf, if_pos hin, Option.getD_some,
      Nat.add_sub_cancel_left]
  · next hne =>
    refine compose_congr fun k hk => ?_
    have hapart : x.toNat ≠ addr.toNat := fun h => hne (BitVec.eq_of_toNat_eq h)
    have hout : ¬ (addr.toNat ≤ x.toNat + k ∧ x.toNat + k < addr.toNat + 4) := by omega
    simp only [Ram.put, Write.apply, byte?_bytesOf, if_neg hout, Option.getD_none]

theorem Entry.InRam.congr {e : Entry} {ram ram' : Ram} (h : e.InRam ram)
    (hsame : ∀ x ∈ e.cells.tail, ram'.word x = ram.word x) : e.InRam ram' := by
  refine Eq.trans (List.map_congr_left fun i hi => ?_) h
  exact hsame _ (List.mem_map.mpr ⟨i, hi, rfl⟩)

theorem Entry.cells_masked (e : Entry) {x : Word} (hx : x ∈ e.cells) : x &&& 0x1ffffc = x := by
  rcases List.mem_cons.mp hx with rfl | hx
  · exact e.masked
  · obtain ⟨i, -, rfl⟩ := List.mem_map.mp hx
    exact and_mask_idem _

section

variable (b : Bus) {addr : Word}

theorem Bus.load32_masked (h : addr &&& 0x1ffffc = addr) :
    b.load32 addr = .ok (b.mRam.word addr) := by
  have hregion : maskRegion addr = addr := h ▸ maskRegion_slot addr
  have hram : (maskRegion addr).toNat < ramSize := hregion.symm ▸ h ▸ toNat_slot_lt addr
  conv_lhs => rw [eq_addr_of_maskRegion hram]
  rw [b.load32_ram _ hram, hregion, ← h, Ram.load32_masked]

theorem Bus.store32_masked (fuel : Nat) (h : addr &&& 0x1ffffc = addr) (v : Word) :
    b.store32 fuel addr v = .ok { b with mRam := b.mRam.put addr v } := by
  have hregion : maskRegion addr = addr := h ▸ maskRegion_slot addr
  have hram : (maskRegion addr).toNat < ramSize := hregion.symm ▸ h ▸ toNat_slot_lt addr
  have haligned : addr % 4 = 0 := by
    apply BitVec.eq_of_toNat_eq
    rw [BitVec.toNat_umod, toNat_of_masked h]
    exact Nat.mul_mod_left _ 4
  rw [b.store32_withWrite fuel haligned hram, hregion]
  rfl

end

/-! ## Headers -/

theorem Entry.toNat_header (e : Entry) (old : Word) :
    (e.header old).toNat = e.words.length * 2 ^ 24 + old.toNat % 2 ^ 24 := by
  have hshort := e.short
  have hlow : (old &&& 0xffffff).toNat = old.toNat % 2 ^ 24 :=
    Bits.toNat_and_mask old (k := 24) (by decide)
  have hhigh : (BitVec.ofNat 32 e.words.length <<< 24).toNat = e.words.length <<< 24 := by
    rw [BitVec.toNat_shiftLeft, BitVec.toNat_ofNat, Nat.shiftLeft_eq, Nat.shiftLeft_eq]
    omega
  have hlt : old.toNat % 2 ^ 24 < 2 ^ 24 := Nat.mod_lt _ (by decide)
  rw [Entry.header, BitVec.toNat_or, hhigh, hlow, ← Nat.shiftLeft_add_eq_or_of_lt hlt,
    Nat.shiftLeft_eq]

theorem toNat_relink (old : Word) {addr : Word} (h : addr &&& 0x1ffffc = addr) :
    (relink old addr).toNat = old.toNat / 2 ^ 24 * 2 ^ 24 + addr.toNat := by
  have haddr := toNat_of_masked h
  have hhigh : (old &&& 0xff000000).toNat = old.toNat / 2 ^ 24 % 2 ^ 8 * 2 ^ 24 :=
    Bits.toNat_and_shiftedMask old (j := 24) (k := 8) (by decide)
  have hold := old.isLt
  have hlt : addr.toNat < 2 ^ 24 := by omega
  rw [relink, BitVec.toNat_or, hhigh, ← Nat.shiftLeft_eq, ← Nat.shiftLeft_add_eq_or_of_lt hlt,
    Nat.shiftLeft_eq]
  omega

theorem Entry.header_length (e : Entry) (old : Word) :
    (e.header old >>> 24).toNat = e.words.length := by
  rw [BitVec.toNat_ushiftRight, Nat.shiftRight_eq_div_pow, e.toNat_header]
  omega

theorem Entry.header_link (e : Entry) (old : Word) :
    e.header old &&& 0x1ffffc = old &&& 0x1ffffc := by
  apply BitVec.eq_of_toNat_eq
  rw [toNat_dmaMask, toNat_dmaMask, e.toNat_header]
  omega

theorem Entry.header_odd (e : Entry) (old : Word) :
    (e.header old).getLsbD 0 = old.getLsbD 0 := by
  rw [BitVec.getLsbD, BitVec.getLsbD, Nat.testBit_zero, Nat.testBit_zero, e.toNat_header,
    decide_eq_decide]
  omega

section

variable (old : Word) {addr : Word}

theorem relink_length (h : addr &&& 0x1ffffc = addr) :
    (relink old addr >>> 24).toNat = (old >>> 24).toNat := by
  have haddr := toNat_of_masked h
  rw [BitVec.toNat_ushiftRight, BitVec.toNat_ushiftRight, Nat.shiftRight_eq_div_pow,
    Nat.shiftRight_eq_div_pow, toNat_relink old h]
  omega

theorem relink_link (h : addr &&& 0x1ffffc = addr) : relink old addr &&& 0x1ffffc = addr := by
  have haddr := toNat_of_masked h
  apply BitVec.eq_of_toNat_eq
  rw [toNat_dmaMask, toNat_relink old h]
  omega

theorem relink_odd (h : addr &&& 0x1ffffc = addr) : (relink old addr).getLsbD 0 = false := by
  have haddr := toNat_of_masked h
  rw [BitVec.getLsbD, Nat.testBit_zero, toNat_relink old h, decide_eq_false_iff_not]
  omega

end

/-! ## Lists in RAM -/

/-- RAM holds the list `es`. -/
structure Laid (ram : Ram) (es : List Entry) : Prop where
  length : ∀ e ∈ es, (ram.word e.addr >>> 24).toNat = e.words.length
  inRam : ∀ e ∈ es, e.InRam ram
  linked : Chain.Linked ram.nextEntry ram.oddHeader (es.map Entry.addr)

/-- No word of RAM is a part of two entries. -/
def Apart (es : List Entry) : Prop := (es.flatMap Entry.cells).Nodup

theorem Apart.perm {es es' : List Entry} (h : Apart es) (hperm : es.Perm es') : Apart es' :=
  (hperm.flatMap_right Entry.cells).nodup_iff.mp h

theorem Apart.addrs {es : List Entry} (h : Apart es) : (es.map Entry.addr).Nodup := by
  refine List.pairwise_map.mpr ((List.nodup_flatMap.mp h).2.imp fun {x y} hdisjoint heq => ?_)
  exact hdisjoint (List.mem_cons_self (a := x.addr)) (heq ▸ List.mem_cons_self)

/-- Packets do not overlap headers. -/
theorem Apart.body_ne {es : List Entry} (h : Apart es) {x y : Entry} (hx : x ∈ es) (hy : y ∈ es)
    {c : Word} (hc : c ∈ x.cells.tail) : c ≠ y.addr := by
  obtain ⟨hnodup, hdisjoint⟩ := List.nodup_flatMap.mp h
  rintro rfl
  by_cases hxy : x = y
  · subst hxy
    exact (List.nodup_cons.mp (hnodup x hx)).1 hc
  · have : Std.Symm (Function.onFun List.Disjoint Entry.cells) := ⟨fun _ _ hd => hd.symm⟩
    exact hdisjoint.forall hx hy hxy (List.mem_of_mem_tail hc) List.mem_cons_self

section

variable {ram : Ram} {es : List Entry}

theorem Laid.packet (h : Laid ram es) {e : Entry} (he : e ∈ es) : ram.packet e.addr = e.words := by
  rw [Ram.packet, h.length e he]
  exact h.inRam e he

/-- The words that the GPU channel sends. -/
theorem Laid.sends {e : Entry} (h : Laid ram (e :: es)) {fuel : Nat} (hfuel : es.length < fuel)
    {gpu gpu' : Gpu} : Bus.linkedListLoop ram fuel e.addr gpu = .ok gpu' ↔
      ((e :: es).flatMap Entry.words).foldlM Gpu.gp0 gpu = .ok gpu' := by
  have hwalk : Chain.walk ram.nextEntry ram.packet ram.oddHeader fuel e.addr =
      some ((e :: es).flatMap Entry.words) := by
    have hlinked : Chain.Linked ram.nextEntry ram.oddHeader (e.addr :: es.map Entry.addr) :=
      h.linked
    rw [hlinked.walk (by rwa [List.length_map]), ← List.map_cons, List.flatMap_map]
    exact congrArg some (List.flatMap_congr fun x hx => h.packet hx)
  rw [← e.masked, Bus.linkedListLoop_eq_ok_iff, e.masked, hwalk]
  constructor
  · rintro ⟨words, hwords, hsent⟩
    cases hwords
    exact hsent
  · intro hsent
    exact ⟨_, rfl, hsent⟩

end

/-! ## One insertion -/

/-- RAM after an insertion. -/
def Ram.inserted (ram : Ram) (addr : Word) (p : Entry) : Ram :=
  (ram.put p.addr (p.header (ram.word addr))).put addr (relink (ram.word addr) p.addr)

theorem Bus.insert_eq (fuel : Nat) (b : Bus) {addr : Word} (h : addr &&& 0x1ffffc = addr)
    (p : Entry) :
    b.insert fuel addr p = .ok { b with mRam := b.mRam.inserted addr p } := by
  simp only [Bus.insert, b.load32_masked h, ok_bind, b.store32_masked fuel p.masked,
    Bus.store32_masked _ fuel h]
  rfl

theorem Ram.word_inserted (ram : Ram) {addr x : Word} (haddr : addr &&& 0x1ffffc = addr)
    (hx : x &&& 0x1ffffc = x) (p : Entry) :
    (ram.inserted addr p).word x =
      if x = addr then relink (ram.word addr) p.addr
      else if x = p.addr then p.header (ram.word addr) else ram.word x := by
  rw [Ram.inserted, Ram.word_put _ haddr hx, Ram.word_put _ p.masked hx]

/-- What an insertion does to entries that lie apart. -/
theorem Apart.inserted {e p : Entry} {es : List Entry} (h : Apart (e :: p :: es)) (ram : Ram) :
    (ram.inserted e.addr p).word e.addr = relink (ram.word e.addr) p.addr ∧
      (ram.inserted e.addr p).word p.addr = p.header (ram.word e.addr) ∧
      (∀ x ∈ es, (ram.inserted e.addr p).word x.addr = ram.word x.addr) ∧
      ∀ x ∈ e :: p :: es, ∀ c ∈ x.cells.tail,
        (ram.inserted e.addr p).word c = ram.word c := by
  obtain ⟨hfirst, hsecond, -⟩ : e.addr ∉ p.addr :: es.map Entry.addr ∧
      p.addr ∉ es.map Entry.addr ∧ (es.map Entry.addr).Nodup := by
    have haddrs := h.addrs
    rwa [List.map_cons, List.map_cons, List.nodup_cons, List.nodup_cons] at haddrs
  refine ⟨?_, ?_, fun x hx => ?_, fun x hx c hc => ?_⟩
  · rw [ram.word_inserted e.masked e.masked, if_pos rfl]
  · have hne : p.addr ≠ e.addr := fun heq => hfirst (heq ▸ List.mem_cons_self)
    rw [ram.word_inserted e.masked p.masked, if_neg hne, if_pos rfl]
  · have hmem : x.addr ∈ es.map Entry.addr := List.mem_map.mpr ⟨x, hx, rfl⟩
    have hne : x.addr ≠ e.addr := fun heq => hfirst (heq ▸ List.mem_cons_of_mem _ hmem)
    have hne' : x.addr ≠ p.addr := fun heq => hsecond (heq ▸ hmem)
    rw [ram.word_inserted e.masked x.masked, if_neg hne, if_neg hne']
  · have hne := h.body_ne hx List.mem_cons_self hc
    have hne' := h.body_ne hx (List.mem_cons_of_mem e List.mem_cons_self) hc
    rw [ram.word_inserted e.masked (x.cells_masked (List.mem_of_mem_tail hc)), if_neg hne,
      if_neg hne']

/-- **Step lemma.**  The packet comes behind the entry. -/
theorem Laid.insert {ram : Ram} {l r : List Entry} {e p : Entry} (h : Laid ram (l ++ e :: r))
    (hp : p.InRam ram) (hapart : Apart (l ++ e :: p :: r)) :
    Laid (ram.inserted e.addr p) (l ++ e :: p :: r) := by
  have hperm : (l ++ e :: p :: r).Perm (e :: p :: (l ++ r)) :=
    List.perm_middle.trans (List.perm_middle.cons e)
  obtain ⟨he, hnew, hother, hbody⟩ := (hapart.perm hperm).inserted ram
  have hold : ∀ x ∈ l ++ r, x ∈ l ++ e :: r := fun x hx =>
    List.perm_middle.mem_iff.mpr (List.mem_cons_of_mem e hx)
  have hmid : e ∈ l ++ e :: r := List.perm_middle.mem_iff.mpr List.mem_cons_self
  refine ⟨fun x hx => ?_, fun x hx => ?_, ?_⟩
  · rcases List.mem_cons.mp (hperm.mem_iff.mp hx) with rfl | hx
    · rw [he, relink_length _ p.masked, h.length x hmid]
    rcases List.mem_cons.mp hx with rfl | hx
    · rw [hnew, x.header_length]
    · rw [hother x hx, h.length x (hold x hx)]
  · have hx' := hperm.mem_iff.mp hx
    refine Entry.InRam.congr ?_ (hbody x hx')
    rcases List.mem_cons.mp hx' with rfl | hx'
    · exact h.inRam x hmid
    rcases List.mem_cons.mp hx' with rfl | hx'
    · exact hp
    · exact h.inRam x (hold x hx')
  · have hlinked : Chain.Linked ram.nextEntry ram.oddHeader
        (l.map Entry.addr ++ e.addr :: r.map Entry.addr) := by
      rw [← List.map_cons, ← List.map_append]
      exact h.linked
    rw [List.map_append, List.map_cons, List.map_cons]
    refine hlinked.insert ?_ ?_ ?_ ?_ ?_
    · intro a ha
      rw [← List.map_append] at ha
      obtain ⟨x, hx, rfl⟩ := List.mem_map.mp ha
      rw [Ram.nextEntry, Ram.nextEntry, Ram.oddHeader, Ram.oddHeader, hother x hx]
      exact ⟨rfl, rfl⟩
    · rw [Ram.nextEntry, he, relink_link _ p.masked]
    · rw [Ram.oddHeader, he, relink_odd _ p.masked]
    · rw [Ram.nextEntry, hnew, p.header_link, Ram.nextEntry]
    · rw [Ram.oddHeader, hnew, p.header_odd, Ram.oddHeader]

/-! ## A filled table -/

/-- Entry `i` of a table, which has no packet. -/
def tableEntry (base : Word) (i : Nat) : Entry := ⟨slot base i, [], and_mask_idem _, by decide⟩

def table (base : Word) (n : Nat) : List Entry := (List.range n).map (tableEntry base)

/-- The packets inserted behind entry `i`, newest first. -/
def insertedAt (ins : List (Nat × Entry)) (i : Nat) : List Entry :=
  ((ins.filter fun x => x.1 == i).map Prod.snd).reverse

/-- The list after the insertions. -/
def filled (base : Word) (n : Nat) (ins : List (Nat × Entry)) : List Entry :=
  (List.range n).flatMap fun i => tableEntry base i :: insertedAt ins i

/-- The words of the list. -/
def drawn (n : Nat) (ins : List (Nat × Entry)) : List Word :=
  ((List.range n).flatMap (insertedAt ins)).flatMap Entry.words

theorem filled_nil (base : Word) (n : Nat) : filled base n [] = table base n :=
  List.flatMap_pure_eq_map _ _

theorem insertedAt_concat (ins : List (Nat × Entry)) (i j : Nat) (p : Entry) :
    insertedAt (ins ++ [(i, p)]) j =
      if i = j then p :: insertedAt ins j else insertedAt ins j := by
  unfold insertedAt
  by_cases hij : i = j <;> simp [hij]

/-- An insertion is an insertion into the list. -/
theorem filled_concat (base : Word) {n i : Nat} (hi : i < n) (ins : List (Nat × Entry))
    (p : Entry) :
    ∃ l r, filled base n ins = l ++ tableEntry base i :: r ∧
      filled base n (ins ++ [(i, p)]) = l ++ tableEntry base i :: p :: r := by
  obtain ⟨s, t, hst⟩ := List.append_of_mem (List.mem_range.mpr hi)
  have hnot : i ∉ s ++ t :=
    (List.nodup_cons.mp (List.nodup_middle.mp (hst ▸ List.nodup_range))).1
  let at' := fun j => tableEntry base j :: insertedAt ins j
  have hsame : ∀ j ∈ s ++ t, tableEntry base j :: insertedAt (ins ++ [(i, p)]) j = at' j := by
    intro j hj
    have hne : i ≠ j := fun heq => hnot (heq ▸ hj)
    rw [insertedAt_concat, if_neg hne]
  have hs : s.flatMap (fun j => tableEntry base j :: insertedAt (ins ++ [(i, p)]) j) =
      s.flatMap at' := List.flatMap_congr fun j hj => hsame j (List.mem_append_left t hj)
  have ht : t.flatMap (fun j => tableEntry base j :: insertedAt (ins ++ [(i, p)]) j) =
      t.flatMap at' := List.flatMap_congr fun j hj => hsame j (List.mem_append_right s hj)
  refine ⟨s.flatMap at', insertedAt ins i ++ t.flatMap at', ?_, ?_⟩
  · rw [filled, hst, List.flatMap_append, List.flatMap_cons]
    rfl
  · rw [filled, hst, List.flatMap_append, List.flatMap_cons, hs, ht, insertedAt_concat,
      if_pos rfl]
    rfl

theorem filled_perm (base : Word) {n : Nat} {ins : List (Nat × Entry)}
    (hdepth : ∀ x ∈ ins, x.1 < n) :
    (filled base n ins).Perm (table base n ++ ins.map Prod.snd) := by
  induction ins using List.reverseRecOn with
  | nil =>
    rw [filled_nil, List.map_nil, List.append_nil]
  | append_singleton ins x ih =>
    obtain ⟨l, r, hold, hnew⟩ := filled_concat base (hdepth x (by simp)) ins x.2
    have hrest := ih fun y hy => hdepth y (List.mem_append_left _ hy)
    rw [hold] at hrest
    rw [hnew, List.map_append, ← List.append_assoc]
    have hmove : (l ++ tableEntry base x.1 :: x.2 :: r).Perm
        (x.2 :: (l ++ tableEntry base x.1 :: r)) :=
      ((List.Perm.swap x.2 (tableEntry base x.1) r).append_left l).trans List.perm_middle
    exact (hmove.trans (hrest.cons x.2)).trans (List.perm_append_singleton x.2 _).symm

/-! ## A run of insertions -/

theorem Apart.sublist {es es' : List Entry} (h : Apart es') (hsub : es.Sublist es') : Apart es :=
  List.Nodup.sublist (hsub.flatMap Entry.cells) h

/-- **Run lemma.**  A packet that is not yet inserted stays as it is. -/
theorem inserts {base : Word} {n : Nat} {b : Bus} (fuel : Nat) (h : Laid b.mRam (table base n))
    {ins : List (Nat × Entry)} (hdepth : ∀ x ∈ ins, x.1 < n) (hin : ∀ x ∈ ins, x.2.InRam b.mRam)
    (hapart : Apart (table base n ++ ins.map Prod.snd)) :
    ∃ ram,
      ins.foldlM (fun b x => b.insert fuel (slot base x.1) x.2) b = .ok { b with mRam := ram } ∧
      Laid ram (filled base n ins) ∧
      ∀ e : Entry, Apart (table base n ++ ins.map Prod.snd ++ [e]) → e.InRam b.mRam →
        e.InRam ram := by
  induction ins using List.reverseRecOn with
  | nil =>
    refine ⟨b.mRam, rfl, ?_, fun e _ he => he⟩
    rw [filled_nil]
    exact h
  | append_singleton ins x ih =>
    have hmem : ∀ y ∈ ins, y ∈ ins ++ [x] := fun y hy => List.mem_append_left _ hy
    have hlast : x ∈ ins ++ [x] := List.mem_append_right ins List.mem_cons_self
    have hi := hdepth x hlast
    have hmasked : slot base x.1 &&& 0x1ffffc = slot base x.1 := and_mask_idem _
    have hperm := filled_perm base hdepth
    rw [List.map_append, ← List.append_assoc] at hapart
    obtain ⟨ram, hrun, hlaid, hkeep⟩ := ih (fun y hy => hdepth y (hmem y hy))
      (fun y hy => hin y (hmem y hy)) (hapart.sublist (List.sublist_append_left _ _))
    obtain ⟨l, r, hold, hnew⟩ := filled_concat base hi ins x.2
    rw [hold] at hlaid
    have hentry := hkeep x.2 hapart (hin x hlast)
    have hstep : Apart (l ++ tableEntry base x.1 :: x.2 :: r) := by
      rw [← hnew]
      refine hapart.perm (hperm.trans ?_).symm
      rw [List.map_append, ← List.append_assoc]
    refine ⟨ram.inserted (slot base x.1) x.2, ?_, ?_, ?_⟩
    · rw [List.foldlM_append, hrun, ok_bind, List.foldlM_cons, Bus.insert_eq fuel _ hmasked x.2]
      rfl
    · rw [hnew]
      exact hlaid.insert hentry hstep
    · intro e he hin
      rw [List.map_append, ← List.append_assoc] at he
      have hprefix : Apart (table base n ++ ins.map Prod.snd ++ [e]) :=
        he.sublist ((List.sublist_append_left _ _).append_right [e])
      have hslot : tableEntry base x.1 ∈ table base n :=
        List.mem_map.mpr ⟨x.1, List.mem_range.mpr hi, rfl⟩
      refine (hkeep e hprefix hin).congr fun c hc => ?_
      have hmask := e.cells_masked (List.mem_of_mem_tail hc)
      have hlast : e ∈ table base n ++ ins.map Prod.snd ++ [x].map Prod.snd ++ [e] :=
        List.mem_append_right _ List.mem_cons_self
      have hne : c ≠ slot base x.1 :=
        he.body_ne (y := tableEntry base x.1) hlast (by simp [hslot]) hc
      have hne' : c ≠ x.2.addr := he.body_ne (y := x.2) hlast (by simp) hc
      rw [ram.word_inserted hmasked hmask, if_neg hne, if_neg hne']

/-! ## From clearing to sending -/

section

variable {ram : Ram} {base : Word} {n : Nat}

/-- A cleared table is a list without words. -/
theorem laid_table (h : Holds ram base n) (haligned : base.toNat % 4 = 0) (hn : 0 < n) :
    Laid ram (table base n) := by
  have hnone : ∀ e ∈ table base n, ∃ i < n, e = tableEntry base i := by
    intro e he
    obtain ⟨i, hi, rfl⟩ := List.mem_map.mp he
    exact ⟨i, List.mem_range.mp hi, rfl⟩
  refine ⟨fun e he => ?_, fun e he => ?_, ?_⟩
  · obtain ⟨i, hi, rfl⟩ := hnone e he
    have hpacket := congrArg List.length (packet_slot h hi)
    rw [Ram.packet, Ram.wordsAfter, List.length_map, List.length_range] at hpacket
    exact hpacket
  · obtain ⟨i, -, rfl⟩ := hnone e he
    rfl
  · have hlinked := (endsAt_slot h haligned hn).linked
    rw [Nat.sub_add_cancel hn] at hlinked
    rw [table, List.map_map]
    refine Eq.subst (List.map_congr_left fun i hi => ?_) hlinked
    exact iterate_slot h (List.mem_range.mp hi)

/-- Clearing leaves the packets alone. -/
theorem inRam_replay {m : Nat → Byte} {e : Entry} (hapart : Apart (table base n ++ [e]))
    (h : e.InRam ⟨m⟩) : e.InRam ⟨replay m (writes base n)⟩ := by
  refine h.congr fun c hc => compose_congr fun k hk => replay_outside (fun i hi hin => ?_) m
  have hentry : tableEntry base i ∈ table base n ++ [e] :=
    List.mem_append_left _ (List.mem_map.mpr ⟨i, List.mem_range.mpr hi, rfl⟩)
  have hne : c ≠ slot base i :=
    hapart.body_ne (List.mem_append_right _ List.mem_cons_self) hentry hc
  have hc' := toNat_of_masked (e.cells_masked (List.mem_of_mem_tail hc))
  have hslot := toNat_of_masked (tableEntry base i).masked
  change (slot base i).toNat = _ at hslot
  have hapart : c.toNat ≠ (slot base i).toNat := fun heq => hne (BitVec.eq_of_toNat_eq heq)
  unfold InSlot at hin
  omega

end

namespace Bus

/-- **The drawing order.**  A program clears a table, inserts its packets behind the entries and
starts the GPU channel: GP0 gets the packets in the order of the entries, and behind one entry the
newest first. -/
theorem drawing_order {b : Bus} {base : Word} {n : Nat} (haligned : base.toNat % 4 = 0)
    (hn : 0 < n) (h : b.Clears base n) {ins : List (Nat × Entry)} (hdepth : ∀ x ∈ ins, x.1 < n)
    (hin : ∀ x ∈ ins, x.2.InRam b.mRam) (hapart : Apart (table base n ++ ins.map Prod.snd))
    (fuel : Nat) :
    ∃ b1 b2, b.doDma fuel .otc = .ok b1 ∧
      ins.foldlM (fun b x => b.insert fuel (slot base x.1) x.2) b1 = .ok b2 ∧
      ∀ b3 : Bus, b3.mRam = b2.mRam → b3.Walks base → ∀ fuel' ≥ n + ins.length, ∀ b4,
        b3.doDma fuel' .gpu = .ok b4 ↔ ∃ gpu,
          (drawn n ins).foldlM Gpu.gp0 b3.mGpu = .ok gpu ∧ b4 = { b3 with
            mGpu := gpu
            mDma := b3.mDma.putChannel .gpu (b3.mDma.channel .gpu).done } := by
  obtain ⟨b1, hb1, hram⟩ := h.doDma fuel
  have hlt : n < 2 ^ 16 := h.size ▸ (b.mDma.channel .otc).mBlockSize.isLt
  have htable : Holds b1.mRam base n := by
    intro i hi
    rw [hram]
    exact word_replay hi (by omega) b.mRam.mData
  have hbodies : ∀ x ∈ ins, x.2.InRam b1.mRam := by
    intro x hx
    rw [hram]
    have hx' : [x.2].Sublist (ins.map Prod.snd) :=
      List.singleton_sublist.mpr (List.mem_map.mpr ⟨x, hx, rfl⟩)
    exact inRam_replay (hapart.sublist (hx'.append_left _)) (hin x hx)
  obtain ⟨ram, hrun, hlaid, -⟩ :=
    inserts fuel (laid_table htable haligned hn) hdepth hbodies hapart
  refine ⟨b1, _, hb1, hrun, ?_⟩
  intro b3 hsame hwalks fuel' hfuel b4
  obtain ⟨es, hes⟩ : ∃ es, filled base n ins = tableEntry base 0 :: es := by
    obtain ⟨k, rfl⟩ := Nat.exists_eq_succ_of_ne_zero hn.ne'
    rw [filled, List.range_succ_eq_map, List.flatMap_cons]
    exact ⟨_, rfl⟩
  have hlength := (filled_perm base hdepth).length_eq
  rw [hes, List.length_cons, List.length_append, List.length_map, table, List.length_map,
    List.length_range] at hlength
  have hwords : (filled base n ins).flatMap Entry.words = drawn n ins := by
    rw [filled, drawn, List.flatMap_assoc, List.flatMap_assoc]
    rfl
  rw [hes] at hlaid hwords
  have hsends : ∀ gpu, linkedListLoop b3.mRam fuel' ((b3.mDma.channel .gpu).base &&& 0x1ffffc)
      b3.mGpu = .ok gpu ↔ (drawn n ins).foldlM Gpu.gp0 b3.mGpu = .ok gpu := by
    intro gpu
    rw [hsame, hwalks.base, ← slot_zero, ← hwords]
    exact hlaid.sends (by omega)
  have hdma : b3.doDma fuel' .gpu = b3.doDmaLinkedList fuel' .gpu := by
    unfold Bus.doDma
    rw [hwalks.sync]
  rw [hdma, doDmaLinkedList_eq_ok_iff hwalks.direction]
  exact exists_congr fun gpu => and_congr_left' (hsends gpu)

/-- Two packets that set the drawing area, behind one entry: the older one is drawn last. -/
theorem drawing_order_area :
    ∃ (b b1 b2 b4 : Bus) (p q : Entry) (list : Channel), b.doDma 0 .otc = .ok b1 ∧
      [(0, p), (0, q)].foldlM (fun b x => b.insert 0 (slot 8 x.1) x.2) b1 = .ok b2 ∧
      p.words = [0xe3000001] ∧ q.words = [0xe3000002] ∧
      Bus.doDma 3 { b with mRam := b2.mRam, mDma := b.mDma.putChannel .gpu list } .gpu = .ok b4 ∧
      b4.mGpu.mDrawingAreaLeft = 1 := by
  let b : Bus := { ofList [0, 0, 0, 0, 0, 0xe3000001, 0, 0xe3000002] with
    mDma := Dma.new.putChannel .otc
      { Channel.new with mStep := .decrement, mBlockSize := 1, mBase := 8 } }
  let p : Entry := ⟨16, [0xe3000001], by decide, by decide⟩
  let q : Entry := ⟨24, [0xe3000002], by decide, by decide⟩
  have hclears : b.Clears 8 1 := ⟨rfl, rfl, rfl, rfl, rfl⟩
  have hdepth : ∀ x ∈ [(0, p), (0, q)], x.1 < 1 := by decide
  have hin : ∀ x ∈ [(0, p), (0, q)], x.2.InRam b.mRam := by
    simp only [List.mem_cons, List.not_mem_nil, or_false, forall_eq_or_imp, forall_eq]
    unfold Entry.InRam
    decide +kernel
  have hapart : Apart (table 8 1 ++ [(0, p), (0, q)].map Prod.snd) := by
    unfold Apart
    decide +kernel
  obtain ⟨b1, b2, hb1, hb2, hlater⟩ :=
    drawing_order (by decide) (by decide) hclears hdepth hin hapart 0
  let list : Channel :=
    { Channel.new with mDirection := .fromRam, mSync := .linkedList, mBase := 8 }
  let b3 : Bus := { b with mRam := b2.mRam, mDma := b.mDma.putChannel .gpu list }
  have hsent : okAnd ((drawn 1 [(0, p), (0, q)]).foldlM Gpu.gp0 Gpu.new)
      (fun g => g.mDrawingAreaLeft = 1) = true := by decide +kernel
  obtain ⟨gpu, hgpu, harea⟩ := exists_of_okAnd hsent
  have hdma := (hlater b3 rfl ⟨rfl, rfl, rfl⟩ 3 (Nat.le_refl 3) _).mpr ⟨gpu, hgpu, rfl⟩
  exact ⟨b, b1, b2, _, p, q, list, hb1, hb2, rfl, rfl, hdma, of_decide_eq_true harea⟩

end Bus

end CppStation
