import Mathlib.Algebra.Group.Nat.Defs
import Mathlib.Data.List.Pairwise

/-!
# Registers assembled from parts

`pack` ORs values shifted to their places, with no masking.  When every value is
as narrow as its slot and the slots do not overlap, each slot reads back the
value put there and every other bit is clear.
-/

namespace Register

variable {w : Nat}

/-- A range of bits. -/
structure Slot where
  offset : Nat
  width : Nat
  deriving DecidableEq

namespace Slot

def Covers (s : Slot) (i : Nat) : Prop := s.offset ≤ i ∧ i < s.offset + s.width

instance (s : Slot) (i : Nat) : Decidable (s.Covers i) := inferInstanceAs (Decidable (_ ∧ _))

def Apart (s t : Slot) : Prop := s.offset + s.width ≤ t.offset ∨ t.offset + t.width ≤ s.offset

instance (s t : Slot) : Decidable (s.Apart t) := inferInstanceAs (Decidable (_ ∨ _))

theorem Apart.symm {s t : Slot} (h : s.Apart t) : t.Apart s := Or.symm h

theorem Apart.not_covers {s t : Slot} (h : s.Apart t) {i : Nat} (hi : t.Covers i) :
    ¬ s.Covers i := by
  intro hs
  simp only [Covers] at hi hs
  rcases h with h | h <;> omega

end Slot

structure Part (w : Nat) where
  slot : Slot
  value : BitVec w

/-- Only the low `k` bits of `v` can be set. -/
def Narrow (v : BitVec w) (k : Nat) : Prop := ∀ j, k ≤ j → v.getLsbD j = false

theorem narrow_of_lt {v : BitVec w} {k : Nat} (h : v.toNat < 2 ^ k) : Narrow v k := by
  intro j hj
  exact Nat.testBit_lt_two_pow (Nat.lt_of_lt_of_le h (Nat.pow_le_pow_right (by decide) hj))

theorem narrow_setWidth {v : Nat} (x : BitVec v) : Narrow (x.setWidth w) v := by
  intro j hj
  simp [BitVec.getLsbD_of_ge x j hj]

theorem Narrow.mono {v : BitVec w} {k n : Nat} (h : Narrow v k) (hkn : k ≤ n) : Narrow v n :=
  fun j hj => h j (Nat.le_trans hkn hj)

namespace Part

def bits (p : Part w) : BitVec w := p.value <<< p.slot.offset

/-- A narrow value only sets bits of its slot. -/
theorem getLsbD_bits_of_not_covers {p : Part w} (h : Narrow p.value p.slot.width) {i : Nat}
    (hi : ¬ p.slot.Covers i) : p.bits.getLsbD i = false := by
  rw [bits, BitVec.getLsbD_shiftLeft]
  by_cases hlt : i < p.slot.offset
  · simp [hlt]
  · have hwide : p.slot.width ≤ i - p.slot.offset := by
      simp only [Slot.Covers] at hi
      omega
    simp [h _ hwide]

/-- A value that ends below bit `n` of the register sets no bit from `n` on. -/
theorem getLsbD_bits_of_narrow {p : Part w} {n i : Nat} (h : Narrow p.value (n - p.slot.offset))
    (hi : n ≤ i) : p.bits.getLsbD i = false := by
  rw [bits, BitVec.getLsbD_shiftLeft, h _ (by omega), Bool.and_false]

theorem getLsbD_bits_of_lt {p : Part w} {i : Nat} (hi : i < p.slot.offset) :
    p.bits.getLsbD i = false := by
  rw [bits, BitVec.getLsbD_shiftLeft]
  simp [hi]

theorem getLsbD_bits_add (p : Part w) {j : Nat} (hj : p.slot.offset + j < w) :
    p.bits.getLsbD (p.slot.offset + j) = p.value.getLsbD j := by
  rw [bits, BitVec.getLsbD_shiftLeft]
  simp [hj]

end Part

def pack (parts : List (Part w)) : BitVec w := parts.foldl (fun r p => r ||| p.bits) 0

theorem getLsbD_foldl (parts : List (Part w)) (r : BitVec w) (i : Nat) :
    (parts.foldl (fun r p => r ||| p.bits) r).getLsbD i =
      (r.getLsbD i || parts.any fun p => p.bits.getLsbD i) := by
  induction parts generalizing r with
  | nil => simp
  | cons p parts ih =>
    rw [List.foldl_cons, ih, BitVec.getLsbD_or, List.any_cons, Bool.or_assoc]

theorem getLsbD_pack (parts : List (Part w)) (i : Nat) :
    (pack parts).getLsbD i = parts.any fun p => p.bits.getLsbD i := by
  rw [pack, getLsbD_foldl]
  simp

variable {parts : List (Part w)}

/-- **A gap reads as zero.** -/
theorem getLsbD_pack_of_gap (hnarrow : ∀ p ∈ parts, Narrow p.value p.slot.width) {i : Nat}
    (hgap : ∀ s ∈ parts.map Part.slot, ¬ s.Covers i) : (pack parts).getLsbD i = false := by
  rw [getLsbD_pack, List.any_eq_false]
  intro p hp
  have hnot := hgap p.slot (List.mem_map_of_mem hp)
  simp [Part.getLsbD_bits_of_not_covers (hnarrow p hp) hnot]

/-- **A slot reads back its value.** -/
theorem getLsbD_pack_of_slot (hnarrow : ∀ p ∈ parts, Narrow p.value p.slot.width)
    (hapart : (parts.map Part.slot).Pairwise Slot.Apart) {p : Part w} (hp : p ∈ parts) {j : Nat}
    (hj : j < p.slot.width) (hw : p.slot.offset + j < w) :
    (pack parts).getLsbD (p.slot.offset + j) = p.value.getLsbD j := by
  have hcovers : p.slot.Covers (p.slot.offset + j) := ⟨by omega, by omega⟩
  have hbit := p.getLsbD_bits_add hw
  rw [getLsbD_pack, ← hbit]
  rw [List.pairwise_map] at hapart
  obtain ⟨before, after, rfl⟩ := List.append_of_mem hp
  obtain ⟨-, htail, hhead⟩ := List.pairwise_append.mp hapart
  have hothers : ∀ q ∈ before ++ after, q.bits.getLsbD (p.slot.offset + j) = false := by
    intro q hq
    rcases List.mem_append.mp hq with hbefore | hafter
    · have hq' := hhead q hbefore p List.mem_cons_self
      exact Part.getLsbD_bits_of_not_covers (hnarrow q (by simp [hbefore])) (hq'.not_covers hcovers)
    · have hq' := (List.pairwise_cons.mp htail).1 q hafter
      exact Part.getLsbD_bits_of_not_covers (hnarrow q (by simp [hafter]))
        (hq'.symm.not_covers hcovers)
  have hbefore : before.any (fun q => q.bits.getLsbD (p.slot.offset + j)) = false := by
    rw [List.any_eq_false]
    intro q hq
    simp [hothers q (by simp [hq])]
  have hafter : after.any (fun q => q.bits.getLsbD (p.slot.offset + j)) = false := by
    rw [List.any_eq_false]
    intro q hq
    simp [hothers q (by simp [hq])]
  rw [List.any_append, List.any_cons, hbefore, hafter, Bool.false_or, Bool.or_false]

/-- **The register determines its parts.** -/
theorem eq_of_pack_eq {parts' : List (Part w)} (hslots : parts'.map Part.slot = parts.map Part.slot)
    (hapart : (parts.map Part.slot).Pairwise Slot.Apart)
    (hnarrow : ∀ p ∈ parts, Narrow p.value p.slot.width)
    (hnarrow' : ∀ p ∈ parts', Narrow p.value p.slot.width)
    (hfits : ∀ p ∈ parts, p.slot.offset + p.slot.width ≤ w) (h : pack parts' = pack parts) :
    parts' = parts := by
  have hlen : parts'.length = parts.length := by
    simpa only [List.length_map] using congrArg List.length hslots
  refine List.ext_getElem hlen fun k hk' hk => ?_
  have hmem := List.getElem_mem hk
  have hmem' := List.getElem_mem hk'
  have hslot : parts'[k].slot = parts[k].slot := by
    have hget := List.getElem_of_eq hslots (by simpa only [List.length_map] using hk')
    simpa only [List.getElem_map] using hget
  have hvalue : parts'[k].value = parts[k].value := by
    apply BitVec.eq_of_getLsbD_eq
    intro j _
    by_cases hj : j < parts[k].slot.width
    · have hw := hfits _ hmem
      have hread := getLsbD_pack_of_slot hnarrow hapart hmem hj (by omega)
      have hread' := getLsbD_pack_of_slot hnarrow' (hslots ▸ hapart) hmem' (hslot.symm ▸ hj)
        (by rw [hslot]; omega)
      rw [← hread, ← hread', h, hslot]
    · rw [hnarrow _ hmem j (by omega), hnarrow' _ hmem' j (by rw [hslot]; omega)]
  calc
    parts'[k] = ⟨parts'[k].slot, parts'[k].value⟩ := rfl
    _ = ⟨parts[k].slot, parts[k].value⟩ := by rw [hslot, hvalue]

/-! ## Fields of a word -/

/-- The field of `x` in a slot, in its place. -/
def field (x : BitVec w) (s : Slot) : Part w :=
  ⟨s, (x >>> s.offset) &&& BitVec.ofNat w (2 ^ s.width - 1)⟩

theorem getLsbD_bits_field (x : BitVec w) (s : Slot) {i : Nat} (hi : i < w) :
    (field x s).bits.getLsbD i = (decide (s.Covers i) && x.getLsbD i) := by
  simp only [Part.bits, field, Slot.Covers]
  rw [BitVec.getLsbD_shiftLeft, BitVec.getLsbD_and, BitVec.getLsbD_ushiftRight,
    BitVec.getLsbD_ofNat, Nat.testBit_two_pow_sub_one]
  by_cases hle : s.offset ≤ i
  · simp [hi, hle, show ¬ i < s.offset by omega, show i - s.offset < w by omega,
      Nat.sub_lt_iff_lt_add' hle, Bool.and_comm]
  · simp [hle, show i < s.offset by omega]

/-- The fields of a word put together are the word under the mask of the slots. -/
theorem getLsbD_pack_fields (x : BitVec w) (slots : List Slot) {i : Nat} (hi : i < w) :
    (pack (slots.map (field x))).getLsbD i =
      (slots.any (fun s => decide (s.Covers i)) && x.getLsbD i) := by
  rw [getLsbD_pack, List.any_map]
  induction slots with
  | nil => rfl
  | cons s slots ih =>
    rw [List.any_cons, List.any_cons, ih, Function.comp_apply, getLsbD_bits_field x s hi,
      Bool.and_or_distrib_right]

theorem pack_fields {slots : List Slot} {mask : BitVec w}
    (hmask : ∀ i < w, mask.getLsbD i = slots.any fun s => decide (s.Covers i)) (x : BitVec w) :
    pack (slots.map (field x)) = x &&& mask := by
  apply BitVec.eq_of_getLsbD_eq
  intro i hi
  rw [getLsbD_pack_fields x slots hi, BitVec.getLsbD_and, hmask i hi, Bool.and_comm]

end Register
