import CppStation.Memory.Dma
import CppStation.Lib.Register

/-!
# The DMA interrupt register

`setInterrupt` is to reset the flags that are written as 1.  It computes the
mask with the logical `!` where the complement is meant, and from six of the
seven bits, so that it resets nearly every flag whatever is written.
-/

namespace CppStation

open Register

namespace Dma

/-- The flags written as 1. -/
def acknowledge (val : Word) : Word := (val >>> 24) &&& 0x3f

/-- Only the flag of channel 0 can survive, and only when nothing is acknowledged. -/
theorem flags_setInterrupt (d : Dma) (val : Word) (c : Nat) :
    (d.setInterrupt val).mChannelIrqFlags.getLsbD c =
      (decide (c = 0) && decide (acknowledge val = 0) && d.mChannelIrqFlags.getLsbD 0) := by
  have hback : ((acknowledge val).setWidth 8).setWidth 32 = acknowledge val :=
    Bits.setWidth_setWidth_and _ (by decide)
  have hflags : (d.setInterrupt val).mChannelIrqFlags =
      (d.mChannelIrqFlags.setWidth 32 &&& lnot (acknowledge val)).setWidth 8 := by
    rw [← hback]
    rfl
  have hlnot : lnot (acknowledge val) = ofBool (decide (acknowledge val = 0)) := rfl
  rw [hflags, hlnot]
  by_cases hack : acknowledge val = 0
  · simp only [hack, decide_true, ofBool, if_true]
    cases c with
    | zero => simp
    | succ c => simp
  · rw [decide_eq_false hack]
    simp [ofBool]

/-- The places of the fields that read back as written. -/
def writtenSlots : List Slot := [⟨0, 6⟩, ⟨15, 1⟩, ⟨16, 7⟩, ⟨23, 1⟩]

/-- The register is packed from the fields of the word, the flags and the summary bit. -/
theorem interrupt_setInterrupt (d : Dma) (val : Word) :
    (d.setInterrupt val).interrupt = pack (writtenSlots.map (field val) ++
      [⟨⟨24, 7⟩, (d.setInterrupt val).mChannelIrqFlags.setWidth 32⟩,
       ⟨⟨31, 1⟩, ofBool (d.setInterrupt val).irq⟩]) := by
  have hflag : ∀ x : Word, ofBool (truth (x &&& ofBool ((1 : Word) != 0))) = x &&& 1 := ofBool_truth
  have hdummy : (d.setInterrupt val).mIrqDummy.setWidth 32 = (val >>> 0) &&& 0x3f := by
    rw [BitVec.ushiftRight_zero]
    exact Bits.setWidth_setWidth_and _ (by decide)
  have hforce : ofBool (d.setInterrupt val).mForceIrq = (val >>> 15) &&& 1 := hflag _
  have hen : (d.setInterrupt val).mChannelIrqEn.setWidth 32 = (val >>> 16) &&& 0x7f :=
    Bits.setWidth_setWidth_and _ (by decide)
  have hmaster : ofBool (d.setInterrupt val).mIrqEn = (val >>> 23) &&& 1 := hflag _
  simp only [interrupt]
  rw [hdummy, hforce, hen, hmaster, ← BitVec.shiftLeft_zero ((val >>> 0) &&& 0x3f)]
  rfl

/-- Bit `i` of the register after the write. -/
theorem getLsbD_interrupt (d : Dma) (val : Word) {i : Nat} (hi : i < 32) :
    (d.setInterrupt val).interrupt.getLsbD i =
      ((writtenSlots.any (fun s => decide (s.Covers i)) && val.getLsbD i) ||
        ((decide (24 ≤ i) && (d.setInterrupt val).mChannelIrqFlags.getLsbD (i - 24)) ||
          (decide (i = 31) && (d.setInterrupt val).irq))) := by
  rw [interrupt_setInterrupt, getLsbD_pack, List.any_append, ← getLsbD_pack,
    getLsbD_pack_fields val writtenSlots hi]
  simp only [List.any_cons, List.any_nil, Part.bits, Bool.or_false,
    Bits.getLsbD_setWidth_shiftLeft _ 24 hi, getLsbD_ofBool_shiftLeft _ 31 hi]

/-- What writing `val` is to do to the interrupt register. -/
structure InterruptWritten (d : Dma) (val : Word) (d' : Dma) : Prop where
  acknowledged : ∀ c < 7, d'.mChannelIrqFlags.getLsbD c =
    (d.mChannelIrqFlags.getLsbD c && !val.getLsbD (24 + c))
  dummy : ∀ i < 6, d'.interrupt.getLsbD i = val.getLsbD i
  force : d'.interrupt.getLsbD 15 = val.getLsbD 15
  enables : ∀ c < 7, d'.interrupt.getLsbD (16 + c) = val.getLsbD (16 + c)
  master : d'.interrupt.getLsbD 23 = val.getLsbD 23
  flags : ∀ c < 7, d'.interrupt.getLsbD (24 + c) = d'.mChannelIrqFlags.getLsbD c
  unused : ∀ i, 6 ≤ i → i < 15 → d'.interrupt.getLsbD i = false
  summary : d'.interrupt.getLsbD 31 = true ↔ val.getLsbD 15 = true ∨ val.getLsbD 23 = true ∧
    ∃ c < 7, val.getLsbD (16 + c) = true ∧ d'.mChannelIrqFlags.getLsbD c = true

/-- Every flag is one that `setInterrupt` treats as the word says: the flags 1 to 6 are set only
where they are acknowledged, and flag 0 is set only where it is acknowledged or none of the first
six is. -/
def FlagsFollow (d : Dma) (val : Word) : Prop :=
  (∀ c < 7, 0 < c → d.mChannelIrqFlags.getLsbD c = true → val.getLsbD (24 + c) = true) ∧
    (d.mChannelIrqFlags.getLsbD 0 = true →
      val.getLsbD 24 = true ∨ ∀ c < 6, val.getLsbD (24 + c) = false)

theorem interrupt_summary (d : Dma) (val : Word) :
    (d.setInterrupt val).irq = true ↔ val.getLsbD 15 = true ∨ val.getLsbD 23 = true ∧
      ∃ c < 7, val.getLsbD (16 + c) = true ∧
        (d.setInterrupt val).mChannelIrqFlags.getLsbD c = true := by
  have hflag : ∀ n, truth ((val >>> n) &&& ofBool ((1 : Word) != 0)) = val.getLsbD n := by
    intro n
    exact (truth_and_one _).trans (BitVec.getLsbD_ushiftRight ..)
  have hforce : (d.setInterrupt val).mForceIrq = val.getLsbD 15 := hflag 15
  have hmaster : (d.setInterrupt val).mIrqEn = val.getLsbD 23 := hflag 23
  have hen : ∀ c < 8, (d.setInterrupt val).mChannelIrqEn.getLsbD c =
      (decide (c < 7) && val.getLsbD (16 + c)) := by
    intro c hc
    have hfield := Bits.getLsbD_field val (n := 16) (k := 7) (by decide) c
    have hset : (d.setInterrupt val).mChannelIrqEn =
        ((val >>> 16) &&& BitVec.ofNat 32 (2 ^ 7 - 1)).setWidth 8 := rfl
    rw [hset, BitVec.getLsbD_setWidth, hfield, decide_eq_true hc, Bool.true_and]
  rw [irq, hforce, hmaster, Bool.or_eq_true, Bool.and_eq_true, bne_iff_ne]
  refine or_congr Iff.rfl (and_congr Iff.rfl ((Bits.ne_zero_iff _).trans ?_))
  refine exists_congr fun c => ?_
  constructor
  · rintro ⟨hc, hbit⟩
    rw [BitVec.getLsbD_and, hen c hc] at hbit
    simp only [Bool.and_eq_true, decide_eq_true_eq] at hbit
    exact ⟨hbit.2.1, hbit.2.2, hbit.1⟩
  · rintro ⟨hc, henabled, hflagged⟩
    refine ⟨by omega, ?_⟩
    rw [BitVec.getLsbD_and, hen c (by omega), hflagged, henabled, decide_eq_true hc]
    rfl

theorem acknowledge_eq_zero_iff (val : Word) :
    acknowledge val = 0 ↔ ∀ c < 6, val.getLsbD (24 + c) = false := by
  have hbit := fun c => Bits.getLsbD_field val (n := 24) (k := 6) (by decide) c
  constructor
  · intro h c hc
    have hzero := hbit c
    rw [show (val >>> 24) &&& BitVec.ofNat 32 (2 ^ 6 - 1) = 0 from h, decide_eq_true hc] at hzero
    simpa using hzero.symm
  · intro h
    refine BitVec.eq_of_getLsbD_eq fun c _ => ?_
    refine (hbit c).trans ?_
    by_cases hc : c < 6
    · simp [hc, h c hc]
    · simp [hc]

theorem acknowledged_iff (d : Dma) (val : Word) :
    (∀ c < 7, (d.setInterrupt val).mChannelIrqFlags.getLsbD c =
        (d.mChannelIrqFlags.getLsbD c && !val.getLsbD (24 + c))) ↔ FlagsFollow d val := by
  simp only [flags_setInterrupt, FlagsFollow, ← acknowledge_eq_zero_iff]
  constructor
  · intro h
    constructor
    · intro c hc hpos hflag
      have hkept := h c hc
      simpa [hflag, show c ≠ 0 by omega] using hkept
    · intro hflag
      have hkept := h 0 (by decide)
      rw [hflag] at hkept
      by_cases hack : acknowledge val = 0
      · exact .inr hack
      · rw [decide_eq_false hack] at hkept
        exact .inl (by simpa using hkept)
  · rintro ⟨hothers, hzero⟩ c hc
    cases hflag : d.mChannelIrqFlags.getLsbD c with
    | false =>
      by_cases hc0 : c = 0
      · rw [← hc0, hflag, Bool.and_false, Bool.false_and]
      · rw [decide_eq_false hc0, Bool.false_and, Bool.false_and, Bool.false_and]
    | true =>
      by_cases hc0 : c = 0
      · subst hc0
        rw [hflag, decide_eq_true rfl, Bool.true_and, Bool.and_true, Bool.true_and]
        rcases hzero hflag with hbit | hack
        · have hne : acknowledge val ≠ 0 := fun hack =>
            absurd (((acknowledge_eq_zero_iff val).mp hack 0 (by decide)).symm.trans hbit)
              (by decide)
          rw [hbit, decide_eq_false hne]
          rfl
        · rw [(acknowledge_eq_zero_iff val).mp hack 0 (by decide), decide_eq_true hack]
          rfl
      · rw [decide_eq_false hc0, hothers c hc (by omega) hflag]
        rfl

/-- **The interrupt register behaves as it is to exactly when** the flags follow the word. -/
theorem interruptWritten_iff (d : Dma) (val : Word) :
    InterruptWritten d val (d.setInterrupt val) ↔ FlagsFollow d val := by
  rw [← acknowledged_iff]
  refine ⟨fun h => h.acknowledged, fun h => ?_⟩
  have hbit := fun {i : Nat} (hi : i < 32) => getLsbD_interrupt d val hi
  have hfield : ∀ i < 24, writtenSlots.any (fun s => decide (s.Covers i)) = true →
      (d.setInterrupt val).interrupt.getLsbD i = val.getLsbD i := by
    intro i hi hcovers
    rw [hbit (by omega), hcovers]
    simp [show ¬ 24 ≤ i by omega, show i ≠ 31 by omega]
  have hgap : ∀ i < 32, 24 ≤ i → writtenSlots.any (fun s => decide (s.Covers i)) = false := by
    decide
  have hunused : ∀ i < 15, 6 ≤ i → writtenSlots.any (fun s => decide (s.Covers i)) = false := by
    decide
  have hhigh : (d.setInterrupt val).mChannelIrqFlags.getLsbD 7 = false := by
    rw [flags_setInterrupt]
    rfl
  exact {
    acknowledged := h
    dummy := fun i hi => hfield i (by omega) (by revert i; decide)
    force := hfield 15 (by decide) (by decide)
    enables := fun c hc => hfield (16 + c) (by omega) (by revert c; decide)
    master := hfield 23 (by decide) (by decide)
    flags := by
      intro c hc
      rw [hbit (by omega), hgap _ (by omega) (by omega)]
      simp [show 24 + c ≠ 31 by omega]
    unused := by
      intro i hle hlt
      rw [hbit (by omega), hunused i hlt hle]
      simp [show ¬ 24 ≤ i by omega, show i ≠ 31 by omega]
    summary := by
      rw [← interrupt_summary, hbit (by decide), hgap 31 (by decide) (by decide), hhigh]
      simp }

/-- Writing 0 resets the flag of channel 1. -/
theorem interrupt_flag_lost :
    ¬ ∀ (d : Dma) (val : Word), InterruptWritten d val (d.setInterrupt val) := by
  intro h
  have hflag := (h { new with mChannelIrqFlags := 2 } 0).acknowledged 1 (by decide)
  exact absurd hflag (by decide)

end Dma

end CppStation
