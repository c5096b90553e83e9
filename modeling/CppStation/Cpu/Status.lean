import CppStation.Cpu.Run
import CppStation.Lib.Bits
import CppStation.Lib.Nesting

/-!
# The mode stack in the status register

`exception` pushes a mode and RFE pops one.  Both write `mSr &= !0x3f` with the
logical negation, so that they clear bits [31:6].
-/

namespace CppStation

open Bits Fallible Nesting

/-- An exception entry, or an RFE instruction. -/
abbrev StatusEvent := Exception ⊕ Word

namespace Cpu

def statusStep (c : Cpu) : StatusEvent → Result Cpu
  | .inl cause => .ok (c.exception cause)
  | .inr instruction => c.opRfe instruction

/-- The documented discipline from one state. -/
structure StackDiscipline (c : Cpu) : Prop where
  exception_frame : ∀ cause, (c.exception cause).mSr >>> 6 = c.mSr >>> 6
  exception_mode : ∀ cause,
    (c.exception cause).mSr &&& (0x3f : Word) = ((c.mSr &&& 0x3f) <<< 2) &&& (0x3f : Word)
  rfe_frame : ∀ instruction c', c.opRfe instruction = .ok c' → c'.mSr >>> 6 = c.mSr >>> 6
  rfe_undoes : ∀ cause instruction c', (c.exception cause).opRfe instruction = .ok c' →
    c'.mSr &&& 0xf = c.mSr &&& 0xf
  nested : ∀ events c', Nested 2 events → events.foldlM statusStep c = .ok c' →
    c'.mSr &&& 3 = c.mSr &&& 3 ∧ c'.mSr >>> 6 = c.mSr >>> 6
  vector : ∀ before cause rest c', Nested 2 (before ++ .inl cause :: rest) →
    (before ++ [.inl cause]).foldlM statusStep c = .ok c' →
    c'.mPc = if c.mSr.getLsbD 22 then 0xbfc00180 else 0x80000080

/-! ## What the code does to SR -/

theorem mask_mode (x : Word) : (x &&& 0x3f).toNat = x.toNat % 64 :=
  toNat_and_mask x (k := 6) (by decide)

/-- `!0x3f` is zero. -/
theorem and_lnot_or (x y : Word) : (x &&& lnot 0x3f) ||| y = y := by
  rw [show lnot 0x3f = 0#32 from rfl, BitVec.and_zero, BitVec.zero_or]

theorem toNat_exception_mSr (c : Cpu) (cause : Exception) :
    (c.exception cause).mSr.toNat = 4 * c.mSr.toNat % 64 := by
  have h : (c.exception cause).mSr = ((c.mSr &&& 0x3f) <<< 2) &&& 0x3f :=
    (Control.exception_mSr c.toControl cause).trans (and_lnot_or _ _)
  rw [h, mask_mode, BitVec.toNat_shiftLeft, mask_mode, Nat.shiftLeft_eq]
  omega

theorem toNat_opRfe_mSr {c c' : Cpu} {instruction : Word} (h : c.opRfe instruction = .ok c') :
    c'.mSr.toNat = c.mSr.toNat % 64 / 4 := by
  have hsr : c'.mSr = (c.mSr &&& lnot 0x3f) ||| ((c.mSr &&& 0x3f) >>> 2) := by
    unfold opRfe at h
    split at h
    · cases h
    · rw [← Except.ok.inj h]
  rw [hsr, and_lnot_or, BitVec.toNat_ushiftRight, mask_mode, Nat.shiftRight_eq_div_pow]

theorem toNat_frame (x : Word) : (x >>> 6).toNat = x.toNat / 64 := by
  rw [BitVec.toNat_ushiftRight, Nat.shiftRight_eq_div_pow]

/-- Both operations leave bits [31:6] zero. -/
theorem statusStep_lt {c c' : Cpu} {e : StatusEvent} (h : c.statusStep e = .ok c') :
    c'.mSr.toNat < 64 := by
  cases e with
  | inl cause =>
    cases h
    rw [toNat_exception_mSr]
    omega
  | inr instruction =>
    rw [toNat_opRfe_mSr h]
    omega

/-- What a sequence of depth `n` restores: all but the top `n` of the three modes. -/
def Restored (n : Nat) (c c' : Cpu) : Prop :=
  c'.mSr.toNat % 2 ^ (6 - 2 * n) = c.mSr.toNat % 2 ^ (6 - 2 * n)

theorem restored_pair (n : Nat) (cause : Exception) (instruction : Word) (c c₁ c₂ c₃ : Cpu)
    (h₁ : c.statusStep (.inl cause) = .ok c₁) (hbody : Restored n c₁ c₂)
    (h₃ : c₂.statusStep (.inr instruction) = .ok c₃) : Restored (n + 1) c c₃ := by
  have hpush : c₁.mSr.toNat = 4 * c.mSr.toNat % 64 := by
    cases h₁
    exact toNat_exception_mSr c cause
  have hpop : c₃.mSr.toNat = c₂.mSr.toNat % 64 / 4 := toNat_opRfe_mSr h₃
  unfold Restored at hbody ⊢
  rw [hpush] at hbody
  rw [hpop]
  match n with
  | 0 | 1 | 2 =>
    simp only [Nat.reduceMul, Nat.reduceSub, Nat.reduceAdd, Nat.reducePow] at hbody ⊢
    omega
  | n + 3 =>
    rw [show 6 - 2 * (n + 3 + 1) = 0 by omega]
    omega

theorem restored_of_nested {n : Nat} {events : List StatusEvent} {c c' : Cpu}
    (h : Nested n events) (hrun : events.foldlM statusStep c = .ok c') : Restored n c c' :=
  h.restores (R := Restored) (fun _ _ => rfl) (fun _ _ _ _ h₁ h₂ => h₂.trans h₁) restored_pair hrun

theorem frame_eq_zero_iff (x : Word) : x >>> 6 = 0 ↔ x.toNat < 64 := by
  rw [← BitVec.toNat_inj, toNat_frame, show (0 : Word).toNat = 0 from rfl]
  omega

theorem mode_pair_eq {x y : Word} (h : x.toNat % 4 = y.toNat % 4) : x &&& 3 = y &&& 3 := by
  apply BitVec.eq_of_toNat_eq
  exact (toNat_and_mask x (k := 2) (by decide)).trans
    (h.trans (toNat_and_mask y (k := 2) (by decide)).symm)

/-- The handler in terms of the BEV bit. -/
theorem exception_handler (c : Cpu) (cause : Exception) :
    (c.exception cause).mPc = if c.mSr.getLsbD 22 then 0xbfc00180 else 0x80000080 := by
  refine (Control.exception_mPc c.toControl cause).trans ?_
  simp only [← and_one_shiftLeft_ne_zero_iff c.mSr (i := 22) (by decide)]
  rfl

theorem bev_eq_false {x : Word} (h : x.toNat < 64) : x.getLsbD 22 = false :=
  Nat.testBit_lt_two_pow (h.trans (by decide))

/-- **The discipline holds exactly where it has nothing to preserve.** -/
theorem stackDiscipline_iff (c : Cpu) : c.StackDiscipline ↔ c.mSr >>> 6 = 0 := by
  constructor
  · intro h
    rw [← h.exception_frame .sysCall, frame_eq_zero_iff, toNat_exception_mSr]
    omega
  · intro h
    have hframe : ∀ c' : Cpu, c'.mSr.toNat < 64 → c'.mSr >>> 6 = c.mSr >>> 6 :=
      fun c' hc' => ((frame_eq_zero_iff _).mpr hc').trans h.symm
    rw [frame_eq_zero_iff] at h
    have hrun : ∀ (events : List StatusEvent) (c' : Cpu),
        events.foldlM statusStep c = .ok c' → c'.mSr.toNat < 64 :=
      fun events _ => foldlM_invariant (P := fun c : Cpu => c.mSr.toNat < 64)
        (fun _ _ _ _ => statusStep_lt) events h
    constructor
    case exception_frame =>
      exact fun cause => hframe _ (statusStep_lt (e := .inl cause) rfl)
    case exception_mode =>
      intro cause
      apply BitVec.eq_of_toNat_eq
      rw [mask_mode, toNat_exception_mSr, mask_mode, BitVec.toNat_shiftLeft, mask_mode,
        Nat.shiftLeft_eq]
      omega
    case rfe_frame =>
      exact fun instruction c' hc' => hframe c' (statusStep_lt (e := .inr instruction) hc')
    case rfe_undoes =>
      intro cause instruction c' hc'
      apply BitVec.eq_of_toNat_eq
      refine (toNat_and_mask _ (k := 4) (by decide)).trans
        (Eq.trans ?_ (toNat_and_mask _ (k := 4) (by decide)).symm)
      rw [toNat_opRfe_mSr hc', toNat_exception_mSr]
      omega
    case nested =>
      intro events c' hn hc'
      exact ⟨mode_pair_eq (restored_of_nested hn hc'), hframe c' (hrun events c' hc')⟩
    case vector =>
      intro before cause rest c' _ hc'
      rw [List.foldlM_append, bind_eq_ok] at hc'
      obtain ⟨c₁, hc₁, hlast⟩ := hc'
      cases hlast
      rw [exception_handler, bev_eq_false h, bev_eq_false (hrun before c₁ hc₁)]

/-- An exception with BEV set clears it, and the next exception goes to the RAM vector. -/
theorem not_forall_stackDiscipline : ¬ ∀ c : Cpu, c.StackDiscipline := by
  intro h
  have hv := (h { Cpu.new with mSr := 0x00400000 }).vector [.inl .sysCall] .overflow
    [.inr 0x42000010, .inr 0x42000010] _ (.enter _ _ (.enter _ _ (.nil _) (.nil _)) (.nil _)) rfl
  exact absurd hv (by decide)

end Cpu

end CppStation
