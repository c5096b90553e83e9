import CppStation.Cpu.Computational
import CppStation.Cpu.Run
import CppStation.Lib.CInt

/-!
# Overflow traps

ADD, ADDI and SUB compute with wrapped words and find an overflow by the signs
of the operands and of the result.  `Trapping` states them with exact integers.
-/

namespace CppStation

open Instruction Fallible

/-! ## The architecture -/

/-- The instructions that trap on overflow. -/
inductive Trapping
  | add | addi | sub
  deriving DecidableEq, Repr

namespace Trapping

/-- The major opcode, and for major opcode 0 the function. -/
def encoding : Trapping → Nat × Option Nat
  | add => (0x00, some 0x20)
  | addi => (0x08, none)
  | sub => (0x00, some 0x22)

/-- The word `w` is an instruction of this kind. -/
def Encodes (k : Trapping) (w : Word) : Prop :=
  bitField w 26 6 = k.encoding.1 ∧ ∀ f ∈ k.encoding.2, bitField w 0 6 = f

/-- The register that is written: `rd` for the register forms, `rt` for the immediate form. -/
def destination (k : Trapping) (w : Word) : Fin 32 :=
  if k.encoding.2.isSome then registerField w 11 else registerField w 16

/-- The exact result, from the values of `rs` and `rt` as signed numbers. -/
def exactResult (k : Trapping) (w rs rt : Word) : Int :=
  match k with
  | add => rs.toInt + rt.toInt
  | addi => rs.toInt + signedImmediate w
  | sub => rs.toInt - rt.toInt

end Trapping

/-- A signed number of 32 bits. -/
def InSignedRange (x : Int) : Prop := -2 ^ 31 ≤ x ∧ x ≤ 2 ^ 31 - 1

instance (x : Int) : Decidable (InSignedRange x) := inferInstanceAs (Decidable (_ ∧ _))

/-! ## The detectors -/

/-- The test of the sign bit. -/
theorem and_signBit (x : Word) : ((x &&& 0x80000000) != 0) = x.msb := by
  have hbit := Bits.and_one_shiftLeft_ne_zero_iff x (i := 31) (by decide)
  rw [BitVec.msb_eq_getLsbD_last]
  exact Bool.eq_iff_iff.mpr (bne_iff_ne.trans hbit)

theorem addOverflow_eq (x y : Word) : addOverflow x y (x + y) = x.saddOverflow y :=
  (and_signBit _).trans (CInt.msb_add_test x y)

theorem subOverflow_eq (x y : Word) : subOverflow x y (x - y) = x.ssubOverflow y :=
  (and_signBit _).trans (CInt.msb_sub_test x y)

theorem saddOverflow_iff (x y : Word) :
    x.saddOverflow y = true ↔ ¬ InSignedRange (x.toInt + y.toInt) := by
  simp only [BitVec.saddOverflow, InSignedRange, Bool.or_eq_true, decide_eq_true_eq]
  omega

theorem ssubOverflow_iff (x y : Word) :
    x.ssubOverflow y = true ↔ ¬ InSignedRange (x.toInt - y.toInt) := by
  simp only [BitVec.ssubOverflow, InSignedRange, Bool.or_eq_true, decide_eq_true_eq]
  omega

/-! ## The program -/

namespace Trapping

/-- The method of the instruction. -/
def op : Trapping → Op
  | add => .opAdd
  | addi => .opAddi
  | sub => .opSub

/-- **The decoder** finds the method. -/
theorem Encodes.decode {k : Trapping} {w : Word} (h : k.Encodes w) : decode w = k.op := by
  obtain ⟨hmajor, hfunction⟩ := h
  rw [← toNat_function] at hmajor
  rw [← toNat_subfunction] at hfunction
  cases k
  case addi =>
    simp only [encoding] at hmajor
    simp only [CppStation.decode, hmajor]
    rfl
  all_goals
    simp only [encoding, Option.mem_some_iff, forall_eq'] at hmajor hfunction
    simp only [CppStation.decode, hmajor, decodeSpecial, hfunction]
    rfl

/-- The register that the program writes. -/
def index (k : Trapping) (w : Word) : RegisterIndex :=
  if k.encoding.2.isSome then d w else t w

theorem slot_index (k : Trapping) (w : Word) : (k.index w).slot = k.destination w :=
  slot_destination k.encoding.2.isSome w

/-- The wrapped result. -/
def value (k : Trapping) (w rs rt : Word) : Word :=
  match k with
  | add => rs + rt
  | addi => rs + immSe w
  | sub => rs - rt

/-- The detector of the method. -/
def overflows (k : Trapping) (w rs rt : Word) : Bool :=
  match k with
  | add => addOverflow rs rt (rs + rt)
  | addi => addOverflow rs (immSe w) (rs + immSe w)
  | sub => subOverflow rs rt (rs - rt)

/-- **The detectors are exact.** -/
theorem overflows_iff (k : Trapping) (w rs rt : Word) :
    k.overflows w rs rt = true ↔ ¬ InSignedRange (k.exactResult w rs rt) := by
  cases k with
  | add =>
    rw [overflows, addOverflow_eq]
    exact saddOverflow_iff rs rt
  | addi =>
    rw [overflows, addOverflow_eq, exactResult, ← toInt_immSe]
    exact saddOverflow_iff rs (immSe w)
  | sub =>
    rw [overflows, subOverflow_eq]
    exact ssubOverflow_iff rs rt

/-- Where they do not fire, the wrapped result is the exact one. -/
theorem toInt_value {k : Trapping} {w rs rt : Word} (h : k.overflows w rs rt = false) :
    (k.value w rs rt).toInt = k.exactResult w rs rt := by
  cases k with
  | add =>
    rw [overflows, addOverflow_eq] at h
    exact BitVec.toInt_add_of_not_saddOverflow (Bool.eq_false_iff.mp h)
  | addi =>
    rw [overflows, addOverflow_eq] at h
    rw [value, exactResult, ← toInt_immSe]
    exact BitVec.toInt_add_of_not_saddOverflow (Bool.eq_false_iff.mp h)
  | sub =>
    rw [overflows, subOverflow_eq] at h
    exact BitVec.toInt_sub_of_not_ssubOverflow (Bool.eq_false_iff.mp h)

section

variable {k : Trapping} {w : Word} {file : Fin 32 → Word} (merged : Fin 32 → Word) (c : Control)
  (b : Bus)

/-- Without an overflow the result is written. -/
theorem effect_quiet
    (h : k.overflows w (file (registerField w 21)) (file (registerField w 16)) = false) :
    effect k.op w file merged c b = .ok {
      write := some (k.index w,
        k.value w (file (registerField w 21)) (file (registerField w 16))) } := by
  have hs : (s w).slot = registerField w 21 := slot_field w 21
  have ht : (t w).slot = registerField w 16 := slot_field w 16
  rw [← hs, ← ht] at h ⊢
  cases k
  all_goals
    simp only [overflows] at h
    simp only [op, effect, h]
    rfl

/-- With one the exception is raised, whether or not the wrapped result is written. -/
theorem effect_trap
    (h : k.overflows w (file (registerField w 21)) (file (registerField w 16)) = true) :
    ∃ write, effect k.op w file merged c b = .ok { raise := some .overflow, write := write } := by
  have hs : (s w).slot = registerField w 21 := slot_field w 21
  have ht : (t w).slot = registerField w 16 := slot_field w 16
  rw [← hs, ← ht] at h
  cases k
  all_goals
    simp only [overflows] at h
    simp only [op, effect, h, if_true]
    exact ⟨_, rfl⟩

end

end Trapping

namespace Machine

/-- The exact result on the values in the registers. -/
def exactResult (m : Machine) (k : Trapping) (w : Word) : Int :=
  k.exactResult w (m.mCpu.mRegs (registerField w 21)) (m.mCpu.mRegs (registerField w 16))

/-- What `decodeAndExecute` is to do for the instruction `k`. -/
structure TrapsExactly (m : Machine) (k : Trapping) (w : Word) (m' : Machine) : Prop where
  raises_iff : m'.mCpu.raised = m.mCpu.raised ++ [.overflow] ↔ ¬ InSignedRange (m.exactResult k w)
  trap : ¬ InSignedRange (m.exactResult k w) →
    m'.mCpu.toControl = m.mCpu.toControl.exception .overflow
  quiet : InSignedRange (m.exactResult k w) →
    ∃ v : Word, v.toInt = m.exactResult k w ∧
      m' = { m with mCpu := { m.mCpu with mOutRegs := m.written (k.destination w) v } }

variable {k : Trapping} {w : Word}

theorem decodeAndExecute_quiet (h : k.Encodes w) (fuel : Nat) {m : Machine}
    (hrange : InSignedRange (m.exactResult k w)) :
    ∃ v : Word, v.toInt = m.exactResult k w ∧
      m.decodeAndExecute fuel w = .ok { m with
        mCpu := { m.mCpu with mOutRegs := m.written (k.destination w) v } } := by
  have hover : k.overflows w (m.mCpu.mRegs (registerField w 21))
      (m.mCpu.mRegs (registerField w 16)) = false := by
    rw [← Bool.not_eq_true, k.overflows_iff]
    exact not_not.mpr hrange
  refine ⟨_, Trapping.toInt_value hover, ?_⟩
  rw [decodeAndExecute, h.decode, execOp_eq_effect, Trapping.effect_quiet _ _ _ hover, ok_bind,
    ← update_clear_written, ← k.slot_index]
  rfl

theorem decodeAndExecute_trap (h : k.Encodes w) (fuel : Nat) {m : Machine}
    (hrange : ¬ InSignedRange (m.exactResult k w)) :
    ∃ m', m.decodeAndExecute fuel w = .ok m' ∧
      m'.mCpu.toControl = m.mCpu.toControl.exception .overflow := by
  obtain ⟨write, heffect⟩ := Trapping.effect_trap m.mCpu.mOutRegs m.mCpu.toControl m.mBus
    ((k.overflows_iff w _ _).mpr hrange)
  rw [decodeAndExecute, h.decode, execOp_eq_effect, heffect, ok_bind]
  exact ⟨_, rfl, rfl⟩

/-- **ADD, ADDI and SUB trap exactly** when the exact result is no signed number of 32 bits, and
otherwise put it in their destination and change nothing else. -/
theorem decodeAndExecute_trapping (h : k.Encodes w) (fuel : Nat) (m : Machine) :
    ∃ m', m.decodeAndExecute fuel w = .ok m' ∧ m.TrapsExactly k w m' := by
  by_cases hrange : InSignedRange (m.exactResult k w)
  · obtain ⟨v, hv, hm'⟩ := decodeAndExecute_quiet h fuel hrange
    refine ⟨_, hm', ⟨⟨fun hraised => ?_, fun hout => absurd hrange hout⟩,
      fun hout => absurd hrange hout, fun _ => ⟨v, hv, rfl⟩⟩⟩
    -- nothing is appended to the exceptions raised
    exact absurd (List.append_cancel_left (hraised.symm.trans (List.append_nil _).symm))
      (List.cons_ne_nil _ _)
  · obtain ⟨m', hm', hcontrol⟩ := decodeAndExecute_trap h fuel hrange
    have hraised : m'.mCpu.raised = m.mCpu.raised ++ [.overflow] :=
      (congrArg Control.raised hcontrol).trans (Control.exception_raised _ _)
    exact ⟨m', hm', ⟨fun _ => hrange, fun _ => hraised⟩, fun _ => hcontrol,
      fun hin => absurd hin hrange⟩

/-- `sub r1, r0, r1` does not negate the least number. -/
theorem decodeAndExecute_sub_least :
    ∃ m : Machine, m.mCpu.mRegs 1 = 0x80000000 ∧
      ∃ m', m.decodeAndExecute 0 0x00010822 = .ok m' ∧ m'.mCpu.raised = [.overflow] := by
  have hencodes : Trapping.sub.Encodes 0x00010822 := ⟨by decide, by decide⟩
  let m : Machine := { reset (.ofWords []) with
    mCpu := { Cpu.new with mRegs := Function.update Cpu.new.mRegs 1 0x80000000 } }
  obtain ⟨m', hm', htraps⟩ := decodeAndExecute_trapping hencodes 0 m
  exact ⟨m, rfl, m', hm', htraps.raises_iff.mpr (by decide)⟩

end Machine

end CppStation
