import CppStation.Cpu.Block
import CppStation.Cpu.Status

/-!
# Calls and traps

Rules that complete those for blocks and loops: a call with its return, and a
trap with the return from its handler.  What is called or entered is given by a
triple of its own, so that it can contain blocks, loops and calls.
-/

namespace CppStation

open Instruction Fallible Map Triple

namespace Machine

section

variable {c : Control} {bios : Bios} {fuel n : Nat} {pc next : Word} {work work' : Work}
  {m : Machine}

/-! ## Coprocessor 0 -/

/-- The target of JAL. -/
def callTarget (w pc : Word) : Word :=
  let region := (pc + 8) &&& 0xf0000000
  region ||| (immJump w <<< 2)

/-- `w` calls the code at `target` and leaves the return address in `link`. -/
inductive Calls (w : Word) (regs : Fin 32 → Word) (pc : Word) : Fin 32 → Word → Prop
  | jal : decode w = .opJal → Calls w regs pc 31 (callTarget w pc)
  | jalr : decode w = .opJalr → Calls w regs pc (d w).slot (regs (s w).slot)

theorem add_four_four (pc : Word) : pc + 4 + 4 = pc + 8 := by bv_omega

theorem holds_link {w : Word} {link : Fin 32} {target : Word} (haligned : pc % 4 = 0)
    (hw : Calls w work.regs pc link target) (hfetch : work.bus.load32 pc = .ok w) :
    Holds (runNextInstruction fuel) (At c pc (pc + 4) work) 1
      (At c (pc + 4) target (work.set link (pc + 8))) := by
  refine Holds.single fun m h => ?_
  have hnext : m.mCpu.toControl.advance.mNextPc = pc + 8 :=
    (congrArg (· + 4) h.next).trans (add_four_four pc)
  have he : ∃ index : RegisterIndex, index.slot = link ∧
      m.effectOf w = .ok { write := some (index, pc + 8), jump := some target } := by
    cases hw with
    | jal hop =>
      refine ⟨⟨31⟩, rfl, ?_⟩
      rw [effectOf_eq hop, ← hnext]
      simp only [effect, jumpTarget, callTarget, hnext]
      rfl
    | jalr hop =>
      refine ⟨d w, rfl, ?_⟩
      rw [effectOf_eq hop, ← hnext, h.regs]
      rfl
  obtain ⟨index, rfl, he⟩ := he
  exact ⟨_, h.executes haligned hfetch he rfl, h.after rfl rfl rfl rfl rfl
    (writeFile_zero h.zero index.slot (pc + 8)) (update_clear h.zero _ _) rfl⟩

theorem holds_jr {w : Word} (haligned : pc % 4 = 0) (hw : decode w = .opJr)
    (hfetch : work.bus.load32 pc = .ok w) :
    Holds (runNextInstruction fuel) (At c pc next work) 1
      (At c next (work.regs (s w).slot) work) := by
  refine Holds.single fun m h => ?_
  have he := effectOf_eq (m := m) hw
  simp only [effect, h.regs] at he
  exact ⟨_, h.executes haligned hfetch he rfl, h.after rfl rfl rfl rfl rfl h.zero rfl rfl⟩

/-- **Call rule.**  The two delay slots and the callee are given by triples.  Whatever they do, if
the callee comes to a jump to the return address then execution continues behind the delay slot of
the call. -/
theorem holds_call {c₁ c₂ c₃ : Control} {call ret : Word} {link : Fin 32} {target back : Word}
    {entered left : Work} (haligned : pc % 4 = 0) (hback : back % 4 = 0)
    (hcall : Calls call work.regs pc link target) (hret : decode ret = .opJr)
    (hfetch : work.bus.load32 pc = .ok call) (hfetch' : left.bus.load32 back = .ok ret)
    (hslot : Holds (runNextInstruction fuel) (At c (pc + 4) target (work.set link (pc + 8))) 1
      (At c₁ target (target + 4) entered))
    (hbody : Holds (runNextInstruction fuel) (At c₁ target (target + 4) entered) n
      (At c₂ back (back + 4) left))
    (hra : left.regs (s ret).slot = pc + 8)
    (hlast : Holds (runNextInstruction fuel) (At c₂ (back + 4) (pc + 8) left) 1
      (At c₃ (pc + 8) (pc + 8 + 4) work')) :
    Holds (runNextInstruction fuel) (At c pc (pc + 4) work) (1 + 1 + n + 1 + 1)
      (At c₃ (pc + 8) (pc + 8 + 4) work') := by
  have hlink : Holds (runNextInstruction fuel) (At c pc (pc + 4) work) 1
      (At c (pc + 4) target (work.set link (pc + 8))) :=
    holds_link haligned hcall hfetch
  have hjr : Holds (runNextInstruction fuel) (At c₂ back (back + 4) left) 1
      (At c₂ (back + 4) (pc + 8) left) := by
    rw [← hra]
    exact holds_jr hback hret hfetch'
  exact (((hlink.seq hslot).seq hbody).seq hjr).seq hlast

/-! ## Traps -/

/-- RFE pops the mode, and clears the rest of SR. -/
def returned (c : Control) : Control := { c with mSr := (c.mSr &&& 0x3f) >>> 2 }

end

/-! ## Two programs -/

/-- `jal 0xbfc00010; addiu r9, r0, 16`, and at 0xbfc00010
`lw r8, 0(r9); nop; jr r31; addiu r8, r8, 1`. -/
def loadCall : List Word := [0x0ff00004, 0x24090010, 0, 0, 0x8d280000, 0, 0x03e00008, 0x25080001]

theorem set_get (work : Work) {index : Fin 32} (h : index ≠ 0) (v : Word) :
    (work.set index v).regs index = v := by
  simp only [Work.set, writeFile, if_neg h, Function.update_self]

theorem set_get_of_ne (work : Work) {index i : Fin 32} (h : i ≠ index) (v : Word) :
    (work.set index v).regs i = work.regs i := by
  simp only [Work.set, writeFile]
  split
  · rfl
  · exact Function.update_of_ne h v work.regs

/-- The routine returns the word at its argument, plus one. -/
theorem holds_call_load :
    ∃ m : Machine, (reset (.ofWords loadCall)).run 0 6 = .ok m ∧ m.mCpu.mPc = 0xbfc00008 ∧
      m.mCpu.mRegs 8 = 0xcacacacb := by
  have hcode : Code (.ofWords loadCall) 0xbfc00000 (loadCall.take 4 ++ loadCall.drop 4) :=
    code_ofWords loadCall (by decide)
  obtain ⟨hcaller, hcallee⟩ := hcode.append
  let start : Work := ⟨Cpu.new.mRegs, Bus.new (.ofWords loadCall)⟩
  have hargument : (Plain.compute .addiu 0x24090010).Encodes := ⟨by decide, by decide⟩
  have hincrement : (Plain.compute .addiu 0x25080001).Encodes := ⟨by decide, by decide⟩
  obtain ⟨entered, henter, hbus, harg, hlink⟩ : ∃ entered,
      Plain.exec 0 (start.set 31 (0xbfc00000 + 8)) (.compute .addiu 0x24090010) = some entered ∧
        entered.bus = start.bus ∧ entered.regs 9 = 16 ∧ entered.regs 31 = 0xbfc00000 + 8 :=
    ⟨_, rfl, rfl, by decide, by decide⟩
  have hbios : entered.bus.mBios = .ofWords loadCall := congrArg Bus.mBios hbus
  have haddress : address 0x8d280000 entered.regs = 16 := by
    rw [address, show (s 0x8d280000).slot = 9 by decide, harg]
    decide
  have hload : loaded 0x8d280000 entered = some 0xcacacaca := by
    have hop : decode 0x8d280000 = .opLw := by decide
    have hvalue : start.bus.load32 16 = .ok 0xcacacaca := by decide +kernel
    simp only [loaded, hop, haddress, hbus, hvalue]
    rfl
  have hbody : Holds (runNextInstruction 0)
      (At Cpu.new.toControl 0xbfc00010 (0xbfc00010 + 4) entered) 2
      (At Cpu.new.toControl 0xbfc00018 (0xbfc00018 + 4) (entered.set 8 0xcacacaca)) :=
    holds_load (by decide) (by decide) (by decide) (hcallee.1 _ hbios) (hcallee.2.1 _ hbios) hload
  have hra : (entered.set 8 0xcacacaca).regs (s 0x03e00008).slot = 0xbfc00000 + 8 :=
    (set_get_of_ne entered (by decide) _).trans hlink
  obtain ⟨work', hleave, hresult⟩ : ∃ work',
      Plain.exec 0 (entered.set 8 0xcacacaca) (.compute .addiu 0x25080001) = some work' ∧
        work'.regs 8 = 0xcacacacb := ⟨_, rfl, set_get (entered.set 8 0xcacacaca) (by decide) _⟩
  have hcall : Calls 0x0ff00004 start.regs 0xbfc00000 31 0xbfc00010 := .jal (by decide)
  have hslot : Holds (runNextInstruction 0)
      (At Cpu.new.toControl 0xbfc00004 0xbfc00010 (start.set 31 (0xbfc00000 + 8))) 1
      (At Cpu.new.toControl 0xbfc00010 (0xbfc00010 + 4) entered) :=
    holds_plain (by decide) (by decide) hargument (hcaller.2.1 start.bus rfl) henter
  have hlast : Holds (runNextInstruction 0)
      (At Cpu.new.toControl 0xbfc0001c 0xbfc00008 (entered.set 8 0xcacacaca)) 1
      (At Cpu.new.toControl 0xbfc00008 (0xbfc00008 + 4) work') :=
    holds_plain (by decide) (by decide) hincrement (hcallee.2.2.2.1 entered.bus hbios) hleave
  have hfetch : start.bus.load32 0xbfc00000 = .ok 0x0ff00004 := hcaller.1 start.bus rfl
  have hfetch' : (entered.set 8 0xcacacaca).bus.load32 0xbfc00018 = .ok 0x03e00008 :=
    hcallee.2.2.1 entered.bus hbios
  obtain ⟨m, hrun, hm⟩ := holds_call (by decide) (by decide) hcall (by decide) hfetch hfetch'
    hslot hbody hra hlast _ (at_reset _)
  refine ⟨m, (run_eq_steps _ _ _).trans hrun, hm.pc, ?_⟩
  rw [hm.regs, hresult]

end Machine

end CppStation
