import CppStation.Cpu.Boot
import CppStation.Cpu.Computational
import CppStation.Cpu.DelaySlot
import CppStation.Cpu.LoadDelay
import CppStation.Lib.Triple
import Mathlib.Data.List.GetD

/-!
# Straight-line code and loops

Rules for code made of computational instructions, stores, loads whose delay
slot is empty, and conditional branches.  `Plain.exec` and `Statement.exec` say
what the code does to the registers and the bus; a block runs as the sequence of
its meanings, and a block with a branch back to its start runs as a loop.
-/

namespace CppStation

open Instruction Fallible Map Triple

/-! ## The meaning of code -/

/-- What straight-line code works on. -/
structure Work where
  regs : Fin 32 → Word
  bus : Bus

/-- A write to a register. -/
def Work.set (work : Work) (index : Fin 32) (v : Word) : Work :=
  { work with regs := writeFile work.regs index v }

/-- The address of a load or store. -/
def address (w : Word) (regs : Fin 32 → Word) : Word := regs (s w).slot + immSe w

/-- The request of a store that raises no exception. -/
def storeRequest (w : Word) (regs : Fin 32 → Word) : Option StoreReq :=
  let addr := address w regs
  let v := regs (t w).slot
  match decode w with
  | .opSw => if addr % 4 = 0 then some (.word addr v) else none
  | .opSh => if addr % 2 = 0 then some (.half addr (v.setWidth 16)) else none
  | .opSb => some (.byte addr (v.setWidth 8))
  | _ => none

/-- The value of a load that raises no exception. -/
def loaded (w : Word) (work : Work) : Option Word :=
  let addr := address w work.regs
  match decode w with
  | .opLw => (work.bus.load32 addr).toOption
  | .opLb => (work.bus.load8 addr).toOption.map (·.signExtend 32)
  | .opLbu => (work.bus.load8 addr).toOption.map (·.setWidth 32)
  | .opLh => (work.bus.load16 addr).toOption.map (·.signExtend 32)
  | .opLhu => if addr % 2 = 0 then (work.bus.load16 addr).toOption.map (·.setWidth 32) else none
  | _ => none

inductive Plain
  | compute (k : Computational) (w : Word)
  | store (w : Word)

namespace Plain

def word : Plain → Word
  | compute _ w => w
  | store w => w

def Encodes : Plain → Prop
  | compute k w => k.Encodes w
  | store _ => True

def exec (fuel : Nat) (work : Work) : Plain → Option Work
  | compute k w => some (work.set (k.destination w)
      (k.result w (work.regs (registerField w 21)) (work.regs (registerField w 16))))
  | store w => do
    let request ← storeRequest w work.regs
    let bus ← (request.perform fuel work.bus).toOption
    return { work with bus }

end Plain

/-- A load stands for itself and the NOP in its delay slot. -/
inductive Statement
  | plain (p : Plain)
  | load (w : Word)

namespace Statement

def words : Statement → List Word
  | plain p => [p.word]
  | load w => [w, 0]

def Encodes : Statement → Prop
  | plain p => p.Encodes
  | load _ => True

def exec (fuel : Nat) (work : Work) : Statement → Option Work
  | plain p => p.exec fuel work
  | load w => (loaded w work).map (work.set (t w).slot)

def execs (fuel : Nat) (work : Work) (ps : List Statement) : Option Work :=
  ps.foldlM (exec fuel) work

end Statement

/-- The part of the control state that such code leaves alone. -/
def Control.held (c : Control) : Word × Word × Word × Word × Word × List Exception :=
  (c.mHi, c.mLo, c.mSr, c.mCause, c.mEpc, c.raised)

namespace Machine

/-- The machine is about to execute the word at `pc`, and after it the word at `next`; no load is
pending. -/
structure At (c : Control) (pc next : Word) (work : Work) (m : Machine) : Prop where
  pc : m.mCpu.mPc = pc
  next : m.mCpu.mNextPc = next
  regs : m.mCpu.mRegs = work.regs
  outRegs : m.mCpu.mOutRegs = work.regs
  zero : work.regs 0 = 0
  noLoad : m.mCpu.mLoadRegIdx.slot = 0
  bus : m.mBus = work.bus
  held : m.mCpu.toControl.held = c.held

section

variable {c : Control} {pc next : Word} {work work' : Work} {m : Machine} {fuel : Nat}

theorem At.committed (h : At c pc next work m) : m.mCpu.committed = work.regs := by
  rw [Cpu.committed, h.noLoad, Function.update_idem, h.outRegs, ← h.zero, Function.update_eq_self]

/-- What an instruction without exception, jump or load leaves behind. -/
theorem At.after (h : At c pc next work m) {e : Effect} {bus : Bus} {next' : Word}
    (hraise : e.raise = none) (hload : e.load = none) (hhiLo : e.hiLo = none) (hsr : e.sr = none)
    (hjump : e.jump.getD (next + 4) = next') (hzero : work'.regs 0 = 0)
    (hregs : e.file work.regs = work'.regs) (hbus : bus = work'.bus) :
    At c next next' work' (m.after e bus) := by
  obtain ⟨hpc, -, hnext, -⟩ := pcs_after m bus hraise
  refine ⟨hpc.trans h.next, ?_, ?_, ?_, hzero, ?_, hbus, ?_⟩
  · rw [hnext, h.next, hjump]
  · rw [← hregs, ← h.committed]
    rfl
  · rw [← hregs, ← h.committed]
    rfl
  · simp only [Machine.after, Effect.pending, hload]
    rfl
  · rw [← h.held]
    obtain ⟨raise, write, load, jump, hiLo, sr, store⟩ := e
    subst hraise hhiLo hsr
    cases jump <;> rfl

/-! ## One instruction -/

/-- The step executes the instruction that is fetched. -/
theorem At.executes (h : At c pc next work m) (haligned : pc % 4 = 0) {w : Word}
    (hfetch : work.bus.load32 pc = .ok w) {e : Effect} {bus : Bus} (he : m.effectOf w = .ok e)
    (hbus : e.bus fuel work.bus = .ok bus) : m.runNextInstruction fuel = .ok (m.after e bus) := by
  have hal : ¬ m.mCpu.mPc % 4 ≠ 0 := not_not.mpr (h.pc.symm ▸ haligned)
  rw [runNextInstruction_eq, if_neg hal, h.pc, h.bus, hfetch, ok_bind, execute_eq, he, ok_bind,
    h.bus, hbus, linkIp_ok, ok_bind]

theorem writeFile_zero {f : Fin 32 → Word} (hf : f 0 = 0) (index : Fin 32) (v : Word) :
    writeFile f index v 0 = 0 := by
  unfold writeFile
  split
  · exact hf
  · next hne => exact (Function.update_of_ne (Ne.symm hne) _ _).trans hf

/-- The cache is not isolated in the step. -/
theorem At.reachesBus (h : At c pc next work m) (hiso : c.cacheIsolated = false) :
    m.mCpu.toControl.advance.cacheIsolated = false := by
  have hsr : m.mCpu.mSr = c.mSr := congrArg (fun held => held.2.2.1) h.held
  rw [← hiso, Control.cacheIsolated, Control.cacheIsolated, ← hsr]
  rfl

theorem holds_compute (haligned : pc % 4 = 0) {k : Computational} {w : Word} (hk : k.Encodes w)
    (hfetch : work.bus.load32 pc = .ok w)
    (hexec : (Plain.compute k w).exec fuel work = some work') :
    Holds (runNextInstruction fuel) (At c pc next work) 1 (At c next (next + 4) work') := by
  refine Holds.single fun m h => ?_
  cases hexec
  have he := (effectOf_eq (m := m) hk.decode).trans (k.effect_eq w _ _ _ _)
  rw [h.regs] at he
  refine ⟨_, h.executes haligned hfetch he rfl,
    h.after rfl rfl rfl rfl rfl (writeFile_zero h.zero _ _) ?_ rfl⟩
  rw [← k.slot_index]
  exact update_clear h.zero _ _

theorem At.effectOf_store (h : At c pc next work m) (hiso : c.cacheIsolated = false) {w : Word}
    {request : StoreReq} (hrequest : storeRequest w work.regs = some request) :
    m.effectOf w = .ok { store := some request } := by
  have hopen := h.reachesBus hiso
  simp only [storeRequest] at hrequest
  split at hrequest
  · next hop =>
    split at hrequest
    · next hal =>
      cases hrequest
      rw [effectOf_eq hop, h.regs]
      simp only [effect, hopen]
      exact if_pos hal
    · cases hrequest
  · next hop =>
    split at hrequest
    · next hal =>
      cases hrequest
      rw [effectOf_eq hop, h.regs]
      simp only [effect, hopen]
      exact if_pos hal
    · cases hrequest
  · next hop =>
    cases hrequest
    rw [effectOf_eq hop, h.regs]
    simp only [effect, hopen]
    rfl
  · cases hrequest

theorem holds_store (hiso : c.cacheIsolated = false) (haligned : pc % 4 = 0) {w : Word}
    (hfetch : work.bus.load32 pc = .ok w) (hexec : (Plain.store w).exec fuel work = some work') :
    Holds (runNextInstruction fuel) (At c pc next work) 1 (At c next (next + 4) work') := by
  refine Holds.single fun m h => ?_
  obtain ⟨request, hrequest, hperform⟩ := Option.bind_eq_some_iff.mp hexec
  obtain ⟨bus, hbus, hwork⟩ := Option.bind_eq_some_iff.mp hperform
  cases hwork
  exact ⟨_, h.executes haligned hfetch (h.effectOf_store hiso hrequest) (toOption_eq_some.mp hbus),
    h.after rfl rfl rfl rfl rfl h.zero rfl rfl⟩

/-- **A plain instruction** does what it means. -/
theorem holds_plain (hiso : c.cacheIsolated = false) (haligned : pc % 4 = 0) {p : Plain}
    (hp : p.Encodes) (hfetch : work.bus.load32 pc = .ok p.word)
    (hexec : p.exec fuel work = some work') :
    Holds (runNextInstruction fuel) (At c pc next work) 1 (At c next (next + 4) work') := by
  cases p with
  | compute k w => exact holds_compute haligned hp hfetch hexec
  | store w => exact holds_store hiso haligned hfetch hexec

/-- BEQ, BNE, BLEZ, BGTZ, and BLTZ and BGEZ without the link. -/
def Branches (w : Word) : Prop :=
  decode w = .opBeq ∨ decode w = .opBne ∨ decode w = .opBlez ∨ decode w = .opBgtz ∨
    decode w = .opBxx ∧ bxxLinks w = false

/-- The branch `w` is taken in these registers. -/
def taken (w : Word) (regs : Fin 32 → Word) : Bool :=
  branchHolds w (regs (s w).slot) (regs (t w).slot)

theorem effectOf_branch {w : Word} (hw : Branches w) :
    m.effectOf w = .ok { jump := branchIf w m.mCpu.toControl.advance (taken w m.mCpu.mRegs) } := by
  unfold taken branchHolds
  rcases hw with hop | hop | hop | hop | ⟨hop, hlink⟩
  case inr.inr.inr.inr =>
    rw [effectOf_eq hop, hop]
    simp only [effect, hlink, bxxTaken_eq]
    rfl
  all_goals
    rw [effectOf_eq hop, hop]
    rfl

/-- **A branch** selects what comes after its delay slot. -/
theorem holds_branch (haligned : pc % 4 = 0) {w : Word} (hw : Branches w)
    (hfetch : work.bus.load32 pc = .ok w) :
    Holds (runNextInstruction fuel) (At c pc next work) 1
      (At c next (if taken w work.regs then next + 4 * immSe w else next + 4) work) := by
  refine Holds.single fun m h => ?_
  have he := effectOf_branch (m := m) hw
  rw [branchIf_eq, h.regs, show m.mCpu.toControl.advance.mPc = next from h.next] at he
  refine ⟨_, h.executes haligned hfetch he rfl, h.after rfl rfl rfl rfl ?_ h.zero rfl rfl⟩
  cases taken w work.regs <;> rfl

/-! ## Loads -/

/-- Between a load and its delay slot. -/
def Pending (c : Control) (pc next : Word) (work : Work) (load : RegisterIndex × Word)
    (m₁ : Machine) : Prop :=
  ∃ m, At c pc next work m ∧ m₁ = m.after { load := some load } work.bus

/-- The delay slot commits the load. -/
theorem Pending.noop {load : RegisterIndex × Word} (h : Pending c pc next work load m)
    (haligned : next % 4 = 0) (hfetch : work.bus.load32 next = .ok 0) :
    ∃ m', m.runNextInstruction fuel = .ok m' ∧
      At c (next + 4) (next + 4 + 4) (work.set load.1.slot load.2) m' := by
  obtain ⟨m, hm, rfl⟩ := h
  let m₁ := m.after { load := some load } work.bus
  have hzero : writeFile work.regs load.1.slot load.2 0 = 0 := writeFile_zero hm.zero _ _
  have hcommitted : m₁.mCpu.committed = writeFile work.regs load.1.slot load.2 := by
    rw [← update_clear hm.zero, ← hm.committed]
    rfl
  have hpc : m₁.mCpu.mPc = next := (pcs_after m _ rfl).1.trans hm.next
  have hnext : m₁.mCpu.mNextPc = next + 4 :=
    (pcs_after m _ rfl).2.2.1.trans (congrArg (· + 4) hm.next)
  obtain ⟨v, heffect⟩ : ∃ v, m₁.effectOf 0 = .ok { write := some (⟨0⟩, v) } := ⟨_, rfl⟩
  have hfile : Effect.file { write := some (⟨0⟩, v) } m₁.mCpu.committed =
      writeFile work.regs load.1.slot load.2 := by
    rw [hcommitted]
    exact (update_clear hzero _ v).trans (if_pos rfl)
  refine ⟨m₁.after { write := some (⟨0⟩, v) } work.bus, ?_, ?_⟩
  · rw [runNextInstruction_eq, if_neg (not_not.mpr (hpc.symm ▸ haligned)), hpc]
    change (work.bus.load32 next >>= _) = _
    rw [hfetch, ok_bind, execute_eq, heffect]
    rfl
  · obtain ⟨hpc', -, hnext', -⟩ := pcs_after m₁ (e := { write := some (⟨0⟩, v) }) work.bus rfl
    refine ⟨hpc'.trans hnext, ?_, hfile, hfile, hzero, rfl, rfl, hm.held⟩
    rw [hnext', hnext]
    rfl

/-- **A load** with an empty delay slot. -/
theorem holds_delayed {w : Word} {load : RegisterIndex × Word} (haligned : pc % 4 = 0)
    (haligned' : next % 4 = 0) (hfetch : work.bus.load32 pc = .ok w)
    (hslot : work.bus.load32 next = .ok 0)
    (heffect : ∀ m, At c pc next work m → m.effectOf w = .ok { load := some load }) :
    Holds (runNextInstruction fuel) (At c pc next work) 2
      (At c (next + 4) (next + 4 + 4) (work.set load.1.slot load.2)) := by
  have hload : Holds (runNextInstruction fuel) (At c pc next work) 1
      (Pending c pc next work load) :=
    Holds.single fun m hm =>
      ⟨_, hm.executes haligned hfetch (heffect m hm) rfl, m, hm, rfl⟩
  exact hload.seq (Holds.single fun m hm => hm.noop haligned' hslot)

theorem At.effectOf_load (h : At c pc next work m) (hiso : c.cacheIsolated = false) {w v : Word}
    (hload : loaded w work = some v) : m.effectOf w = .ok { load := some (t w, v) } := by
  have hopen := h.reachesBus hiso
  simp only [loaded] at hload
  split at hload
  · next hop =>
    have hbus := toOption_eq_some.mp hload
    rw [effectOf_eq hop, h.regs, h.bus]
    simp only [effect, hopen]
    change (work.bus.load32 (address w work.regs) >>= _) = _
    rw [hbus]
    rfl
  · next hop =>
    obtain ⟨x, hx, rfl⟩ := Option.map_eq_some_iff.mp hload
    rw [effectOf_eq hop, h.regs, h.bus]
    change (work.bus.load8 (address w work.regs) >>= _) = _
    rw [toOption_eq_some.mp hx]
    rfl
  · next hop =>
    obtain ⟨x, hx, rfl⟩ := Option.map_eq_some_iff.mp hload
    rw [effectOf_eq hop, h.regs, h.bus]
    change (work.bus.load8 (address w work.regs) >>= _) = _
    rw [toOption_eq_some.mp hx]
    rfl
  · next hop =>
    obtain ⟨x, hx, rfl⟩ := Option.map_eq_some_iff.mp hload
    rw [effectOf_eq hop, h.regs, h.bus]
    change (work.bus.load16 (address w work.regs) >>= _) = _
    rw [toOption_eq_some.mp hx]
    rfl
  · next hop =>
    split at hload
    · next hal =>
      obtain ⟨x, hx, rfl⟩ := Option.map_eq_some_iff.mp hload
      rw [effectOf_eq hop, h.regs, h.bus]
      refine (if_pos hal).trans ?_
      change (work.bus.load16 (address w work.regs) >>= _) = _
      rw [toOption_eq_some.mp hx]
      rfl
    · cases hload
  · cases hload

theorem holds_load (hiso : c.cacheIsolated = false) (haligned : pc % 4 = 0)
    (haligned' : next % 4 = 0) {w v : Word} (hfetch : work.bus.load32 pc = .ok w)
    (hslot : work.bus.load32 next = .ok 0) (hload : loaded w work = some v) :
    Holds (runNextInstruction fuel) (At c pc next work) 2
      (At c (next + 4) (next + 4 + 4) (work.set (t w).slot v)) :=
  holds_delayed haligned haligned' hfetch hslot fun _ h => h.effectOf_load hiso hload

end

/-! ## Blocks -/

/-- Every bus with this BIOS has the words `ws` from `pc` on. -/
def Code (bios : Bios) : Word → List Word → Prop
  | _, [] => True
  | pc, w :: ws => (∀ b : Bus, b.mBios = bios → b.load32 pc = .ok w) ∧ Code bios (pc + 4) ws

/-- The address `n` words after `pc`. -/
def wordsOn (pc : Word) (n : Nat) : Word := pc + BitVec.ofNat 32 (4 * n)

theorem wordsOn_succ (pc : Word) (n : Nat) : wordsOn (pc + 4) n = wordsOn pc (n + 1) := by
  unfold wordsOn
  bv_omega

theorem wordsOn_add (pc : Word) (n k : Nat) : wordsOn (wordsOn pc n) k = wordsOn pc (n + k) := by
  unfold wordsOn
  bv_omega

theorem wordsOn_aligned {pc : Word} (h : pc % 4 = 0) (n : Nat) : wordsOn pc n % 4 = 0 := by
  have hpc : pc.toNat % 4 = 0 := congrArg BitVec.toNat h
  apply BitVec.eq_of_toNat_eq
  rw [wordsOn, BitVec.toNat_umod, BitVec.toNat_add, BitVec.toNat_ofNat]
  change (pc.toNat + 4 * n % 2 ^ 32) % 2 ^ 32 % 4 = 0
  omega

theorem Code.append {bios : Bios} {ws ws' : List Word} {pc : Word}
    (h : Code bios pc (ws ++ ws')) :
    Code bios pc ws ∧ Code bios (wordsOn pc ws.length) ws' := by
  induction ws generalizing pc with
  | nil =>
    refine ⟨trivial, ?_⟩
    rw [List.length_nil, wordsOn, Nat.mul_zero, BitVec.add_zero]
    exact h
  | cons w ws ih =>
    obtain ⟨hws, hws'⟩ := ih h.2
    refine ⟨⟨h.1, hws⟩, ?_⟩
    rw [List.length_cons, ← wordsOn_succ]
    exact hws'

theorem exec_mBios {fuel : Nat} {work work' : Work} {p : Plain}
    (h : p.exec fuel work = some work') : work'.bus.mBios = work.bus.mBios := by
  cases p with
  | compute k w =>
    cases h
    rfl
  | store w =>
    obtain ⟨request, -, hperform⟩ := Option.bind_eq_some_iff.mp h
    obtain ⟨bus, hbus, hwork⟩ := Option.bind_eq_some_iff.mp hperform
    cases hwork
    have haccess := (request.perform_eq fuel work.bus).symm.trans (toOption_eq_some.mp hbus)
    exact (Bus.moves_access haccess).bios

theorem Statement.exec_mBios {fuel : Nat} {work work' : Work} {p : Statement}
    (h : p.exec fuel work = some work') : work'.bus.mBios = work.bus.mBios := by
  cases p with
  | plain p => exact Machine.exec_mBios h
  | load w =>
    obtain ⟨v, -, rfl⟩ := Option.map_eq_some_iff.mp h
    rfl

theorem execs_mBios {fuel : Nat} {ps : List Statement} {work work' : Work}
    (h : Statement.execs fuel work ps = some work') : work'.bus.mBios = work.bus.mBios := by
  induction ps generalizing work with
  | nil =>
    cases h
    rfl
  | cons p ps ih =>
    obtain ⟨work1, hp, hps⟩ := Option.bind_eq_some_iff.mp h
    exact (ih hps).trans (Statement.exec_mBios hp)

section

variable {c : Control} {bios : Bios} {fuel : Nat} {pc : Word} {work work' : Work}

/-- **A statement** takes a step for each of its words. -/
theorem holds_statement (hiso : c.cacheIsolated = false) (haligned : pc % 4 = 0) {p : Statement}
    (hp : p.Encodes) (hcode : Code bios pc p.words) (hbios : work.bus.mBios = bios)
    (hexec : p.exec fuel work = some work') :
    Holds (runNextInstruction fuel) (At c pc (pc + 4) work) p.words.length
      (At c (wordsOn pc p.words.length) (wordsOn pc p.words.length + 4) work') := by
  cases p with
  | plain p => exact holds_plain hiso haligned hp (hcode.1 work.bus hbios) hexec
  | load w =>
    obtain ⟨v, hload, rfl⟩ := Option.map_eq_some_iff.mp hexec
    have hslot : wordsOn pc 2 = pc + 4 + 4 := (wordsOn_add pc 1 1).symm
    change Holds _ _ 2 (At c (wordsOn pc 2) (wordsOn pc 2 + 4) _)
    rw [hslot]
    exact holds_load hiso haligned (wordsOn_aligned haligned 1) (hcode.1 work.bus hbios)
      (hcode.2.1 work.bus hbios) hload

/-- **A block** runs as the sequence of its statements. -/
theorem holds_block (hiso : c.cacheIsolated = false) {ps : List Statement} (haligned : pc % 4 = 0)
    (hps : ∀ p ∈ ps, p.Encodes) (hcode : Code bios pc (ps.flatMap Statement.words))
    (hbios : work.bus.mBios = bios) (hexec : Statement.execs fuel work ps = some work') :
    Holds (runNextInstruction fuel) (At c pc (pc + 4) work) (ps.flatMap Statement.words).length
      (At c (wordsOn pc (ps.flatMap Statement.words).length)
        (wordsOn pc (ps.flatMap Statement.words).length + 4) work') := by
  induction ps generalizing pc work with
  | nil =>
    cases hexec
    rw [List.flatMap_nil, List.length_nil, wordsOn, Nat.mul_zero, BitVec.add_zero]
    exact Holds.done
  | cons p ps ih =>
    obtain ⟨work1, hp, hrest⟩ := Option.bind_eq_some_iff.mp hexec
    rw [List.flatMap_cons] at hcode
    obtain ⟨hfirst, hcode⟩ := hcode.append
    have hone := holds_statement hiso haligned (hps p List.mem_cons_self) hfirst hbios hp
    have hblock := ih (wordsOn_aligned haligned p.words.length)
      (fun q hq => hps q (List.mem_cons_of_mem p hq)) hcode
      ((Statement.exec_mBios hp).trans hbios) hrest
    rw [List.flatMap_cons, List.length_append, ← wordsOn_add]
    exact hone.seq hblock

end

/-! ## Loops -/

/-- A loop with its test at the end: `slot` is in the delay slot of `branch`. -/
structure Loop where
  body : List Statement
  branch : Word
  slot : Plain

namespace Loop

def bodyWords (l : Loop) : List Word := l.body.flatMap Statement.words

def words (l : Loop) : List Word := l.bodyWords ++ [l.branch, l.slot.word]

def length (l : Loop) : Nat := l.bodyWords.length + 2

/-- One pass ends in `work'`, and there is another one if `more`. -/
def Passes (l : Loop) (fuel : Nat) (work : Work) (more : Bool) (work' : Work) : Prop :=
  ∃ mid, Statement.execs fuel work l.body = some mid ∧ taken l.branch mid.regs = more ∧
    l.slot.exec fuel mid = some work'

/-- The loop is in the BIOS, and its branch goes back to its start. -/
structure Placed (l : Loop) (bios : Bios) (pc : Word) : Prop where
  aligned : pc % 4 = 0
  body : ∀ p ∈ l.body, p.Encodes
  branch : Branches l.branch
  slot : l.slot.Encodes
  code : Code bios pc l.words
  back : wordsOn pc (l.bodyWords.length + 1) + 4 * immSe l.branch = pc

end Loop

section

variable {c : Control} {bios : Bios} {fuel : Nat} {pc : Word} {l : Loop}

/-- **Pass lemma.** -/
theorem holds_pass (hiso : c.cacheIsolated = false) (hl : l.Placed bios pc) {work work' : Work}
    {more : Bool} (hbios : work.bus.mBios = bios) (hpass : l.Passes fuel work more work') :
    Holds (runNextInstruction fuel) (At c pc (pc + 4) work) l.length
      (if more then At c pc (pc + 4) work'
        else At c (wordsOn pc l.length) (wordsOn pc l.length + 4) work') := by
  obtain ⟨mid, hbody, htaken, hslot⟩ := hpass
  obtain ⟨hcode, htail⟩ := hl.code.append
  have hmid : mid.bus.mBios = bios := (execs_mBios hbody).trans hbios
  have hnext : wordsOn pc l.bodyWords.length + 4 = wordsOn pc (l.bodyWords.length + 1) :=
    wordsOn_add pc l.bodyWords.length 1
  have hexit : wordsOn pc l.bodyWords.length + 4 + 4 = wordsOn pc l.length := by
    rw [hnext]
    exact wordsOn_add pc (l.bodyWords.length + 1) 1
  let here := wordsOn pc l.bodyWords.length
  let target := if taken l.branch mid.regs then here + 4 + 4 * immSe l.branch else here + 4 + 4
  have hblock : Holds (runNextInstruction fuel) (At c pc (pc + 4) work) l.bodyWords.length
      (At c here (here + 4) mid) :=
    holds_block hiso hl.aligned hl.body hcode hbios hbody
  have hbranch : Holds (runNextInstruction fuel) (At c here (here + 4) mid) 1
      (At c (here + 4) target mid) :=
    holds_branch (wordsOn_aligned hl.aligned l.bodyWords.length) hl.branch (htail.1 mid.bus hmid)
  have hlast : Holds (runNextInstruction fuel) (At c (here + 4) target mid) 1
      (At c target (target + 4) work') :=
    holds_plain hiso (hnext ▸ wordsOn_aligned hl.aligned (l.bodyWords.length + 1)) hl.slot
      (htail.2.1 mid.bus hmid) hslot
  have hall := (hblock.seq hbranch).seq hlast
  simp only [here, target] at hall
  rw [htaken, hexit, hnext, hl.back] at hall
  cases more <;> exact hall

/-- **Loop rule.**  `I k` holds before a pass when `k` passes are left; after all of them the
machine is behind the loop, having executed each instruction of it once in every pass. -/
theorem holds_loop (hiso : c.cacheIsolated = false) (hl : l.Placed bios pc) {I : Nat → Work → Prop}
    (hbios : ∀ k work, I k work → work.bus.mBios = bios)
    (hpass : ∀ k work, I (k + 1) work →
      ∃ work', l.Passes fuel work (decide (0 < k)) work' ∧ I k work')
    {k : Nat} (hk : 0 < k) :
    Holds (runNextInstruction fuel) (fun m => ∃ work, I k work ∧ At c pc (pc + 4) work m)
      (k * l.length)
      (fun m => ∃ work, I 0 work ∧
        At c (wordsOn pc l.length) (wordsOn pc l.length + 4) work m) := by
  refine Holds.loop (I := fun k m => ∃ work, I k work ∧ At c pc (pc + 4) work m) ?_ ?_ hk
  · intro k hpos
    refine Holds.ex fun work m ⟨hI, hm⟩ => ?_
    obtain ⟨work', hwork, hI'⟩ := hpass k work hI
    rw [decide_eq_true hpos] at hwork
    obtain ⟨m', hsteps, hm'⟩ := holds_pass hiso hl (hbios _ _ hI) hwork m hm
    exact ⟨m', hsteps, work', hI', hm'⟩
  · refine Holds.ex fun work m ⟨hI, hm⟩ => ?_
    obtain ⟨work', hwork, hI'⟩ := hpass 0 work hI
    obtain ⟨m', hsteps, hm'⟩ := holds_pass hiso hl (hbios _ _ hI) hwork m hm
    exact ⟨m', hsteps, work', hI', hm'⟩

end

/-! ## From the reset state -/

theorem run_eq_steps (fuel n : Nat) (m : Machine) :
    m.run fuel n = steps (runNextInstruction fuel) n m := by
  induction n generalizing m with
  | zero => rfl
  | succ n ih =>
    rw [run, steps]
    cases m.runNextInstruction fuel with
    | error e => rfl
    | ok m' => exact ih m'

theorem at_reset (bios : Bios) :
    At Cpu.new.toControl 0xbfc00000 (0xbfc00000 + 4) ⟨Cpu.new.mRegs, Bus.new bios⟩ (reset bios) :=
  ⟨rfl, rfl, rfl, rfl, rfl, rfl, rfl, rfl⟩

/-- The words of an image are code at the reset address. -/
theorem code_ofWords (ws : List Word) (hsize : 4 * ws.length ≤ biosSize) :
    Code (.ofWords ws) 0xbfc00000 ws := by
  have htail : ∀ k ≤ ws.length, Code (.ofWords ws) (wordsOn 0xbfc00000 k) (ws.drop k) := by
    intro k hk
    induction hlen : ws.length - k generalizing k with
    | zero =>
      rw [List.drop_eq_nil_of_le (by omega)]
      trivial
    | succ n ih =>
      have hlt : k < ws.length := by omega
      rw [List.drop_eq_getElem_cons hlt]
      refine ⟨fun b hb => ?_, ?_⟩
      · rw [wordsOn, load32_ofWords hb (by omega), List.getD_eq_getElem ws 0 hlt]
      · rw [show wordsOn 0xbfc00000 k + 4 = wordsOn 0xbfc00000 (k + 1) from
          wordsOn_add 0xbfc00000 k 1]
        exact ih (k + 1) hlt (by omega)
  exact htail 0 (Nat.zero_le _)

/-- `addiu r8, r8, -1; bne r8, r0, -2; sll r0, r0, 0` -/
def countdown : Loop where
  body := [.plain (.compute .addiu 0x2508ffff)]
  branch := 0x1500fffe
  slot := .compute .sll 0

theorem countdown_placed : countdown.Placed (.ofWords countdown.words) 0xbfc00000 where
  aligned := by decide
  body p hp := by
    obtain rfl := List.mem_singleton.mp hp
    exact ⟨by decide, by decide⟩
  branch := .inr (.inl (by decide))
  slot := ⟨by decide, by decide⟩
  code := code_ofWords countdown.words (by decide)
  back := by decide

/-- `r8` counts the passes. -/
def Counts (k : Nat) (work : Work) : Prop :=
  work.regs 0 = 0 ∧ work.regs 8 = BitVec.ofNat 32 k ∧ k < 2 ^ 32 ∧
    work.bus.mBios = .ofWords countdown.words

theorem countdown_pass (fuel k : Nat) (work : Work) (h : Counts (k + 1) work) :
    ∃ work', countdown.Passes fuel work (decide (0 < k)) work' ∧ Counts k work' := by
  obtain ⟨hzero, hcount, hlt, hbios⟩ := h
  have hresult : Computational.addiu.result 0x2508ffff (work.regs 8) (work.regs 8) =
      BitVec.ofNat 32 k := by
    refine (addImmediate_eq (work.regs 8) 0x2508ffff).symm.trans ?_
    rw [hcount, show immSe 0x2508ffff = -1 by decide]
    bv_omega
  have hfile : ∀ i, writeFile work.regs 8 (BitVec.ofNat 32 k) i =
      if i = 8 then BitVec.ofNat 32 k else work.regs i := fun i =>
    Function.update_apply _ _ _ _
  let counted : Work := ⟨writeFile work.regs 8 (BitVec.ofNat 32 k), work.bus⟩
  refine ⟨counted, ⟨counted, ?_, ?_, rfl⟩, ?_, ?_, by omega, hbios⟩
  · exact congrArg (fun v => some (Work.mk (writeFile work.regs 8 v) work.bus)) hresult
  · have htest : (BitVec.ofNat 32 k ≠ 0) ↔ 0 < k := by
      rw [ne_eq, ← BitVec.toNat_inj, BitVec.toNat_ofNat]
      change ¬ k % 2 ^ 32 = 0 ↔ _
      omega
    change decide (writeFile work.regs 8 (BitVec.ofNat 32 k) 8 ≠
      writeFile work.regs 8 (BitVec.ofNat 32 k) 0) = _
    rw [hfile, hfile, if_pos rfl, if_neg (by decide), hzero]
    exact decide_eq_decide.mpr htest
  · exact (hfile 0).trans ((if_neg (by decide)).trans hzero)
  · exact (hfile 8).trans (if_pos rfl)

/-- Too many steps to execute: the loop from the reset state, where `r8` is `0xdeadc0de`. -/
theorem holds_loop_countdown :
    ∃ m : Machine, (reset (.ofWords countdown.words)).run 0 (0xdeadc0de * 3) = .ok m ∧
      m.mCpu.mPc = 0xbfc0000c ∧ m.mCpu.mRegs 8 = 0 := by
  obtain ⟨m, hrun, work, ⟨-, hcount, -⟩, hm⟩ := holds_loop (c := Cpu.new.toControl)
    (by decide) countdown_placed (I := Counts) (fun _ _ h => h.2.2.2) (countdown_pass 0)
    (k := 0xdeadc0de) (by decide) (reset (.ofWords countdown.words))
    ⟨_, ⟨rfl, rfl, by decide, rfl⟩, at_reset _⟩
  refine ⟨m, (run_eq_steps _ _ _).trans hrun, hm.pc, ?_⟩
  rw [hm.regs, hcount]
  rfl

end Machine

end CppStation
