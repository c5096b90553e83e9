import CppStation.Cpu.Returns
import CppStation.Gpu.Visible

/-!
# The program does not see the picture

A machine with another GPU that looks the same to its program runs in lockstep
with the first one.  Nothing that is drawn, and no setting of the drawing or of
the display area, flows back into the CPU, RAM or the DMA controller.
-/

namespace CppStation

open Fallible Instruction Map

namespace Bus

/-- The bus with another GPU. -/
def withGpu (b : Bus) (g : Gpu) : Bus := { b with mGpu := g }

section

variable (b : Bus) (g : Gpu)

/-! ## The bus -/

theorem load32_withGpu (h : g.status = b.mGpu.status) (addr : Word) :
    (b.withGpu g).load32 addr = b.load32 addr := by
  simp only [load32, withGpu, h]
  rfl

theorem writeDmaReg_withGpu (offset val : Word) :
    (b.withGpu g).writeDmaReg offset val =
      b.writeDmaReg offset val >>= fun written => .ok (written.1.withGpu g, written.2) := by
  simp only [writeDmaReg]
  split
  · cases Port.fromIndex ((offset &&& 0x70) >>> 4) with
    | error => rfl
    | ok port =>
      simp only [ok_bind, withGpu]
      cases setChannelReg (b.mDma.channel port) offset val <;> rfl
  · split <;> rfl

theorem started_withGpu (offset val : Word) :
    (b.withGpu g).started offset val =
      (b.started offset val).map fun transfer => (transfer.1.withGpu g, transfer.2) := by
  rw [started, started, writeDmaReg_withGpu]
  rcases b.writeDmaReg offset val with _ | ⟨b1, _ | port⟩ <;> rfl

theorem starts_withGpu (a : Access) :
    (b.withGpu g).starts a =
      (b.starts a).map fun transfer => (transfer.1.withGpu g, transfer.2) := by
  cases a with
  | store32 addr val =>
    simp only [starts]
    split
    · exact b.started_withGpu g _ val
    · rfl
  | store16 | store8 | load32 | load16 | load8 => rfl

theorem sent_withGpu (a : Access) : (b.withGpu g).sent a = b.sent a := by
  cases a with
  | store32 addr val =>
    simp only [sent, started_withGpu]
    split
    · rcases b.started (offsetIn (maskRegion addr) Map.mDma) val with _ | ⟨b1, port⟩ <;> rfl
    · rfl
  | store16 | store8 | load32 | load16 | load8 => rfl

theorem written_withGpu (a : Access) : (b.withGpu g).written a = b.written a := by
  cases a with
  | store32 addr val =>
    simp only [written, started_withGpu]
    split
    · rcases b.started (offsetIn (maskRegion addr) Map.mDma) val with _ | ⟨b1, port⟩ <;> rfl
    · rfl
  | store16 | store8 | load32 | load16 | load8 => rfl

theorem dmaAfter_withGpu (a : Access) : (b.withGpu g).dmaAfter a = b.dmaAfter a := by
  cases a with
  | store32 addr val =>
    simp only [dmaAfter, writeDmaReg_withGpu]
    split
    · rcases b.writeDmaReg (offsetIn (maskRegion addr) Map.mDma) val with _ | ⟨b1, _ | port⟩ <;> rfl
    · rfl
  | store16 | store8 | load32 | load16 | load8 => rfl

end

variable {b b' : Bus} {g : Gpu} {a : Access}

theorem Accepts.withGpu (hparser : g.parser = b.mGpu.parser) (h : b.Accepts a) :
    (b.withGpu g).Accepts a := by
  refine ⟨h.mapped, fun b1 port hstarts => ?_, ?_⟩
  · rw [starts_withGpu] at hstarts
    obtain ⟨⟨b2, port'⟩, hb2, heq⟩ := Option.map_eq_some_iff.mp hstarts
    cases heq
    exact h.supported b2 port' hb2
  · rw [sent_withGpu]
    exact hparser ▸ h.taken

/-- **An access** to the other bus. -/
theorem access_withGpu {fuel : Nat} (h : b.mGpu.Indistinct g) (haccess : b.access fuel a = .ok b') :
    ∃ g', (∃ fuel, (b.withGpu g).access fuel a = .ok (b'.withGpu g')) ∧ b'.mGpu.Indistinct g' := by
  obtain ⟨⟨hgpu, hram, hbios⟩, hdma⟩ := leaves_access haccess
  obtain ⟨g', hrun, hg'⟩ := h.run hgpu
  have haccepts := accepts_of_access h.reachable haccess
  refine ⟨g', access_of_leaves h.reachable' (haccepts.withGpu h.parser) ⟨⟨?_, ?_, hbios⟩, ?_⟩, hg'⟩
  · rw [sent_withGpu]
    exact hrun
  · rw [written_withGpu]
    exact hram
  · rw [dmaAfter_withGpu]
    exact hdma

end Bus

namespace Machine

/-- The machine with another GPU. -/
def withGpu (m : Machine) (g : Gpu) : Machine := ⟨m.mCpu, m.mBus.withGpu g⟩

variable {m m₁ : Machine} {g : Gpu}

theorem effectOf_withGpu (h : g.status = m.mBus.mGpu.status) (instruction : Word) :
    (m.withGpu g).effectOf instruction = m.effectOf instruction := by
  have hload := m.mBus.load32_withGpu g h
  simp only [effectOf, withGpu]
  cases decode instruction
  case opLw | opLwl | opLwr | opSwl | opSwr => simp only [effect, hload]
  all_goals rfl

/-- **Step lemma.** -/
theorem next_withGpu (h : m.mBus.mGpu.Indistinct g) (hm : m.Next m₁) :
    ∃ g', (m.withGpu g).Next (m₁.withGpu g') ∧ m₁.mBus.mGpu.Indistinct g' := by
  have hstatus := h.status
  rcases next_iff.mp hm with ⟨hfault, rfl⟩ | ⟨instruction, e, hx⟩
  · exact ⟨g, next_iff.mpr (.inl ⟨hfault, rfl⟩), h⟩
  · have heffect := (m.effectOf_withGpu hstatus instruction).trans hx.effectOf
    have hfetched := (m.mBus.load32_withGpu g hstatus m.mCpu.mPc).trans hx.fetched
    have hbus : ∃ g', (∃ fuel, e.bus fuel (m.mBus.withGpu g) = .ok (m₁.mBus.withGpu g')) ∧
        m₁.mBus.mGpu.Indistinct g' := by
      obtain ⟨fuel, hbus⟩ := hx.bus
      unfold Effect.bus at hbus ⊢
      cases hstore : e.store with
      | none =>
        rw [hstore] at hbus
        rw [← Except.ok.inj hbus]
        exact ⟨g, ⟨0, rfl⟩, h⟩
      | some request =>
        rw [hstore] at hbus
        simp only [StoreReq.perform_eq] at hbus ⊢
        exact Bus.access_withGpu h hbus
    obtain ⟨g', hbus', hg'⟩ := hbus
    refine ⟨g', next_iff.mpr (.inr ⟨instruction, e, hx.aligned, hfetched, heffect, hbus', ?_⟩), hg'⟩
    rw [hx.after]
    rfl

/-- **The picture does not matter.**  With another GPU that looks the same to the program, the
machine has a run that differs in the GPU only, and the GPUs never come to look different. -/
theorem run_withGpu {n : Nat} {s : Nat → Machine} (h : Transition.IsRun Next m n s)
    (hg : m.mBus.mGpu.Indistinct g) :
    ∃ s', Transition.IsRun Next (m.withGpu g) n s' ∧
      ∀ i ≤ n, ∃ g', s' i = (s i).withGpu g' ∧ (s i).mBus.mGpu.Indistinct g' := by
  refine h.lockstep (R := fun _ m m' => ∃ g, m' = m.withGpu g ∧ m.mBus.mGpu.Indistinct g)
    ⟨g, rfl, hg⟩ ?_
  rintro i hi _ ⟨g, rfl, hg⟩
  obtain ⟨g', hnext, hg'⟩ := next_withGpu hg (h.next i hi)
  exact ⟨_, hnext, g', rfl, hg'⟩

/-- A GPU that has set a drawing offset and presented a picture. -/
theorem run_withGpu_offset :
    ∃ g : Gpu, g.mDrawingXOffset = 1 ∧ g.mRenderer.glCalls ≠ [] ∧
      ∃ s', Transition.IsRun Next ((reset drawsQuad).withGpu g) 20 s' := by
  have hrun : okAnd (Gpu.new.run [.gp0 0xe5000001]) (fun g =>
      decide (g.status = Gpu.new.status ∧ g.mGp0Mode = .command ∧ g.mGp0WordsRemaining = 0 ∧
        g.mDrawingXOffset = 1 ∧ g.mRenderer.glCalls ≠ [])) = true := by decide +kernel
  obtain ⟨g, hg, htest⟩ := exists_of_okAnd hrun
  obtain ⟨hstatus, hmode, hremaining, hoffset, hcalls⟩ := of_decide_eq_true htest
  have hparser : g.parser = Gpu.new.parser := by
    simp only [Gpu.parser, hmode, if_pos hremaining]
    rfl
  have hindistinct : Gpu.new.Indistinct g := ⟨.new, Gpu.Reachable.new.run hg, hparser, hstatus⟩
  obtain ⟨s, hs, -⟩ := exists_run_drawsQuad
  obtain ⟨s', hs', -⟩ := run_withGpu hs hindistinct
  exact ⟨g, hoffset, hcalls, s', hs'⟩

end Machine

end CppStation
