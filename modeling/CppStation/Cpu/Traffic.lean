import CppStation.Gpu.DisplayMode
import CppStation.Gpu.Rendering
import CppStation.Memory.ByteView
import CppStation.Memory.Traffic

/-!
# The machine as a producer of traffic

A step of the machine makes at most one access that is not a load.  The GPU
after a run is a new GPU that was sent the words of all these accesses in
order, and RAM is the power-on contents with their writes replayed.  What is
on the screen and in the status register follows from the words alone.
-/

namespace CppStation

open Fallible ByteMemory

/-- The store as an access to the bus. -/
def StoreReq.access : StoreReq → Access
  | .word addr val => .store32 addr val
  | .half addr val => .store16 addr val
  | .byte addr val => .store8 addr val

theorem StoreReq.perform_eq (fuel : Nat) (b : Bus) (request : StoreReq) :
    request.perform fuel b = b.access fuel request.access := by
  cases request <;> rfl

namespace Bus

/-- Traffic adds up. -/
theorem Moves.trans {b b1 b' : Bus} {ports ports' : List PortWrite} {writes writes' : List Write}
    (h : b.Moves ports writes b1) (h' : b1.Moves ports' writes' b') :
    b.Moves (ports ++ ports') (writes ++ writes') b' where
  gpu := by
    rw [Gpu.run, List.foldlM_append]
    exact bind_eq_ok.mpr ⟨b1.mGpu, h.gpu, h'.gpu⟩
  ram := by
    rw [h'.ram, h.ram, replay, replay, replay, List.foldl_append]
  bios := h'.bios.trans h.bios

end Bus

namespace Machine

/-! ## The access of a step -/

/-- The store that the next step makes. -/
def stored (m : Machine) : Option Access :=
  if m.mCpu.mPc % 4 ≠ 0 then none
  else
    match m.mBus.load32 m.mCpu.mPc >>= m.effectOf with
    | .ok e => e.store.map StoreReq.access
    | .error _ => none

/-- The words that the next step sends to the ports of the GPU. -/
def portWrites (m : Machine) : List PortWrite := m.stored.elim [] m.mBus.sent

/-- The writes to RAM that the next step makes. -/
def ramWrites (m : Machine) : List Write := m.stored.elim [] m.mBus.written

theorem stored_faulted {m : Machine} (h : m.mCpu.mPc % 4 ≠ 0) : m.stored = none := if_pos h

theorem Executed.stored {m m' : Machine} {instruction : Word} {e : Effect}
    (h : m.Executed instruction e m') : m.stored = e.store.map StoreReq.access := by
  have hfetch : (m.mBus.load32 m.mCpu.mPc >>= m.effectOf) = .ok e := by
    rw [h.fetched, ok_bind, h.effectOf]
  rw [Machine.stored, if_neg (not_not.mpr h.aligned), hfetch]

/-- **Step lemma.** -/
theorem moves_next {m m' : Machine} (h : m.Next m') :
    m.mBus.Moves m.portWrites m.ramWrites m'.mBus := by
  rcases next_iff.mp h with ⟨hfault, rfl⟩ | ⟨instruction, e, hx⟩
  · rw [portWrites, ramWrites, stored_faulted hfault]
    exact m.mBus.moves_refl
  · obtain ⟨fuel, hbus⟩ := hx.bus
    rw [portWrites, ramWrites, hx.stored]
    unfold Effect.bus at hbus
    cases hstore : e.store with
    | none =>
      rw [hstore] at hbus
      rw [← Except.ok.inj hbus]
      exact m.mBus.moves_refl
    | some request =>
      rw [hstore] at hbus
      exact Bus.moves_access ((request.perform_eq fuel m.mBus).symm.trans hbus)

/-! ## The log of a run -/

/-- The words sent before step `i` of a run. -/
def portLog (s : Nat → Machine) (i : Nat) : List PortWrite :=
  (List.range i).flatMap fun k => (s k).portWrites

/-- The writes made before step `i` of a run. -/
def writeLog (s : Nat → Machine) (i : Nat) : List Write :=
  (List.range i).flatMap fun k => (s k).ramWrites

/-- **Run lemma.** -/
theorem moves_run {m : Machine} {n : Nat} {s : Nat → Machine}
    (h : Transition.IsRun Next m n s) {i : Nat} (hi : i ≤ n) :
    m.mBus.Moves (portLog s i) (writeLog s i) (s i).mBus := by
  induction i with
  | zero =>
    rw [h.start]
    exact m.mBus.moves_refl
  | succ i ih =>
    have hstep := (ih (by omega)).trans (moves_next (h.next i hi))
    rwa [portLog, writeLog, List.range_succ, List.flatMap_append, List.flatMap_append,
      List.flatMap_singleton, List.flatMap_singleton]

section

variable {bios : Bios} {n : Nat} {s : Nat → Machine}

/-- Words to the ports: an opaque quad, a drawing offset, a draw mode and a display mode.  The
draw mode word also goes to RAM. -/
def drawsQuad : Bios := .ofWords [
  0x3c081f80,              -- lui r8, 0x1f80
  0x3c0928ff, 0xad091810,  -- lui r9, 0x28ff; sw r9, 0x1810(r8)
  0x24090001, 0xad091810, 0x3c090002, 0xad091810, 0x24090003, 0xad091810, 0x3c090004, 0xad091810,
  0x3c09e500, 0xad091810,
  0x3c09e100, 0x35290201, 0xad091810, 0xac090010,
  0x3c090800, 0x35290001, 0xad091814]

def drawsQuadPorts : List PortWrite :=
  [.gp0 0x28ff0000, .gp0 1, .gp0 0x20000, .gp0 3, .gp0 0x40000, .gp0 0xe5000000, .gp0 0xe1000201,
    .gp1 0x08000001]

theorem exists_run_drawsQuad :
    ∃ s, Transition.IsRun Next (reset drawsQuad) 20 s ∧
      portLog s 20 = drawsQuadPorts ∧ writeLog s 20 = [⟨16, [1, 2, 0, 0xe1]⟩] := by
  have hrun : okAnd ((reset drawsQuad).run 0 20) (fun _ => true) = true := by decide +kernel
  obtain ⟨m, hm, -⟩ := exists_of_okAnd hrun
  obtain ⟨s, hs, hstate⟩ := exists_isRun hm
  let ports : Nat → List PortWrite := fun k => match k with
    | 2 => [.gp0 0x28ff0000]
    | 4 => [.gp0 1]
    | 6 => [.gp0 0x20000]
    | 8 => [.gp0 3]
    | 10 => [.gp0 0x40000]
    | 12 => [.gp0 0xe5000000]
    | 15 => [.gp0 0xe1000201]
    | 19 => [.gp1 0x08000001]
    | _ => []
  have htests : ∀ k < 20, okAnd ((reset drawsQuad).run 0 k) (fun m =>
      decide (m.portWrites = ports k ∧ m.ramWrites.map (fun wr => (wr.addr, wr.bytes)) =
        if k = 16 then [(16, [1, 2, 0, 0xe1])] else [])) = true := by decide +kernel
  have htraffic : ∀ k ∈ List.range 20, (s k).portWrites = ports k ∧
      (s k).ramWrites = if k = 16 then [⟨16, [1, 2, 0, 0xe1]⟩] else [] := by
    intro k hk
    have hlt := List.mem_range.mp hk
    have htest := htests k hlt
    rw [hstate k (by omega), okAnd_ok, decide_eq_true_eq] at htest
    have hwrites := congrArg (List.map fun p => Write.mk p.1 p.2) htest.2
    rw [List.map_map] at hwrites
    refine ⟨htest.1, (List.map_id _).symm.trans (hwrites.trans ?_)⟩
    split <;> rfl
  refine ⟨s, hs, ?_, ?_⟩
  · rw [portLog, List.flatMap_congr fun k hk => (htraffic k hk).1]
    rfl
  · rw [writeLog, List.flatMap_congr fun k hk => (htraffic k hk).2]
    rfl

/-- **The GPU sees the words of the run**: all of them, once each, in the order of the steps and
of the transfers that they start, and nothing else. -/
theorem gpu_traffic (h : Transition.IsRun Next (reset bios) n s) {i : Nat} (hi : i ≤ n) :
    Gpu.new.run (portLog s i) = .ok (s i).mBus.mGpu :=
  (moves_run h hi).gpu

theorem gpu_traffic_drawsQuad :
    ∃ s, Transition.IsRun Next (reset drawsQuad) 20 s ∧
      Gpu.new.run drawsQuadPorts = .ok (s 20).mBus.mGpu := by
  obtain ⟨s, hs, hports, -⟩ := exists_run_drawsQuad
  refine ⟨s, hs, ?_⟩
  rw [← hports]
  exact gpu_traffic hs (Nat.le_refl 20)

/-- **RAM is a byte memory over the run**: every load through every alias composes the bytes that
the steps so far wrote last, and the BIOS is the image. -/
theorem ram_traffic (h : Transition.IsRun Next (reset bios) n s) {i : Nat} (hi : i ≤ n) :
    LoadsCompose (s i).mBus (fun a => (lastWritten (writeLog s i) a).getD 0xca) ∧
      (s i).mBus.mBios = bios := by
  obtain ⟨-, hram, hbios⟩ := moves_run h hi
  have hbytes : (s i).mBus.mRam.mData = fun a => (lastWritten (writeLog s i) a).getD 0xca := by
    rw [hram]
    exact funext fun a => replay_apply _ _ a
  rw [← hbytes]
  exact ⟨loadsCompose _, hbios⟩

theorem ram_traffic_drawsQuad :
    ∃ s, Transition.IsRun Next (reset drawsQuad) 20 s ∧ (s 20).mBus.mBios = drawsQuad ∧
      LoadsCompose (s 20).mBus fun a => (lastWritten [⟨16, [1, 2, 0, 0xe1]⟩] a).getD 0xca := by
  obtain ⟨s, hs, -, hwrites⟩ := exists_run_drawsQuad
  obtain ⟨hloads, hbios⟩ := ram_traffic hs (Nat.le_refl 20)
  rw [hwrites] at hloads
  exact ⟨s, hs, hbios, hloads⟩

/-- **What is drawn follows from the words of the run.** -/
theorem draws_traffic (h : Transition.IsRun Next (reset bios) n s) {i : Nat} (hi : i ≤ n) :
    ∃ sendings, (s i).mBus.mGpu.mRenderer.Draws
      (Gpu.drawings (Gpu.commands (Gpu.Parser.idle.events (portLog s i)))) sendings := by
  have hrun : Gpu.new.run (portLog s i) = .ok (s i).mBus.mGpu := (moves_run h hi).gpu
  have hhandled : (s i).mBus.mGpu.handled = _ := Gpu.parses_new.run hrun
  rw [← List.nil_append (Gpu.commands _)]
  exact hhandled ▸ (Gpu.Reachable.new.run hrun).draws

/-- The blue quad is pushed, and displayed by the drawing offset. -/
theorem draws_traffic_drawsQuad :
    let blue : Color := ⟨0, 0, 255⟩
    ∃ s sendings, Transition.IsRun Next (reset drawsQuad) 20 s ∧
      (s 20).mBus.mGpu.mRenderer.Draws
        [.push (.quad ⟨⟨1, 0⟩, blue⟩ ⟨⟨0, 2⟩, blue⟩ ⟨⟨3, 0⟩, blue⟩ ⟨⟨0, 4⟩, blue⟩), .display]
        sendings := by
  obtain ⟨s, hs, hports, -⟩ := exists_run_drawsQuad
  obtain ⟨sendings, hdraws⟩ := draws_traffic hs (Nat.le_refl 20)
  rw [hports] at hdraws
  exact ⟨s, sendings, hs, hdraws⟩

/-- **A load from GPUSTAT** gives the bits of the last writers among the words of the run. -/
theorem gpustat_traffic (h : Transition.IsRun Next (reset bios) n s) {i : Nat} (hi : i ≤ n)
    {addr : Word} (haddr : Map.maskRegion addr = 0x1f801814) :
    let es := Gpu.Parser.idle.events (portLog s i)
    ∃ v, (s i).load32 addr = .ok v ∧
      Gpu.StatusBits v ((Gpu.lastCommand 0xe1 es).getD 0) ((Gpu.lastCommand 0xe6 es).getD 0)
        ((Gpu.lastControl 3 es).getD 1) ((Gpu.lastControl 4 es).getD 0) ∧
      Gpu.ModeBits v (Gpu.lastControl 8 es) (es.any Gpu.Event.isReset) := by
  have hrun : Gpu.new.run (portLog s i) = .ok (s i).mBus.mGpu := (moves_run h hi).gpu
  have hnew : Gpu.new.ReflectsEvents [] := Gpu.reflects_new
  refine ⟨(s i).mBus.mGpu.status, ?_, (hnew.run Gpu.parses_new hrun).statusBits,
    (Gpu.showsEvents_run hrun).modeBits⟩
  simp only [load32, Bus.load32, haddr]
  rfl

/-- GPUSTAT through KSEG1. -/
theorem gpustat_traffic_drawsQuad :
    ∃ s v, Transition.IsRun Next (reset drawsQuad) 20 s ∧ (s 20).load32 0xbf801814 = .ok v ∧
      Gpu.StatusBits v 0xe1000201 0 1 0 ∧ Gpu.ModeBits v (some 0x08000001) false := by
  obtain ⟨s, hs, hports, -⟩ := exists_run_drawsQuad
  have haddr : Map.maskRegion 0xbf801814 = 0x1f801814 := by decide
  obtain ⟨v, hv, hbits, hmode⟩ := gpustat_traffic hs (Nat.le_refl 20) haddr
  rw [hports] at hbits hmode
  exact ⟨s, v, hs, hv, hbits, hmode⟩

end

end Machine

end CppStation
