import CppStation.Memory.DmaIdle
import CppStation.Memory.LinkedList

/-!
# When a DMA register write returns

Block transfers count down; the walk over a linked list has no bound.  It stops
at a header with both bit 23 and bit 0 set, such as the usual marker
`0xffffff`, and goes on for ever along a list whose headers have neither, as
long as GP0 accepts the words.
-/

namespace CppStation

open Fallible

theorem elsewhere_outOfFuel : Fault.Elsewhere (· = .outOfFuel) where
  panic := fun _ _ h => nomatch h
  panicIp := fun _ _ h => nomatch h
  commandBuffer := fun _ h => nomatch h
  vertexBuf := fun _ h => nomatch h

namespace Bus

/-! ## The walk -/

theorem avoids_gp0Words (words : List Word) (gpu : Gpu) :
    Avoids (· = .outOfFuel) (words.foldlM Gpu.gp0 gpu) :=
  avoids_foldlM (Gpu.avoids_gp0 elsewhere_outOfFuel) words gpu

/-- The walk stops by the first odd header. -/
theorem linkedListLoop_stops {ram : Ram} {n fuel : Nat} {addr : Word} (gpu : Gpu)
    (hodd : ram.oddHeader (ram.nextEntry^[n] (addr &&& 0x1ffffc)) = true) (hfuel : n < fuel) :
    Avoids (· = .outOfFuel) (linkedListLoop ram fuel (addr &&& 0x1ffffc) gpu) := by
  induction fuel generalizing n addr gpu with
  | zero => exact absurd hfuel (Nat.not_lt_zero n)
  | succ fuel ih =>
    rw [linkedListLoop_succ]
    refine (avoids_gp0Words _ gpu).bind fun g _ => ?_
    refine avoids_ite (fun _ => avoids_ok _) fun heven => ?_
    cases n with
    | zero => exact absurd hodd heven
    | succ n => exact ih g hodd (Nat.lt_of_succ_lt_succ hfuel)

/-! ## The register write -/

/-- Writing `val` starts a walk over a list for the GPU, with the bus in the state `b1`. -/
structure StartsWalk (b : Bus) (offset val : Word) (b1 : Bus) : Prop where
  port : (offset &&& 0x70) >>> 4 = 2
  written : ∃ channel, setChannelReg (b.mDma.channel .gpu) offset val = .ok channel ∧
    channel.active = true ∧ b1 = { b with mDma := b.mDma.putChannel .gpu channel }
  sync : (b1.mDma.channel .gpu).sync = .linkedList
  direction : (b1.mDma.channel .gpu).direction = .fromRam

/-- The header at position `n` of the walk. -/
def headerAt (b : Bus) (n : Nat) : Word := b.mRam.word (b.mRam.nextEntry^[n] b.listStart)

/-- The write comes to an end, with a result or with a panic. -/
def Stops (b : Bus) (offset val : Word) : Prop :=
  ∃ bound, ∀ fuel, bound ≤ fuel → b.setDmaReg fuel offset val ≠ .error .outOfFuel

/-- The write comes to an end with the fault `e`. -/
def StopsWith (b : Bus) (offset val : Word) (e : Fault) : Prop :=
  e ≠ .outOfFuel ∧ ∃ bound, ∀ fuel, bound ≤ fuel → b.setDmaReg fuel offset val = .error e

def RunsForever (b : Bus) (offset val : Word) : Prop :=
  ∀ fuel, b.setDmaReg fuel offset val = .error .outOfFuel

theorem StartsWalk.setDmaReg {b b1 : Bus} {offset val : Word} (h : b.StartsWalk offset val b1)
    (fuel : Nat) : b.setDmaReg fuel offset val =
      linkedListLoop b1.mRam fuel b1.listStart b1.mGpu >>= fun gpu =>
        .ok { b1 with
          mGpu := gpu
          mDma := b1.mDma.putChannel .gpu (b1.mDma.channel .gpu).done } := by
  obtain ⟨channel, hwritten, hactive, hb1⟩ := h.written
  have hmajor : ((offset &&& 0x70) >>> 4).toNat < 7 := by
    rw [h.port]
    decide
  have hport : Port.fromIndex ((offset &&& 0x70) >>> 4) = .ok .gpu := by
    rw [h.port]
    rfl
  have hwrite : b.setDmaReg fuel offset val = b1.doDma fuel .gpu := by
    simp only [Bus.setDmaReg, if_pos hmajor, hport, ok_bind, hwritten, hactive, if_true, hb1]
  have hdma : b1.doDma fuel .gpu = b1.doDmaLinkedList fuel .gpu := by
    rw [doDma, h.sync]
  exact (hwrite.trans hdma).trans (doDmaLinkedList_eq fuel h.direction)

theorem eq_of_fromIndex_gpu {index : Word} (h : Port.fromIndex index = .ok .gpu) : index = 2 := by
  unfold Port.fromIndex at h
  split at h
  case h_3 heq => exact BitVec.eq_of_toNat_eq heq
  all_goals cases h

/-- Every other transfer counts down or panics. -/
theorem stops_of_not_startsWalk {b : Bus} {offset val : Word}
    (h : ∀ b1, ¬ b.StartsWalk offset val b1) : b.Stops offset val := by
  refine ⟨0, fun fuel _ hfail => ?_⟩
  refine absurd rfl (avoids_setDmaReg elsewhere_outOfFuel ?_ _ hfail)
  intro port channel hport hchannel hactive
  have hself : ({ b with mDma := b.mDma.putChannel port channel } : Bus).mDma.channel port =
      channel := Dma.channel_putChannel_self _ _ _
  unfold doDma
  split
  · next hsync =>
      unfold doDmaLinkedList
      refine avoids_ite (fun _ => avoids_panic elsewhere_outOfFuel _ _) fun hdir => ?_
      refine avoids_ite (fun _ => avoids_panic elsewhere_outOfFuel _ _) fun hgpu => ?_
      obtain rfl : port = .gpu := not_not.mp hgpu
      have hfrom : channel.direction = .fromRam := by
        rw [hself] at hdir
        cases hd : channel.direction with
        | toRam => exact absurd hd hdir
        | fromRam => rfl
      exact absurd ⟨eq_of_fromIndex_gpu hport, ⟨channel, hchannel, hactive, rfl⟩, hsync,
        hself.symm ▸ hfrom⟩ (h { b with mDma := b.mDma.putChannel .gpu channel })
  · exact avoids_doDmaBlock elsewhere_outOfFuel _ _

/-- **A register write returns or panics** unless it starts a walk over a list for the GPU.  The
walk stops if it comes to a header with the bits 23 and 0 set.  Behind headers that have neither
bit, it stops at a word that GP0 refuses, with the fault of GP0; if there is no such word and no
header has either bit, it never stops. -/
theorem setDmaReg_stops (b : Bus) (offset val : Word) :
    ((∀ b1, ¬ b.StartsWalk offset val b1) → b.Stops offset val) ∧
      ∀ b1, b.StartsWalk offset val b1 →
        ((∃ n, (b1.headerAt n).getLsbD 23 = true ∧ (b1.headerAt n).getLsbD 0 = true) →
          b.Stops offset val) ∧
        (∀ n e, (∀ i < n, (b1.headerAt i).getLsbD 23 = false ∧
            (b1.headerAt i).getLsbD 0 = false) →
          (b1.packets n).foldlM Gpu.gp0 b1.mGpu = .error e → b.StopsWith offset val e) ∧
        ((∀ n, (b1.headerAt n).getLsbD 23 = false ∧ (b1.headerAt n).getLsbD 0 = false) →
          (∀ n, ∃ gpu, (b1.packets n).foldlM Gpu.gp0 b1.mGpu = .ok gpu) →
          b.RunsForever offset val) := by
  refine ⟨stops_of_not_startsWalk, fun b1 h => ⟨?_, ?_, ?_⟩⟩
  · rintro ⟨n, -, hodd⟩
    refine ⟨n + 1, fun fuel hfuel hfail => ?_⟩
    have hloop := linkedListLoop_stops b1.mGpu hodd (Nat.lt_of_succ_le hfuel)
    rw [h.setDmaReg] at hfail
    exact hloop.map _ hfail rfl
  · intro n e heven hrefused
    refine ⟨avoids_gp0Words _ _ e hrefused, n + 1, fun fuel hfuel => ?_⟩
    have hloop := linkedListLoop_refused (fun i hi => (heven i hi).2) hrefused
      (Nat.lt_of_succ_le hfuel)
    rw [h.setDmaReg, listStart, hloop]
    rfl
  · intro heven haccepted fuel
    have hloop := linkedListLoop_outOfFuel fuel (fun n _ => (heven n).2) fun n _ => haccepted n
    rw [h.setDmaReg, listStart, hloop]
    rfl

/-- A write to the control register starts the walk over the list at the start of RAM. -/
theorem exists_startsWalk_ofList (ws : List Word) :
    ∃ b1, StartsWalk { ofList ws with mDma := Dma.new } 0x28 0x01000401 b1 ∧
      b1.mRam = (ofList ws).mRam ∧ b1.listStart = 0 ∧ b1.mGpu = .new := by
  refine ⟨_, ⟨rfl, ⟨_, rfl, rfl, rfl⟩, rfl, rfl⟩, rfl, ?_, rfl⟩
  change (0 : Word) &&& 0x1ffffc = 0
  rfl

/-- A list that follows a pointer to the usual marker, and one whose first packet is no command. -/
theorem setDmaReg_stops_lists :
    Stops { ofList [8, 0, 0x00ffffff] with mDma := Dma.new } 0x28 0x01000401 ∧
      StopsWith { ofList [0x01000000, 0x99000000] with mDma := Dma.new } 0x28 0x01000401
        (.panic "Unhandled GP0 command \x7b:08x\x7d" [0x99000000]) := by
  constructor
  · obtain ⟨b1, hwalk, hram, hstart, -⟩ := exists_startsWalk_ofList [8, 0, 0x00ffffff]
    refine ((setDmaReg_stops _ _ _).2 b1 hwalk).1 ⟨1, ?_⟩
    rw [headerAt, hram, hstart]
    decide +kernel
  · obtain ⟨b1, hwalk, hram, hstart, hgpu⟩ := exists_startsWalk_ofList [0x01000000, 0x99000000]
    refine ((setDmaReg_stops _ _ _).2 b1 hwalk).2.1 0 _ (fun i hi => absurd hi (by omega)) ?_
    have hpacket : (ofList [0x01000000, 0x99000000]).mRam.packet 0 = [0x99000000] := by
      decide +kernel
    rw [packets, Chain.visited, hram, hstart, hgpu, hpacket]
    rfl

/-- Cleared RAM holds one empty entry that is its own successor: the walk along it never stops. -/
theorem not_forall_stops : ¬ ∀ (b : Bus) (offset val : Word), b.Stops offset val := by
  intro h
  have hself : (ofList []).mRam.nextEntry 0 = 0 := by decide +kernel
  have heven : (ofList []).mRam.oddHeader 0 = false := by decide +kernel
  have hempty : (ofList []).mRam.packet 0 = [] := by decide +kernel
  obtain ⟨b1, hstarts, hram, hstart, -⟩ := exists_startsWalk_ofList []
  obtain ⟨bound, hbound⟩ := h _ _ _
  refine hbound bound (Nat.le_refl bound) ?_
  have hloop : linkedListLoop b1.mRam bound (0 &&& 0x1ffffc) b1.mGpu = .error .outOfFuel :=
    linkedListLoop_outOfFuel bound (fun n _ => ?_) (fun n _ => ⟨b1.mGpu, ?_⟩)
  · rw [hstarts.setDmaReg, hstart]
    exact hloop.symm ▸ rfl
  · rw [hram]
    exact (congrArg _ (Function.iterate_fixed hself n)).trans heven
  · have hnil : Chain.visited b1.mRam.nextEntry b1.mRam.packet n 0 = [] := by
      rw [hram, Chain.visited_eq_nil_iff]
      intro i _
      rw [Function.iterate_fixed hself, hempty]
    exact congrArg (List.foldlM Gpu.gp0 b1.mGpu) hnil

end Bus

end CppStation
