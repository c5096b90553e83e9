import CppStation.Bus

/-!
# Which accesses stay inside the RAM and BIOS arrays

`map::contains` only tests the first byte of an access.  An access that is
aligned to its width stays inside; so do the accesses of the DMA loops, which
mask their addresses.
-/

namespace CppStation

open Fallible Map

/-- An index outside the RAM or BIOS array. -/
def Fault.OutsideMemory (f : Fault) : Prop :=
  ∃ index, f = .outOfBounds .ramData index ∨ f = .outOfBounds .biosBuffer index

/-- The computation uses no index outside the RAM and BIOS arrays. -/
abbrev InsideMemory {α : Type} (x : Result α) : Prop := Avoids Fault.OutsideMemory x

/-- Kinds of fault that are neither a panic nor an index outside a buffer of the GPU. -/
structure Fault.Elsewhere (bad : Fault → Prop) : Prop where
  panic : ∀ format args, ¬ bad (.panic format args)
  panicIp : ∀ format args, ¬ bad (.panicIp format args)
  commandBuffer : ∀ index, ¬ bad (.outOfBounds .commandBuffer index)
  vertexBuf : ∀ index, ¬ bad (.outOfBounds .vertexBuf index)

theorem elsewhere_outsideMemory : Fault.Elsewhere Fault.OutsideMemory where
  panic := by rintro _ _ ⟨_, h | h⟩ <;> cases h
  panicIp := by rintro _ _ ⟨_, h | h⟩ <;> cases h
  commandBuffer := by rintro _ ⟨_, h | h⟩ <;> cases h
  vertexBuf := by rintro _ ⟨_, h | h⟩ <;> cases h

theorem insideMemory_panic {α : Type} (format : String) (args : List Nat) :
    InsideMemory (panic format args : Result α) :=
  avoids_error (elsewhere_outsideMemory.panic format args)

theorem insideMemory_outOfFuel {α : Type} : InsideMemory (.error .outOfFuel : Result α) := by
  refine avoids_error ?_
  rintro ⟨index, h | h⟩ <;> cases h

theorem avoids_of_eq_ok {bad : Fault → Prop} {α : Type} {x : Result α} {a : α} (h : x = .ok a) :
    Avoids bad x := by
  rw [h]
  exact avoids_ok a

theorem insideMemory_of_eq_ok {α : Type} {x : Result α} {a : α} (h : x = .ok a) :
    InsideMemory x := avoids_of_eq_ok h

section

variable {bad : Fault → Prop} (hbad : Fault.Elsewhere bad)
include hbad

theorem avoids_panic {α : Type} (format : String) (args : List Nat) :
    Avoids bad (panic format args : Result α) := avoids_error (hbad.panic format args)

theorem avoids_panicIp {α : Type} (format : String) (args : List Nat) :
    Avoids bad (panicIp format args : Result α) := avoids_error (hbad.panicIp format args)

theorem avoids_linkIp {α : Type} {x : Result α} (hx : Avoids bad x) (mIp : Word) :
    Avoids bad (linkIp mIp x) := by
  cases x with
  | ok a => exact avoids_ok a
  | error fault =>
    refine avoids_error ?_
    cases fault with
    | panicIp format args => exact hbad.panic format _
    | panic | outOfBounds | outOfFuel => exact hx _ rfl

/-! ## The GPU fails in its own buffers only -/

namespace Renderer

theorem avoids_pushVertex (r : Renderer) (v : Vertex) : Avoids bad (r.pushVertex v) :=
  avoids_ite (fun _ => avoids_ok _) fun _ => avoids_error (hbad.vertexBuf _)

theorem avoids_pushTriangle (r : Renderer) (v1 v2 v3 : Vertex) :
    Avoids bad (r.pushTriangle v1 v2 v3) :=
  (avoids_pushVertex hbad _ _).bind fun _ _ =>
    (avoids_pushVertex hbad _ _).bind fun _ _ => avoids_pushVertex hbad _ _

theorem avoids_pushQuad (r : Renderer) (v1 v2 v3 v4 : Vertex) :
    Avoids bad (r.pushQuad v1 v2 v3 v4) :=
  (avoids_pushTriangle hbad _ _ _ _).bind fun _ _ => avoids_pushTriangle hbad _ _ _ _

end Renderer

namespace Gpu

theorem avoids_gp0DrawMode (g : Gpu) : Avoids bad g.gp0DrawMode := by
  simp only [gp0DrawMode]
  split
  case h_4 => exact (avoids_panic hbad _ _).map
  all_goals exact avoids_ok _

theorem avoids_call (g : Gpu) (method : Gp0Method) : Avoids bad (g.call method) := by
  cases method
  case gp0QuadMonoOpaque => exact (Renderer.avoids_pushQuad hbad _ _ _ _ _).map
  case gp0QuadTextureBlendOpaque => exact (Renderer.avoids_pushQuad hbad _ _ _ _ _).map
  case gp0TriangleShadedOpaque => exact (Renderer.avoids_pushTriangle hbad _ _ _ _).map
  case gp0QuadShadedOpaque => exact (Renderer.avoids_pushQuad hbad _ _ _ _ _).map
  case gp0DrawMode => exact avoids_gp0DrawMode hbad g
  all_goals exact avoids_ok _

theorem avoids_command (val : Word) : Avoids bad (command val) := by
  simp only [command]
  split
  case h_15 => exact avoids_panic hbad _ _
  all_goals exact avoids_ok _

theorem avoids_pushWord (b : CommandBuffer) (word : Word) : Avoids bad (b.pushWord word) := by
  unfold CommandBuffer.pushWord
  split
  · exact avoids_ok _
  · exact avoids_error (hbad.commandBuffer _)

theorem avoids_gp0 (g : Gpu) (val : Word) : Avoids bad (g.gp0 val) := by
  refine Avoids.bind ?_ fun g' _ => ?_
  · exact avoids_ite (fun _ => (avoids_command hbad val).map) fun _ => avoids_ok _
  · unfold acceptWord
    cases g'.mGp0Mode with
    | command =>
      refine (avoids_pushWord hbad _ _).bind fun _ _ => ?_
      exact avoids_ite (fun _ => avoids_call hbad _ _) fun _ => avoids_ok _
    | imageLoad => exact avoids_ite (fun _ => avoids_ok _) fun _ => avoids_ok _

theorem avoids_gp1 (g : Gpu) (val : Word) : Avoids bad (g.gp1 val) := by
  simp only [gp1]
  split
  case h_9 => exact avoids_ite (fun _ => avoids_panic hbad _ _) fun _ => avoids_ok _
  case h_10 => exact avoids_panic hbad _ _
  all_goals exact avoids_ok _

end Gpu

end

/-! ## The DMA loops -/

/-- An address masked as the DMA does is a word inside RAM. -/
theorem dmaMask_inRange (x : Word) : (x &&& 0x1ffffc).toNat + 4 ≤ ramSize := by
  have h : (x &&& 0x1ffffc).toNat ≤ 0x1ffffc := Bits.toNat_and_le x 0x1ffffc
  simp only [ramSize]
  omega

namespace Bus

section

variable {bad : Fault → Prop} (hbad : Fault.Elsewhere bad)
include hbad

theorem avoids_packetLoop (ram : Ram) (remsz : Nat) (addr : Word) (gpu : Gpu) :
    Avoids bad (packetLoop ram remsz addr gpu) := by
  induction remsz generalizing addr gpu with
  | zero => exact avoids_ok _
  | succ remsz ih =>
    refine Avoids.bind ?_ fun _ _ => Avoids.bind ?_ fun _ _ => ih _ _
    · exact avoids_of_eq_ok (load32_of_inRange ram (dmaMask_inRange _))
    · exact Gpu.avoids_gp0 hbad _ _

theorem avoids_blockWord (port : Port) (dir : Direction) (remsz : Nat) (addr : Word)
    (b : Bus) : Avoids bad (blockWord port dir remsz addr b) := by
  have haddr := dmaMask_inRange addr
  cases dir with
  | fromRam =>
    refine Avoids.bind (avoids_of_eq_ok (load32_of_inRange b.mRam haddr)) fun _ _ => ?_
    cases port
    case gpu => exact (Gpu.avoids_gp0 hbad _ _).map
    all_goals exact avoids_panic hbad _ _
  | toRam =>
    cases port
    case otc => exact Avoids.map (avoids_of_eq_ok (store32_of_inRange b.mRam _ haddr))
    all_goals exact avoids_panic hbad _ _

theorem avoids_blockLoop (port : Port) (dir : Direction) (increment : Word) (remsz : Nat)
    (addr : Word) (b : Bus) : Avoids bad (blockLoop port dir increment remsz addr b) := by
  induction remsz generalizing addr b with
  | zero => exact avoids_ok _
  | succ remsz ih => exact (avoids_blockWord hbad _ _ _ _ _).bind fun _ _ => ih _ _

theorem avoids_doDmaBlock (b : Bus) (port : Port) : Avoids bad (b.doDmaBlock port) :=
  avoids_ite (fun _ => avoids_panic hbad _ _) fun _ => (avoids_blockLoop hbad _ _ _ _ _ _).map

theorem avoids_fromIndex (index : Word) : Avoids bad (Port.fromIndex index) := by
  unfold Port.fromIndex
  split
  case h_8 => exact avoids_panic hbad _ _
  all_goals exact avoids_ok _

theorem avoids_setControl (c : Channel) (val : Word) : Avoids bad (c.setControl val) := by
  simp only [Channel.setControl]
  split
  case h_4 => exact (avoids_panic hbad _ _).map
  all_goals exact avoids_ok _

theorem avoids_setChannelReg (c : Channel) (offset val : Word) :
    Avoids bad (setChannelReg c offset val) := by
  simp only [setChannelReg]
  split
  case h_3 => exact avoids_setControl hbad _ _
  case h_4 => exact avoids_panicIp hbad _ _
  all_goals exact avoids_ok _

/-- The register write fails as the transfer that it starts. -/
theorem avoids_setDmaReg {fuel : Nat} {b : Bus} {offset val : Word}
    (hdma : ∀ port channel, Port.fromIndex ((offset &&& 0x70) >>> 4) = .ok port →
      setChannelReg (b.mDma.channel port) offset val = .ok channel → channel.active = true →
      Avoids bad (doDma fuel { b with mDma := b.mDma.putChannel port channel } port)) :
    Avoids bad (b.setDmaReg fuel offset val) := by
  refine avoids_ite (fun _ => ?_) fun _ => ?_
  · refine (avoids_fromIndex hbad _).bind fun port hport => ?_
    refine (avoids_setChannelReg hbad _ _ _).bind fun channel hchannel => ?_
    exact avoids_ite (hdma port channel hport hchannel) fun _ => avoids_ok _
  · split
    case h_3 => exact avoids_panicIp hbad _ _
    all_goals exact avoids_ok _

end

theorem insideMemory_linkedListLoop (ram : Ram) (fuel : Nat) {addr : Word}
    (h : addr.toNat + 4 ≤ ramSize) (gpu : Gpu) :
    InsideMemory (linkedListLoop ram fuel addr gpu) := by
  induction fuel generalizing addr gpu with
  | zero => exact insideMemory_outOfFuel
  | succ fuel ih =>
    refine Avoids.bind ?_ fun _ _ => Avoids.bind ?_ fun _ _ => ?_
    · exact insideMemory_of_eq_ok (load32_of_inRange ram h)
    · exact avoids_packetLoop elsewhere_outsideMemory _ _ _ _
    · exact avoids_ite (fun _ => avoids_ok _) fun _ => ih (dmaMask_inRange _) _

theorem insideMemory_doDma (fuel : Nat) (b : Bus) (port : Port) :
    InsideMemory (b.doDma fuel port) := by
  unfold doDma
  split
  · refine avoids_ite (fun _ => insideMemory_panic _ _) fun _ => ?_
    refine avoids_ite (fun _ => insideMemory_panic _ _) fun _ => ?_
    exact (insideMemory_linkedListLoop _ _ (dmaMask_inRange _) _).map
  · exact avoids_doDmaBlock elsewhere_outsideMemory b port

theorem insideMemory_setDmaReg (fuel : Nat) (b : Bus) (offset val : Word) :
    InsideMemory (b.setDmaReg fuel offset val) :=
  avoids_setDmaReg elsewhere_outsideMemory fun _ _ _ _ _ => insideMemory_doDma fuel _ _

theorem insideMemory_dmaReg (b : Bus) (offset : Word) : InsideMemory (b.dmaReg offset) := by
  refine avoids_ite (fun _ => ?_) fun _ => ?_
  · refine (avoids_fromIndex elsewhere_outsideMemory _).bind fun _ _ => ?_
    split
    case h_4 => exact insideMemory_panic _ _
    all_goals exact avoids_ok _
  · split
    case h_3 => exact insideMemory_panic _ _
    all_goals exact avoids_ok _

/-! ## The bus -/

theorem insideMemory_load32 (b : Bus) {addr : Word} (hram : ¬ CrossesRam addr 4)
    (hbios : ¬ CrossesBios addr 4) : InsideMemory (b.load32 addr) := by
  refine avoids_ite (fun hsel => ?_) fun _ => avoids_ite (fun hsel => ?_) fun _ => ?_
  · have hlt := (ram_selected_iff _).mp hsel
    refine insideMemory_of_eq_ok (load32_of_inRange _ ?_)
    rw [ram_toNat_offset hsel]
    exact Nat.not_lt.mp fun hend => hram ⟨hlt, hend⟩
  · obtain ⟨hbase, hlt⟩ := (bios_selected_iff _).mp hsel
    have hend := Nat.not_lt.mp fun hend => hbios ⟨hbase, hlt, hend⟩
    refine insideMemory_of_eq_ok (bios_load32_of_inRange _ ?_)
    rw [bios_toNat_offset hsel]
    omega
  · refine avoids_ite (fun _ => avoids_ok _) fun _ => ?_
    refine avoids_ite (fun _ => insideMemory_dmaReg _ _) fun _ => ?_
    refine avoids_ite (fun _ => ?_) fun _ => ?_
    · split
      case h_3 => exact insideMemory_panic _ _
      all_goals exact avoids_ok _
    · exact avoids_ite (fun _ => avoids_ok _) fun _ => insideMemory_panic _ _

theorem insideMemory_load16 (b : Bus) {addr : Word} (hram : ¬ CrossesRam addr 2) :
    InsideMemory (b.load16 addr) := by
  refine avoids_ite (fun hsel => ?_) fun _ => ?_
  · have hlt := (ram_selected_iff _).mp hsel
    refine insideMemory_of_eq_ok (load16_of_inRange _ ?_)
    rw [ram_toNat_offset hsel]
    exact Nat.not_lt.mp fun hend => hram ⟨hlt, hend⟩
  · refine avoids_ite (fun _ => avoids_ok _) fun _ => ?_
    exact avoids_ite (fun _ => avoids_ok _) fun _ => insideMemory_panic _ _

theorem load32_crossesRam (b : Bus) {addr : Word} (h : CrossesRam addr 4) :
    b.load32 addr = .error (.outOfBounds .ramData ramSize) := by
  have hsel := (ram_selected_iff _).mpr h.1
  simp only [load32, if_pos hsel, ram_toNat_offset hsel]
  exact load32_crosses b.mRam h.1 h.2

theorem load32_crossesBios (b : Bus) {addr : Word} (h : CrossesBios addr 4) :
    b.load32 addr = .error (.outOfBounds .biosBuffer biosSize) := by
  obtain ⟨hbase, hlt, hend⟩ := h
  have hram : ¬ offsetIn (maskRegion addr) Map.mRam ≠ -1 := by
    rw [ram_selected_iff]
    simp only [ramSize]
    omega
  have hsel := (bios_selected_iff _).mpr ⟨hbase, hlt⟩
  have hoff : (maskRegion addr).toNat - 0x1fc00000 < biosSize := by omega
  simp only [load32, if_neg hram, if_pos hsel, bios_toNat_offset hsel]
  exact bios_load32_crosses b.mBios hoff (by omega)

theorem load16_crossesRam (b : Bus) {addr : Word} (h : CrossesRam addr 2) :
    b.load16 addr = .error (.outOfBounds .ramData ramSize) := by
  have hsel := (ram_selected_iff _).mpr h.1
  simp only [load16, if_pos hsel, ram_toNat_offset hsel]
  exact load16_crosses b.mRam h.1 h.2

theorem insideMemory_load8 (b : Bus) (addr : Word) : InsideMemory (b.load8 addr) := by
  refine avoids_ite (fun hram => ?_) fun _ => avoids_ite (fun hbios => ?_) fun _ => ?_
  · refine insideMemory_of_eq_ok (load8_of_inRange _ ?_)
    rw [ram_toNat_offset hram]
    exact (ram_selected_iff _).mp hram
  · have hlt := (bios_selected_iff _).mp hbios
    refine insideMemory_of_eq_ok (if_pos ?_)
    rw [bios_toNat_offset hbios]
    omega
  · exact avoids_ite (fun _ => avoids_ok _) fun _ => insideMemory_panic _ _

theorem insideMemory_store32 (fuel : Nat) (b : Bus) {addr : Word} (val : Word)
    (h : addr.toNat % 4 = 0) : InsideMemory (b.store32 fuel addr val) := by
  refine avoids_ite (fun hsel => ?_) fun _ => avoids_ite (fun _ => ?_) fun _ => ?_
  · have hlt := (ram_selected_iff _).mp hsel
    refine Avoids.map (insideMemory_of_eq_ok (store32_of_inRange _ _ ?_))
    rw [ram_toNat_offset hsel]
    exact Nat.not_lt.mp fun hend => not_crossesRam_word h ⟨hlt, hend⟩
  · split
    case h_3 => exact avoids_ok _
    all_goals exact avoids_ite (fun _ => insideMemory_panic _ _) fun _ => avoids_ok _
  · refine avoids_ite (fun _ => avoids_ok _) fun _ => avoids_ite (fun _ => avoids_ok _) fun _ => ?_
    refine avoids_ite (fun _ => avoids_ok _) fun _ => ?_
    refine avoids_ite (fun _ => insideMemory_setDmaReg _ _ _ _) fun _ => ?_
    refine avoids_ite (fun _ => ?_) fun _ => ?_
    · split
      · exact (Gpu.avoids_gp0 elsewhere_outsideMemory _ _).map
      · exact (Gpu.avoids_gp1 elsewhere_outsideMemory _ _).map
      · exact insideMemory_panic _ _
    · exact avoids_ite (fun _ => avoids_ok _) fun _ => insideMemory_panic _ _

theorem insideMemory_store16 (b : Bus) {addr : Word} (val : Half) (h : addr.toNat % 2 = 0) :
    InsideMemory (b.store16 addr val) := by
  refine avoids_ite (fun hsel => ?_) fun _ => ?_
  · have hlt := (ram_selected_iff _).mp hsel
    refine Avoids.map (insideMemory_of_eq_ok (store16_of_inRange _ _ ?_))
    rw [ram_toNat_offset hsel]
    exact Nat.not_lt.mp fun hend => not_crossesRam_half h ⟨hlt, hend⟩
  · refine avoids_ite (fun _ => avoids_ok _) fun _ => avoids_ite (fun _ => avoids_ok _) fun _ => ?_
    exact avoids_ite (fun _ => avoids_ok _) fun _ => insideMemory_panic _ _

theorem insideMemory_store8 (b : Bus) (addr : Word) (val : Byte) :
    InsideMemory (b.store8 addr val) := by
  refine avoids_ite (fun hram => ?_) fun _ => ?_
  · refine Avoids.map (insideMemory_of_eq_ok (store8_of_inRange _ _ ?_))
    rw [ram_toNat_offset hram]
    exact (ram_selected_iff _).mp hram
  · exact avoids_ite (fun _ => avoids_ok _) fun _ => insideMemory_panic _ _

end Bus

end CppStation
