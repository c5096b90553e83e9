import CppStation.Gpu.Parser
import CppStation.Lib.Register

/-!
# The status register

`status` ORs the fields of the GPU into one word, without masks.  Each field is
as narrow as its place in the word in every reachable state, and holds what the
last command of its kind wrote there.
-/

namespace CppStation

open Fallible Register

namespace Gpu

/-! ## The parts of the register -/

/-- The parts of the register before the DMA request is added. -/
def readyParts (g : Gpu) : List (Part 32) :=
  [⟨⟨0, 4⟩, g.mPageBaseX.setWidth 32⟩, ⟨⟨4, 1⟩, g.mPageBaseY.setWidth 32⟩,
   ⟨⟨5, 2⟩, g.mSemiTransparency.setWidth 32⟩, ⟨⟨7, 2⟩, g.mTextureDepth.toWord⟩,
   ⟨⟨9, 1⟩, ofBool g.mDithering⟩, ⟨⟨10, 1⟩, ofBool g.mDrawToDisplay⟩,
   ⟨⟨11, 1⟩, ofBool g.mForceSetMaskBit⟩, ⟨⟨12, 1⟩, ofBool g.mPreserveMaskedPixels⟩,
   ⟨⟨13, 1⟩, g.mField.toWord⟩, ⟨⟨15, 1⟩, ofBool g.mTextureDisable⟩,
   ⟨⟨16, 3⟩, g.mHres.mHr.setWidth 32⟩, ⟨⟨20, 1⟩, g.mVmode.toWord⟩,
   ⟨⟨21, 1⟩, g.mDisplayDepth.toWord⟩, ⟨⟨22, 1⟩, ofBool g.mInterlaced⟩,
   ⟨⟨23, 1⟩, ofBool g.mDisplayDisabled⟩, ⟨⟨24, 1⟩, ofBool g.mInterrupt⟩, ⟨⟨26, 1⟩, 1⟩,
   ⟨⟨27, 1⟩, 1⟩, ⟨⟨28, 1⟩, 1⟩, ⟨⟨29, 2⟩, g.mDmaDirection.toWord⟩, ⟨⟨31, 1⟩, 0⟩]

/-- The request of the DMA. -/
def request (g : Gpu) : Word := if g.mDmaDirection = .off then 0 else 1

def statusParts (g : Gpu) : List (Part 32) := g.readyParts ++ [⟨⟨25, 1⟩, g.request⟩]

/-- The places of the parts. -/
def statusSlots : List Slot :=
  [⟨0, 4⟩, ⟨4, 1⟩, ⟨5, 2⟩, ⟨7, 2⟩, ⟨9, 1⟩, ⟨10, 1⟩, ⟨11, 1⟩, ⟨12, 1⟩, ⟨13, 1⟩, ⟨15, 1⟩, ⟨16, 3⟩,
   ⟨20, 1⟩, ⟨21, 1⟩, ⟨22, 1⟩, ⟨23, 1⟩, ⟨24, 1⟩, ⟨26, 1⟩, ⟨27, 1⟩, ⟨28, 1⟩, ⟨29, 2⟩, ⟨31, 1⟩,
   ⟨25, 1⟩]

theorem slots_statusParts (g : Gpu) : g.statusParts.map Part.slot = statusSlots := rfl

theorem statusSlots_apart : statusSlots.Pairwise Slot.Apart := by decide

theorem request_of_bit {r : Word} {n : Nat} (h : r.getLsbD n = true) :
    (((r >>> n) &&& 1).setWidth 8).setWidth 32 = (1 : Word) := by
  apply BitVec.eq_of_getLsbD_eq
  intro j hj
  cases j with
  | zero => simp [h]
  | succ j => simp

/-- The request as `status` computes it from the bits `r` set before. -/
def dmaRequest (g : Gpu) (r : Word) : Byte :=
  match g.mDmaDirection with
  | .off => 0
  | .fifo => 1
  | .cpuToGp0 => ((r >>> 28) &&& 1).setWidth 8
  | .vRamToCpu => ((r >>> 27) &&& 1).setWidth 8

theorem dmaRequest_of_ready (g : Gpu) {r : Word} (h28 : r.getLsbD 28 = true)
    (h27 : r.getLsbD 27 = true) : (g.dmaRequest r).setWidth 32 = g.request := by
  unfold dmaRequest request
  cases g.mDmaDirection with
  | off => rfl
  | fifo => rfl
  | cpuToGp0 => exact request_of_bit h28
  | vRamToCpu => exact request_of_bit h27

theorem status_eq_dmaRequest (g : Gpu) : g.status =
    pack g.readyParts ||| ((g.dmaRequest (pack g.readyParts)).setWidth 32 <<< 25) := rfl

/-- **The register is packed** from its parts; the request is computed from the bits 28 and 27
that were set just before. -/
theorem status_eq (g : Gpu) : g.status = pack g.statusParts := by
  have hready : ∀ n, (⟨⟨n, 1⟩, 1⟩ : Part 32) ∈ g.readyParts → n < 32 →
      (pack g.readyParts).getLsbD n = true := by
    intro n hmem hn
    rw [getLsbD_pack, List.any_eq_true]
    exact ⟨_, hmem, by simp [Part.bits, hn]⟩
  have h28 := hready 28 (by simp [readyParts]) (by decide)
  have h27 := hready 27 (by simp [readyParts]) (by decide)
  have hpack : pack g.statusParts = pack g.readyParts ||| (g.request <<< 25) := by
    rw [statusParts, pack, List.foldl_append]
    rfl
  rw [status_eq_dmaRequest, g.dmaRequest_of_ready h28 h27, hpack]

/-! ## The last writers -/

/-- What a word on a port makes the GPU do: run a handler, or obey a GP1 word. -/
inductive Event
  | executed (k : Gp0Method) (cmd : List Word)
  | control (val : Word)

def Parser.write (p : Parser) : PortWrite → Parser × List Event
  | .gp0 w => ((p.gp0 w).1, (p.gp0 w).2.map fun call => .executed call.1 call.2)
  | .gp1 w => (p.gp1 w, [.control w])

/-- The events of a sequence of words. -/
def Parser.events : Parser → List PortWrite → List Event
  | _, [] => []
  | p, w :: ws => (p.write w).2 ++ (p.write w).1.events ws

/-- `GP1(0x00)`. -/
def Event.isReset : Event → Bool
  | .executed _ _ => false
  | .control val => val.toNat / 2 ^ 24 == 0

/-- The events since the last reset, newest first. -/
def sinceReset (es : List Event) : List Event := es.reverse.takeWhile fun e => !e.isReset

def Event.command? (op : Nat) : Event → Option Word
  | .executed _ cmd => cmd.head?.filter fun w => w.toNat / 2 ^ 24 == op
  | .control _ => none

def Event.control? (op : Nat) : Event → Option Word
  | .executed _ _ => none
  | .control val => if val.toNat / 2 ^ 24 = op then some val else none

/-- The first word of the last command with opcode `op` executed since the last reset. -/
def lastCommand (op : Nat) (es : List Event) : Option Word :=
  (sinceReset es).findSome? (Event.command? op)

/-- The last GP1 word with opcode `op` since the last reset. -/
def lastControl (op : Nat) (es : List Event) : Option Word :=
  (sinceReset es).findSome? (Event.control? op)

theorem sinceReset_concat (es : List Event) (e : Event) :
    sinceReset (es ++ [e]) = if e.isReset then [] else e :: sinceReset es := by
  rw [sinceReset, List.reverse_append, List.reverse_singleton, List.singleton_append,
    List.takeWhile_cons]
  cases e.isReset <;> rfl

theorem findSome?_sinceReset_concat (f : Event → Option Word) (es : List Event) (e : Event) :
    (sinceReset (es ++ [e])).findSome? f =
      if e.isReset then none else (f e).or ((sinceReset es).findSome? f) := by
  rw [sinceReset_concat]
  cases e.isReset with
  | true => rfl
  | false =>
    rw [if_neg Bool.false_ne_true, if_neg Bool.false_ne_true, List.findSome?_cons]
    cases f e <;> rfl

theorem lastCommand_concat (op : Nat) (es : List Event) (e : Event) :
    lastCommand op (es ++ [e]) =
      if e.isReset then none else (e.command? op).or (lastCommand op es) :=
  findSome?_sinceReset_concat _ es e

theorem lastControl_concat (op : Nat) (es : List Event) (e : Event) :
    lastControl op (es ++ [e]) =
      if e.isReset then none else (e.control? op).or (lastControl op es) :=
  findSome?_sinceReset_concat _ es e

/-! ## The fields and their writers -/

/-- The fields that `status` reads hold what the draw mode word `e1`, the mask word `e6`, the
display enable word `d3` and the DMA direction word `d4` wrote; the others are in range. -/
structure Reflects (g : Gpu) (e1 e6 d3 d4 : Word) : Prop where
  pageBaseX : g.mPageBaseX.setWidth 32 = e1 &&& 0xf
  pageBaseY : g.mPageBaseY.setWidth 32 = (e1 >>> 4) &&& 1
  semiTransparency : g.mSemiTransparency.setWidth 32 = (e1 >>> 5) &&& 3
  textureDepth : g.mTextureDepth.toWord = (e1 >>> 7) &&& 3
  dithering : ofBool g.mDithering = (e1 >>> 9) &&& 1
  drawToDisplay : ofBool g.mDrawToDisplay = (e1 >>> 10) &&& 1
  textureDisable : ofBool g.mTextureDisable = (e1 >>> 11) &&& 1
  forceSetMaskBit : ofBool g.mForceSetMaskBit = e6 &&& 1
  preserveMaskedPixels : ofBool g.mPreserveMaskedPixels = (e6 >>> 1) &&& 1
  displayDisabled : ofBool g.mDisplayDisabled = d3 &&& 1
  dmaDirection : g.mDmaDirection.toWord = d4 &&& 3
  field : g.mField = .top
  interrupt : g.mInterrupt = false
  hres : Narrow (g.mHres.mHr.setWidth 32 : Word) 3

theorem narrow_and (x mask : Word) {k : Nat} (h : mask.toNat < 2 ^ k) :
    Narrow (x &&& mask) k :=
  narrow_of_lt (Nat.lt_of_le_of_lt (Bits.toNat_and_le x mask) h)

theorem narrow_ofBool (b : Bool) : Narrow (ofBool b) 1 := by
  cases b <;> exact narrow_of_lt (by decide)

theorem Reflects.narrow {g : Gpu} {e1 e6 d3 d4 : Word} (h : g.Reflects e1 e6 d3 d4) :
    ∀ p ∈ g.statusParts, Narrow p.value p.slot.width := by
  have hvmode : Narrow g.mVmode.toWord 1 := by
    cases g.mVmode <;> exact narrow_of_lt (by decide)
  have hdepth : Narrow g.mDisplayDepth.toWord 1 := by
    cases g.mDisplayDepth <;> exact narrow_of_lt (by decide)
  have hrequest : Narrow g.request 1 := by
    unfold request
    split <;> exact narrow_of_lt (by decide)
  have hfield : Narrow g.mField.toWord 1 := by
    rw [h.field]
    exact narrow_of_lt (by decide)
  have hone : Narrow (1 : Word) 1 := narrow_of_lt (by decide)
  have hzero : Narrow (0 : Word) 1 := narrow_of_lt (by decide)
  simp only [statusParts, readyParts, List.cons_append, List.nil_append, List.forall_mem_cons,
    List.not_mem_nil, false_imp_iff, implies_true, and_true]
  rw [h.pageBaseX, h.pageBaseY, h.semiTransparency, h.textureDepth, h.dmaDirection]
  exact ⟨narrow_and _ _ (by decide), narrow_and _ _ (by decide), narrow_and _ _ (by decide),
    narrow_and _ _ (by decide), narrow_ofBool _, narrow_ofBool _, narrow_ofBool _,
    narrow_ofBool _, hfield, narrow_ofBool _, h.hres, hvmode, hdepth, narrow_ofBool _,
    narrow_ofBool _, narrow_ofBool _, hone, hone, hone, narrow_and _ _ (by decide), hzero,
    hrequest⟩

/-! ## The bits -/

/-- The bits of the status word `s` after the writes `e1`, `e6`, `d3` and `d4`. -/
structure StatusBits (s e1 e6 d3 d4 : Word) : Prop where
  drawMode : ∀ i < 11, s.getLsbD i = e1.getLsbD i
  textureDisable : s.getLsbD 15 = e1.getLsbD 11
  maskBits : ∀ i < 2, s.getLsbD (11 + i) = e6.getLsbD i
  displayDisabled : s.getLsbD 23 = d3.getLsbD 0
  dmaDirection : ∀ i < 2, s.getLsbD (29 + i) = d4.getLsbD i
  dmaRequest : s.getLsbD 25 = true ↔ s.extractLsb' 29 2 ≠ 0
  set : ∀ i ∈ [13, 26, 27, 28], s.getLsbD i = true
  clear : ∀ i ∈ [14, 19, 24, 31], s.getLsbD i = false

theorem Reflects.read {g : Gpu} {e1 e6 d3 d4 : Word} (h : g.Reflects e1 e6 d3 d4)
    {offset width : Nat} {v : Word} (hmem : (⟨⟨offset, width⟩, v⟩ : Part 32) ∈ g.statusParts)
    {j : Nat} (hj : j < width) (hw : offset + j < 32) :
    g.status.getLsbD (offset + j) = v.getLsbD j := by
  rw [status_eq]
  exact getLsbD_pack_of_slot h.narrow (g.slots_statusParts ▸ statusSlots_apart) hmem hj hw

theorem Reflects.read_gap {g : Gpu} {e1 e6 d3 d4 : Word} (h : g.Reflects e1 e6 d3 d4) {i : Nat}
    (hgap : ∀ s ∈ statusSlots, ¬ s.Covers i) : g.status.getLsbD i = false := by
  rw [status_eq]
  exact getLsbD_pack_of_gap h.narrow hgap

/-- A part that holds a bit field of the word `x`. -/
theorem Reflects.read_bitField {g : Gpu} {e1 e6 d3 d4 : Word} (h : g.Reflects e1 e6 d3 d4)
    {offset n k : Nat} {v x : Word} (hmem : (⟨⟨offset, k⟩, v⟩ : Part 32) ∈ g.statusParts)
    (hv : v = (x >>> n) &&& BitVec.ofNat 32 (2 ^ k - 1)) {j : Nat} (hj : j < k)
    (hw : offset + k ≤ 32) : g.status.getLsbD (offset + j) = x.getLsbD (n + j) := by
  rw [h.read hmem hj (by omega), hv]
  rw [Bits.getLsbD_field x (by omega), decide_eq_true hj, Bool.true_and]

/-- A part that holds bit `n` of the word `x`. -/
theorem Reflects.read_bit {g : Gpu} {e1 e6 d3 d4 : Word} (h : g.Reflects e1 e6 d3 d4)
    {offset n : Nat} {v x : Word} (hmem : (⟨⟨offset, 1⟩, v⟩ : Part 32) ∈ g.statusParts)
    (hv : v = (x >>> n) &&& 1) (hw : offset < 32) : g.status.getLsbD offset = x.getLsbD n :=
  h.read_bitField (k := 1) (j := 0) hmem hv (by decide) hw

/-- Bits `[10:0]` come from six parts. -/
theorem Reflects.read_drawMode {g : Gpu} {e1 e6 d3 d4 : Word} (h : g.Reflects e1 e6 d3 d4)
    {i : Nat} (hi : i < 11) : g.status.getLsbD i = e1.getLsbD i := by
  have hmem : ∀ p ∈ g.readyParts, p ∈ g.statusParts := fun p hp => List.mem_append_left _ hp
  have hpageX : g.mPageBaseX.setWidth 32 = (e1 >>> 0) &&& 15 := by simpa using h.pageBaseX
  have hcases : i < 4 ∨ i = 4 ∨ (5 ≤ i ∧ i < 7) ∨ (7 ≤ i ∧ i < 9) ∨ i = 9 ∨ i = 10 := by omega
  rcases hcases with hi | rfl | ⟨hle, hlt⟩ | ⟨hle, hlt⟩ | rfl | rfl
  · have hread := h.read_bitField (k := 4) (hmem ⟨⟨0, 4⟩, _⟩ (by simp [readyParts])) hpageX hi
      (by decide)
    simpa using hread
  · exact h.read_bit (hmem ⟨⟨4, 1⟩, _⟩ (by simp [readyParts])) h.pageBaseY (by decide)
  · have hread := h.read_bitField (k := 2) (j := i - 5)
      (hmem ⟨⟨5, 2⟩, _⟩ (by simp [readyParts])) h.semiTransparency (by omega) (by decide)
    rwa [Nat.add_sub_cancel' hle] at hread
  · have hread := h.read_bitField (k := 2) (j := i - 7)
      (hmem ⟨⟨7, 2⟩, _⟩ (by simp [readyParts])) h.textureDepth (by omega) (by decide)
    rwa [Nat.add_sub_cancel' hle] at hread
  · exact h.read_bit (hmem ⟨⟨9, 1⟩, _⟩ (by simp [readyParts])) h.dithering (by decide)
  · exact h.read_bit (hmem ⟨⟨10, 1⟩, _⟩ (by simp [readyParts])) h.drawToDisplay (by decide)

/-- Bit 25 follows the bits `[30:29]`. -/
theorem Reflects.read_request {g : Gpu} {e1 e6 d3 d4 : Word} (h : g.Reflects e1 e6 d3 d4) :
    g.status.getLsbD 25 = true ↔ g.status.extractLsb' 29 2 ≠ 0 := by
  have hrequest : g.status.getLsbD 25 = g.request.getLsbD 0 :=
    h.read (j := 0) (by simp [statusParts] : ⟨⟨25, 1⟩, g.request⟩ ∈ g.statusParts) (by decide)
      (by decide)
  have hdirection : g.status.extractLsb' 29 2 = g.mDmaDirection.toWord.setWidth 2 := by
    apply BitVec.eq_of_getLsbD_eq
    intro i hi
    have hread : g.status.getLsbD (29 + i) = g.mDmaDirection.toWord.getLsbD i :=
      h.read (by simp [statusParts, readyParts]) hi (by omega)
    simp [hi, hread]
  rw [hrequest, hdirection, request]
  cases g.mDmaDirection <;> decide

/-- **Every field of the register.** -/
theorem Reflects.statusBits {g : Gpu} {e1 e6 d3 d4 : Word} (h : g.Reflects e1 e6 d3 d4) :
    StatusBits g.status e1 e6 d3 d4 := by
  have hmem : ∀ p ∈ g.readyParts, p ∈ g.statusParts := fun p hp => List.mem_append_left _ hp
  have hforce : ofBool g.mForceSetMaskBit = (e6 >>> 0) &&& 1 := by simpa using h.forceSetMaskBit
  have hdisabled : ofBool g.mDisplayDisabled = (d3 >>> 0) &&& 1 := by simpa using h.displayDisabled
  have hdma : g.mDmaDirection.toWord = (d4 >>> 0) &&& 3 := by simpa using h.dmaDirection
  have hdirection : ∀ i < 2, g.status.getLsbD (29 + i) = d4.getLsbD i := by
    intro i hi
    have hread := h.read_bitField (k := 2) (hmem ⟨⟨29, 2⟩, _⟩ (by simp [readyParts])) hdma hi
      (by decide)
    simpa using hread
  have hones : ∀ i, (⟨⟨i, 1⟩, 1⟩ : Part 32) ∈ g.statusParts → i < 32 →
      g.status.getLsbD i = true := by
    intro i hi hlt
    exact (h.read (j := 0) hi (by decide) (by omega)).trans (by decide)
  exact {
    drawMode := fun i hi => h.read_drawMode hi
    textureDisable :=
      h.read_bit (hmem ⟨⟨15, 1⟩, _⟩ (by simp [readyParts])) h.textureDisable (by decide)
    maskBits := by
      intro i hi
      have hcases : i = 0 ∨ i = 1 := by omega
      rcases hcases with rfl | rfl
      · exact h.read_bit (hmem ⟨⟨11, 1⟩, _⟩ (by simp [readyParts])) hforce (by decide)
      · exact h.read_bit (hmem ⟨⟨12, 1⟩, _⟩ (by simp [readyParts])) h.preserveMaskedPixels
          (by decide)
    displayDisabled := h.read_bit (hmem ⟨⟨23, 1⟩, _⟩ (by simp [readyParts])) hdisabled (by decide)
    dmaDirection := hdirection
    dmaRequest := h.read_request
    set := by
      intro i hi
      simp only [List.mem_cons, List.not_mem_nil, or_false] at hi
      rcases hi with rfl | rfl | rfl | rfl
      · have hread := h.read (j := 0) (hmem ⟨⟨13, 1⟩, g.mField.toWord⟩ (by simp [readyParts]))
          (by decide) (by decide)
        rw [h.field] at hread
        exact hread
      · exact hones 26 (hmem _ (by simp [readyParts])) (by decide)
      · exact hones 27 (hmem _ (by simp [readyParts])) (by decide)
      · exact hones 28 (hmem _ (by simp [readyParts])) (by decide)
    clear := by
      intro i hi
      simp only [List.mem_cons, List.not_mem_nil, or_false] at hi
      rcases hi with rfl | rfl | rfl | rfl
      · exact h.read_gap (by decide)
      · exact h.read_gap (by decide)
      · have hread := h.read (j := 0) (hmem ⟨⟨24, 1⟩, ofBool g.mInterrupt⟩
          (by simp [readyParts])) (by decide) (by decide)
        rw [h.interrupt] at hread
        exact hread
      · exact h.read (j := 0) (hmem ⟨⟨31, 1⟩, 0⟩ (by simp [readyParts])) (by decide) (by decide) }

/-! ## What each command writes -/

theorem toNat_and_lt {w : Nat} (x mask : BitVec w) {n : Nat} (h : mask.toNat < n) :
    (x &&& mask).toNat < n :=
  Nat.lt_of_le_of_lt (Bits.toNat_and_le x mask) h

theorem toWord_of_textureDepth {val : Word} {depth : TextureDepth}
    (h : Gpu.textureDepth val = .ok depth) : depth.toWord = (val >>> 7) &&& 3 := by
  unfold Gpu.textureDepth at h
  split at h
  case h_4 => cases h
  all_goals
    next heq =>
      cases h
      exact BitVec.eq_of_toNat_eq heq.symm

/-- The words that a handler changes: it reads its first word. -/
theorem Reflects.call {g g' : Gpu} {k : Gp0Method} {e1 e6 d3 d4 : Word}
    (h : g.Reflects e1 e6 d3 d4) (hcall : g.call k = .ok g') :
    g'.Reflects (if k = .gp0DrawMode then g.mGp0Command.get 0 else e1)
      (if k = .gp0MaskBitSetting then g.mGp0Command.get 0 else e6) d3 d4 := by
  cases k
  case gp0DrawMode =>
    rw [Gpu.call, gp0DrawMode_eq] at hcall
    obtain ⟨depth, hdepth, hret⟩ := bind_eq_ok.mp hcall
    cases hret
    exact { h with
      pageBaseX := Bits.setWidth_setWidth_and _ (by decide)
      pageBaseY := Bits.setWidth_setWidth_and _ (by decide)
      semiTransparency := Bits.setWidth_setWidth_and _ (by decide)
      textureDepth := toWord_of_textureDepth hdepth
      dithering := ofBool_and_one _
      drawToDisplay := ofBool_and_one _
      textureDisable := ofBool_and_one _ }
  case gp0MaskBitSetting =>
    cases hcall
    exact { h with
      forceSetMaskBit := ofBool_and_one _
      preserveMaskedPixels := ofBool_bit _ (by decide : 1 < 32) }
  case gp0QuadMonoOpaque | gp0QuadTextureBlendOpaque | gp0TriangleShadedOpaque |
      gp0QuadShadedOpaque =>
    obtain ⟨r, _, hret⟩ := bind_eq_ok.mp hcall
    cases hret
    exact { h with }
  all_goals
    cases hcall
    exact { h with }

theorem toWord_gp1DmaDirection (g : Gpu) (val : Word) :
    (g.gp1DmaDirection val).mDmaDirection.toWord = val &&& 3 := by
  have hlt := toNat_and_lt val 3 (show (3 : Word).toNat < 4 by decide)
  unfold gp1DmaDirection
  split
  case h_5 h0 h1 h2 h3 =>
    exfalso
    grind
  all_goals
    next heq => exact BitVec.eq_of_toNat_eq heq.symm

theorem gp1DmaDirection_frame (g : Gpu) (val : Word) :
    g.gp1DmaDirection val = { g with mDmaDirection := (g.gp1DmaDirection val).mDmaDirection } := by
  unfold gp1DmaDirection
  split <;> rfl

theorem narrow_fromFields (hr1 hr2 : Byte) :
    Narrow ((HorizontalRes.fromFields hr1 hr2).setWidth 32 : Word) 3 := by
  have hlow : (hr2 &&& 1).toNat < 2 ^ 3 := toNat_and_lt hr2 1 (by decide)
  have hhigh : ((hr1 &&& 3) <<< 1).toNat < 2 ^ 3 := by
    have hlt : (hr1 &&& 3).toNat < 4 := toNat_and_lt hr1 3 (by decide)
    rw [BitVec.toNat_shiftLeft, Nat.shiftLeft_eq]
    omega
  have hor := Nat.or_lt_two_pow hlow hhigh
  refine narrow_of_lt ?_
  rw [BitVec.toNat_setWidth, HorizontalRes.fromFields, BitVec.toNat_or]
  exact Nat.lt_of_le_of_lt (Nat.mod_le _ _) hor

theorem reflects_reset (g : Gpu) (hfield : g.mField = .top) (val : Word) :
    (g.gp1Reset val).Reflects 0 0 1 0 :=
  ⟨rfl, rfl, rfl, rfl, rfl, rfl, rfl, rfl, rfl, rfl, rfl, hfield, rfl, narrow_fromFields 0 0⟩

theorem reflects_new : new.Reflects 0 0 1 0 :=
  ⟨rfl, rfl, rfl, rfl, rfl, rfl, rfl, rfl, rfl, rfl, rfl, rfl, rfl, narrow_fromFields 0 0⟩

/-- The words that a GP1 word changes. -/
theorem Reflects.gp1 {g g' : Gpu} {e1 e6 d3 d4 val : Word} (h : g.Reflects e1 e6 d3 d4)
    (hport : g.gp1 val = .ok g') :
    (val.toNat / 2 ^ 24 = 0 ∧ g'.Reflects 0 0 1 0) ∨
      (val.toNat / 2 ^ 24 ≠ 0 ∧ g'.Reflects e1 e6 (if val.toNat / 2 ^ 24 = 3 then val else d3)
        (if val.toNat / 2 ^ 24 = 4 then val else d4)) := by
  rw [← opcode_toNat]
  simp only [Gpu.gp1] at hport
  split at hport
  case h_1 heq =>
    cases hport
    exact .inl ⟨heq, reflects_reset g h.field val⟩
  case h_3 heq =>
    cases hport
    simp only [heq]
    exact .inr ⟨by decide, { h with interrupt := rfl }⟩
  case h_4 heq =>
    cases hport
    simp only [heq]
    exact .inr ⟨by decide, { h with displayDisabled := ofBool_and_one _ }⟩
  case h_5 heq =>
    cases hport
    simp only [heq]
    rw [gp1DmaDirection_frame]
    exact .inr ⟨by decide, { h with dmaDirection := toWord_gp1DmaDirection g val }⟩
  case h_9 heq =>
    simp only [heq]
    by_cases hmode : val &&& 0x80 ≠ 0
    · rw [gp1DisplayMode, if_pos hmode] at hport
      cases hport
    · rw [gp1DisplayMode, if_neg hmode] at hport
      cases hport
      exact .inr ⟨by decide, { h with hres := narrow_fromFields _ _ }⟩
  case h_10 => cases hport
  all_goals
    next heq =>
      cases hport
      simp only [heq]
      exact .inr ⟨by decide, { h with }⟩

/-! ## Runs -/

/-- The fields reflect the last writers among the events. -/
def ReflectsEvents (g : Gpu) (es : List Event) : Prop :=
  g.Reflects ((lastCommand 0xe1 es).getD 0) ((lastCommand 0xe6 es).getD 0)
    ((lastControl 3 es).getD 1) ((lastControl 4 es).getD 0)

/-- The opcodes and the handlers of the table determine each other. -/
theorem opcode_iff {w : Word} {n m op : Nat} {k k' : Gp0Method}
    (h : gp0Format.header w = some (n, k)) (hmem : (op, m, k') ∈ gp0Commands) :
    w.toNat / 2 ^ 24 = op ↔ k = k' := by
  obtain ⟨entry, hfind, heq⟩ := Option.map_eq_some_iff.mp h
  cases heq
  have hop : entry.1 = w.toNat / 2 ^ 24 := eq_of_beq (List.find?_some hfind :)
  have hinj : ∀ x ∈ gp0Commands, ∀ y ∈ gp0Commands, x.1 = y.1 ↔ x.2.2 = y.2.2 := by decide
  rw [← hop]
  exact hinj entry (List.mem_of_find?_eq_some hfind) _ hmem

/-- The word that an executed command is the last writer of. -/
theorem lastCommand_executed {k k' : Gp0Method} {cmd : List Word} {d : Gpu} {op m : Nat}
    (hholds : d.mGp0Command.Holds cmd) (hfull : FullLength k cmd)
    (hmem : (op, m, k') ∈ gp0Commands) (es : List Event) :
    (lastCommand op (es ++ [.executed k cmd])).getD 0 =
      if k = k' then d.mGp0Command.get 0 else (lastCommand op es).getD 0 := by
  obtain ⟨w, params, rfl, hw⟩ := hfull
  have hget : some w = some (d.mGp0Command.get 0) := hholds.get (i := 0) (Nat.succ_pos _)
  obtain rfl := Option.some.inj hget
  have hop := opcode_iff hw hmem
  rw [lastCommand_concat, if_neg (by exact Bool.false_ne_true)]
  by_cases hk : k = k'
  · have htest : ((d.mGp0Command.get 0).toNat / 2 ^ 24 == op) = true := beq_iff_eq.mpr (hop.mpr hk)
    rw [if_pos hk, Event.command?, List.head?_cons, Option.filter_some, if_pos htest]
    rfl
  · have htest : ¬ ((d.mGp0Command.get 0).toNat / 2 ^ 24 == op) = true := fun h =>
      hk (hop.mp (beq_iff_eq.mp h))
    rw [if_neg hk, Event.command?, List.head?_cons, Option.filter_some, if_neg htest]
    rfl

/-- An executed command. -/
theorem ReflectsEvents.executed {g g' : Gpu} {es : List Event} {k : Gp0Method} {cmd : List Word}
    (h : g.ReflectsEvents es) (hholds : g.mGp0Command.Holds cmd) (hfull : FullLength k cmd)
    (hcall : g.call k = .ok g') : g'.ReflectsEvents (es ++ [.executed k cmd]) := by
  have hreflects := Reflects.call h hcall
  unfold ReflectsEvents
  rw [lastCommand_executed (m := 1) hholds hfull
      (show (0xe1, 1, .gp0DrawMode) ∈ gp0Commands by decide),
    lastCommand_executed (m := 1) hholds hfull
      (show (0xe6, 1, .gp0MaskBitSetting) ∈ gp0Commands by decide),
    lastControl_concat, lastControl_concat]
  exact hreflects

/-- A GP1 word. -/
theorem ReflectsEvents.control {g g' : Gpu} {es : List Event} {val : Word}
    (h : g.ReflectsEvents es) (hport : g.gp1 val = .ok g') :
    g'.ReflectsEvents (es ++ [.control val]) := by
  unfold ReflectsEvents
  rw [lastCommand_concat, lastCommand_concat, lastControl_concat, lastControl_concat]
  rcases Reflects.gp1 h hport with ⟨hop, hreset⟩ | ⟨hop, hreflects⟩
  · have hisReset : (Event.control val).isReset = true := beq_iff_eq.mpr hop
    simp only [if_pos hisReset, Option.getD_none]
    exact hreset
  · have hisReset : ¬ (Event.control val).isReset = true := fun h => hop (beq_iff_eq.mp h)
    simp only [if_neg hisReset, Event.command?, Event.control?, Option.none_or]
    by_cases h3 : val.toNat / 2 ^ 24 = 3
    · have h4 : val.toNat / 2 ^ 24 ≠ 4 := by omega
      rw [if_pos h3, if_neg h4] at hreflects ⊢
      exact hreflects
    · by_cases h4 : val.toNat / 2 ^ 24 = 4
      · rw [if_neg h3, if_pos h4] at hreflects ⊢
        exact hreflects
      · rw [if_neg h3, if_neg h4] at hreflects ⊢
        exact hreflects

/-- The port of the GPU is not read by `status`. -/
theorem Reflects.withPort {g : Gpu} {e1 e6 d3 d4 : Word} (h : g.Reflects e1 e6 d3 d4)
    (s : PortState) : (g.withPort s).Reflects e1 e6 d3 d4 := { h with }

/-- One word on a port: the handlers that run are the parser's, and the fields reflect them. -/
theorem ReflectsEvents.write {g g' : Gpu} {p : Parser} {es : List Event} {w : PortWrite}
    (h : g.ReflectsEvents es) (hp : g.Parses p) (hw : g.write w = .ok g') :
    g'.ReflectsEvents (es ++ (p.write w).2) := by
  cases w with
  | gp1 val => exact h.control hw
  | gp0 val =>
    have hhandled := (hp.gp0 hw).2
    change g'.ReflectsEvents (es ++ (p.gp0 val).2.map fun call => .executed call.1 call.2)
    obtain ⟨s, ⟨rfl, hsame⟩ | ⟨hd, hsame⟩⟩ := gp0_step hw
    · have hnone : (p.gp0 val).2 = [] := by
        have heq : g.handled ++ [] = g.handled ++ (p.gp0 val).2 := by
          rw [← hhandled, List.append_nil]
          exact hsame.symm
        exact (List.append_cancel_left heq).symm
      rw [hnone, List.map_nil, List.append_nil]
      exact Reflects.withPort h s
    · obtain ⟨cmd, hfull, hholds, -⟩ := hp.dispatches hd
      have hcall : (g.withPort s).call s.mGp0CommandMethod = .ok g' := hd.gp0_eq_call.symm.trans hw
      have hcalled := called_of_call (g := g.withPort s) hp.fits hcall
      have hone : (p.gp0 val).2 = [(s.mGp0CommandMethod, cmd)] := by
        have heq : g.handled ++ [(s.mGp0CommandMethod, cmd)] = g.handled ++ (p.gp0 val).2 := by
          rw [← hhandled, hcalled.handled, ← hholds.words]
          exact hsame.symm
        exact (List.append_cancel_left heq).symm
      rw [hone]
      exact ReflectsEvents.executed (Reflects.withPort h s) hholds hfull hcall

/-- The commands among the events. -/
def commands (es : List Event) : List (Gp0Method × List Word) :=
  es.filterMap fun
    | .executed k cmd => some (k, cmd)
    | .control _ => none

theorem commands_write (p : Parser) (val : Word) :
    commands ((p.write (.gp0 val)).2) = (p.gp0 val).2 := by
  change commands ((p.gp0 val).2.map fun call => .executed call.1 call.2) = _
  rw [commands, List.filterMap_map]
  exact List.filterMap_some

theorem Parses.write {g g' : Gpu} {p : Parser} {w : PortWrite} (hp : g.Parses p)
    (hw : g.write w = .ok g') :
    g'.Parses (p.write w).1 ∧ g'.handled = g.handled ++ commands (p.write w).2 := by
  cases w with
  | gp0 val =>
    rw [commands_write]
    exact hp.gp0 hw
  | gp1 val =>
    obtain ⟨hparses, hhandled⟩ := hp.gp1 hw
    exact ⟨hparses, hhandled.trans (List.append_nil _).symm⟩

/-- Over a run, the commands are those among the events of the parser. -/
theorem Parses.run {ws : List PortWrite} {g g' : Gpu} {p : Parser} (hp : g.Parses p)
    (hrun : g.run ws = .ok g') : g'.handled = g.handled ++ commands (p.events ws) := by
  induction ws generalizing g p with
  | nil =>
    cases hrun
    exact (List.append_nil _).symm
  | cons w ws ih =>
    rw [Gpu.run, List.foldlM_cons] at hrun
    obtain ⟨g1, hw, hrest⟩ := bind_eq_ok.mp hrun
    obtain ⟨hparses, hhandled⟩ := hp.write hw
    rw [ih hparses hrest, hhandled, List.append_assoc, Parser.events, commands, commands, commands,
      ← List.filterMap_append]

/-- **Run rule**: what holds of the events so far and is kept by every word holds after a run. -/
theorem Parses.run_keeps {P : Gpu → List Event → Prop}
    (hstep : ∀ {g g' p es w}, P g es → g.Parses p → g.write w = .ok g' → P g' (es ++ (p.write w).2))
    {ws : List PortWrite} {g g' : Gpu} {p : Parser} {es : List Event} (hp : g.Parses p)
    (h : P g es) (hrun : g.run ws = .ok g') : P g' (es ++ p.events ws) := by
  induction ws generalizing g p es with
  | nil =>
    cases hrun
    rw [Parser.events, List.append_nil]
    exact h
  | cons w ws ih =>
    rw [Gpu.run, List.foldlM_cons] at hrun
    obtain ⟨g1, hw, hrest⟩ := bind_eq_ok.mp hrun
    rw [Parser.events, ← List.append_assoc]
    exact ih (hp.write hw).1 (hstep h hp hw) hrest

theorem ReflectsEvents.run {ws : List PortWrite} {g g' : Gpu} {p : Parser} {es : List Event}
    (h : g.ReflectsEvents es) (hp : g.Parses p) (hrun : g.run ws = .ok g') :
    g'.ReflectsEvents (es ++ p.events ws) := hp.run_keeps ReflectsEvents.write h hrun

/-- **The status register reflects the last writers.**  After any run from a constructed GPU, the
draw mode bits come from the last executed `GP0(0xE1)`, the mask bits from the last executed
`GP0(0xE6)`, the display bit from the last `GP1(0x03)` and the DMA bits from the last `GP1(0x04)`
since the last reset; the executed commands are those that the program ran. -/
theorem status_reflects {ws : List PortWrite} {g : Gpu} (h : new.run ws = .ok g) :
    let es := Parser.idle.events ws
    StatusBits g.status ((lastCommand 0xe1 es).getD 0) ((lastCommand 0xe6 es).getD 0)
        ((lastControl 3 es).getD 1) ((lastControl 4 es).getD 0) ∧
      g.handled = commands es := by
  have hnew : new.ReflectsEvents [] := reflects_new
  exact ⟨Reflects.statusBits (hnew.run parses_new h), parses_new.run h⟩

/-- A draw mode word after the reset, one that is a parameter, one that is image data. -/
theorem status_reflects_imageLoad :
    ∃ g, new.run [.gp0 0xe100023f, .gp1 0, .gp0 0xe1000201, .gp0 0xa0000000, .gp0 0xe1000002,
        .gp0 0x00010002, .gp0 0xe1000003, .gp1 0x04000002, .gp0 0xe6000003] = .ok g ∧
      StatusBits g.status 0xe1000201 0xe6000003 1 0x04000002 := by
  have hrun : okAnd (new.run [.gp0 0xe100023f, .gp1 0, .gp0 0xe1000201, .gp0 0xa0000000,
      .gp0 0xe1000002, .gp0 0x00010002, .gp0 0xe1000003, .gp1 0x04000002, .gp0 0xe6000003])
        (fun _ => true) = true := by decide +kernel
  obtain ⟨g, hg, -⟩ := exists_of_okAnd hrun
  exact ⟨g, hg, (status_reflects hg).1⟩

end Gpu

end CppStation
