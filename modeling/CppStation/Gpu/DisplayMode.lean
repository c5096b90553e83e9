import CppStation.Gpu.Acceptance
import CppStation.Gpu.Settings

/-!
# The display mode command

`GP1(0x08)` decodes a word into five fields and `status` shows four of them.
The masks of `gp1DisplayMode` have the form `val & 0x8 != 0`, which is
`val & (0x8 != 0)`: every flag is decoded from bit 0, and the display depth the
wrong way round.
-/

namespace CppStation

open Fallible Register

namespace Gpu

/-! ## The parts that show the display mode -/

/-- The parts of the register below the display mode. -/
def lowParts (g : Gpu) : List (Part 32) := g.readyParts.take 10

/-- The horizontal resolution, the video mode, the depth and the interlacing. -/
def modeParts (g : Gpu) : List (Part 32) := (g.readyParts.drop 10).take 4

/-- The parts above it. -/
def highParts (g : Gpu) : List (Part 32) := g.readyParts.drop 14 ++ [⟨⟨25, 1⟩, g.request⟩]

theorem statusParts_eq (g : Gpu) : g.statusParts = g.lowParts ++ (g.modeParts ++ g.highParts) :=
  rfl

theorem getLsbD_status (g : Gpu) (i : Nat) :
    g.status.getLsbD i = ((pack g.lowParts).getLsbD i ||
      ((pack g.modeParts).getLsbD i || (pack g.highParts).getLsbD i)) := by
  rw [status_eq, statusParts_eq]
  simp only [getLsbD_pack, List.any_append]

/-- No field is wide enough to reach the display mode from below. -/
theorem getLsbD_lowParts (g : Gpu) {i : Nat} (hi : 16 ≤ i) :
    (pack g.lowParts).getLsbD i = false := by
  have hdepth : Narrow g.mTextureDepth.toWord 9 := by
    cases g.mTextureDepth <;> exact narrow_of_lt (by decide)
  have hfield : Narrow g.mField.toWord 3 := by
    cases g.mField <;> exact narrow_of_lt (by decide)
  have hbyte : ∀ (x : Byte) (k : Nat), 8 ≤ k → Narrow (x.setWidth 32 : Word) k :=
    fun x k hk => (narrow_setWidth x).mono hk
  have hbool : ∀ (b : Bool) (k : Nat), 1 ≤ k → Narrow (ofBool b) k :=
    fun b k hk => (narrow_ofBool b).mono hk
  have hnarrow : ∀ p ∈ g.lowParts, Narrow p.value (16 - p.slot.offset) := by
    simp only [lowParts, readyParts, List.take, List.forall_mem_cons, List.not_mem_nil,
      false_imp_iff, implies_true, and_true]
    exact ⟨hbyte _ _ (by decide), hbyte _ _ (by decide), hbyte _ _ (by decide), hdepth,
      hbool _ _ (by decide), hbool _ _ (by decide), hbool _ _ (by decide),
      hbool _ _ (by decide), hfield, hbool _ _ (by decide)⟩
  rw [getLsbD_pack, List.any_eq_false]
  intro p hp
  simp [Part.getLsbD_bits_of_narrow (hnarrow p hp) hi]

theorem getLsbD_highParts (g : Gpu) {i : Nat} (hi : i < 23) :
    (pack g.highParts).getLsbD i = false := by
  have hoffset : ∀ p ∈ g.highParts, 23 ≤ p.slot.offset := by
    simp [highParts, readyParts]
  rw [getLsbD_pack, List.any_eq_false]
  intro p hp
  have hlow := hoffset p hp
  simp [Part.getLsbD_bits_of_lt (show i < p.slot.offset by omega)]

theorem VMode.toWord_eq (m : VMode) : m.toWord = ofBool (m == .pal) := by cases m <;> rfl

theorem DisplayDepth.toWord_eq (d : DisplayDepth) : d.toWord = ofBool (d == .d24Bits) := by
  cases d <;> rfl

/-- The bits of the display mode, for any value in the field of the horizontal resolution. -/
theorem getLsbD_modeParts (g : Gpu) {i : Nat} (hi : i < 32) :
    (pack g.modeParts).getLsbD i =
      ((decide (16 ≤ i) && g.mHres.mHr.getLsbD (i - 16)) ||
        ((decide (i = 20) && g.mVmode == .pal) ||
          ((decide (i = 21) && g.mDisplayDepth == .d24Bits) ||
            (decide (i = 22) && g.mInterlaced)))) := by
  have hhres := Bits.getLsbD_setWidth_shiftLeft g.mHres.mHr 16 hi
  simp only [getLsbD_pack, modeParts, readyParts, List.drop, List.take, List.any_cons,
    List.any_nil, Part.bits, VMode.toWord_eq, DisplayDepth.toWord_eq,
    getLsbD_ofBool_shiftLeft _ _ hi, hhres, Bool.or_false]

/-! ## What the command does -/

/-- The fields after `gp1DisplayMode`, in terms of the bits of the word. -/
def withMode (g : Gpu) (v : Word) : Gpu :=
  { g with
    mHres := ⟨HorizontalRes.fromFields ((v &&& 3).setWidth 8) (((v >>> 6) &&& 1).setWidth 8)⟩
    mVres := if v.getLsbD 0 then .y480Lines else .y240Lines
    mVmode := if v.getLsbD 0 then .pal else .ntsc
    mDisplayDepth := if v.getLsbD 0 then .d15Bits else .d24Bits
    mInterlaced := v.getLsbD 0 }

theorem gp1_displayMode (g : Gpu) {v : Word} (hop : v.toNat / 2 ^ 24 = 8)
    (h7 : v.getLsbD 7 = false) : g.gp1 v = .ok (g.withMode v) := by
  have hmode : ¬ v &&& 0x80 ≠ 0 := fun h => by
    have hbit := (Bits.and_one_shiftLeft_ne_zero_iff v (i := 7) (by decide)).mp h
    exact Bool.false_ne_true (h7.symm.trans hbit)
  have htrue : ∀ n : Word, n ≠ 0 → truth (v &&& ofBool (n != 0)) = v.getLsbD 0 := by
    intro n hn
    rw [bne_iff_ne.mpr hn]
    exact truth_and_one v
  have hop' := opcode_toNat v
  rw [hop] at hop'
  simp only [gp1, hop', gp1DisplayMode, if_neg hmode, htrue 0x4 (by decide),
    htrue 0x8 (by decide), htrue 0x10 (by decide), htrue 0x20 (by decide), withMode]

theorem getLsbD_fromFields (v : Word) (j : Nat) :
    (HorizontalRes.fromFields ((v &&& 3).setWidth 8) (((v >>> 6) &&& 1).setWidth 8)).getLsbD j =
      (decide (j = 0) && v.getLsbD 6 || decide (j = 1) && v.getLsbD 0 ||
        decide (j = 2) && v.getLsbD 1) := by
  match j with
  | 0 | 1 | 2 => simp [HorizontalRes.fromFields]
  | j + 3 =>
    have hnarrow := narrow_fromFields ((v &&& 3).setWidth 8) (((v >>> 6) &&& 1).setWidth 8)
    have hbit := hnarrow (j + 3) (by omega)
    rw [BitVec.getLsbD_setWidth] at hbit
    by_cases hj : j + 3 < 32
    · simpa [hj] using hbit
    · simp [BitVec.getLsbD_of_ge _ (j + 3) (show 8 ≤ j + 3 by omega)]

/-! ## The bits of the status word -/

/-- The bits of the status word that the command is to change. -/
def IsModeBit (i : Nat) : Prop := 16 ≤ i ∧ i ≤ 18 ∨ 20 ≤ i ∧ i ≤ 22

instance (i : Nat) : Decidable (IsModeBit i) := inferInstanceAs (Decidable (_ ∨ _))

theorem getLsbD_status_mode (g : Gpu) {i : Nat} (hle : 16 ≤ i) (hlt : i < 23) :
    g.status.getLsbD i = (g.mHres.mHr.getLsbD (i - 16) ||
      ((decide (i = 20) && g.mVmode == .pal) ||
        ((decide (i = 21) && g.mDisplayDepth == .d24Bits) ||
          (decide (i = 22) && g.mInterlaced)))) := by
  rw [getLsbD_status, getLsbD_lowParts g hle, getLsbD_highParts g hlt,
    getLsbD_modeParts g (by omega)]
  simp [hle]

/-- Elsewhere the horizontal resolution shows only when it is wider than its place. -/
theorem getLsbD_status_other (g : Gpu) {i : Nat} (hi : i < 32) (hmode : ¬ IsModeBit i) :
    g.status.getLsbD i = ((pack g.lowParts).getLsbD i ||
      ((decide (16 ≤ i) && g.mHres.mHr.getLsbD (i - 16)) || (pack g.highParts).getLsbD i)) := by
  rw [IsModeBit] at hmode
  rw [getLsbD_status, getLsbD_modeParts g hi]
  simp [show i ≠ 20 by omega, show i ≠ 21 by omega, show i ≠ 22 by omega]

/-- The bits of the status word after the command. -/
theorem getLsbD_status_withMode (g : Gpu) (v : Word) {i : Nat} (hle : 16 ≤ i) (hlt : i < 23) :
    (g.withMode v).status.getLsbD i =
      ((decide (i = 16) && v.getLsbD 6) || ((decide (i = 17) && v.getLsbD 0) ||
        ((decide (i = 18) && v.getLsbD 1) || ((decide (i = 20) && v.getLsbD 0) ||
          ((decide (i = 21) && !v.getLsbD 0) || (decide (i = 22) && v.getLsbD 0)))))) := by
  have hpal : ((if v.getLsbD 0 then VMode.pal else .ntsc) == VMode.pal) = v.getLsbD 0 := by
    cases v.getLsbD 0 <;> rfl
  have hdepth : ((if v.getLsbD 0 then DisplayDepth.d15Bits else .d24Bits) ==
      DisplayDepth.d24Bits) = !v.getLsbD 0 := by
    cases v.getLsbD 0 <;> rfl
  rw [getLsbD_status_mode _ hle hlt]
  simp only [withMode, hpal, hdepth, getLsbD_fromFields, Bool.or_assoc,
    show i - 16 = 0 ↔ i = 16 by omega, show i - 16 = 1 ↔ i = 17 by omega,
    show i - 16 = 2 ↔ i = 18 by omega]

/-- A horizontal resolution that shows in no bit of the status word but its own.  Every value of
`HorizontalRes.fromFields` is one. -/
def HresInPlace (g : Gpu) : Prop :=
  g.mHres.mHr.getLsbD 3 = false ∧ (g.mHres.mHr.getLsbD 7 = true → g.mDisplayDisabled = true)

theorem hresInPlace_of_fromFields {g : Gpu} {hr1 hr2 : Byte}
    (h : g.mHres = ⟨HorizontalRes.fromFields hr1 hr2⟩) : g.HresInPlace := by
  have hnarrow := narrow_fromFields hr1 hr2
  have h3 := hnarrow 3 (by decide)
  have h7 := hnarrow 7 (by decide)
  rw [BitVec.getLsbD_setWidth] at h3 h7
  rw [HresInPlace, h]
  exact ⟨by simpa using h3, fun ht => absurd (ht.symm.trans (by simpa using h7)) (by decide)⟩

/-- The other bits keep their values exactly when the old resolution was in its place. -/
theorem status_other_iff (g : Gpu) (v : Word) :
    (∀ i < 32, ¬ IsModeBit i → (g.withMode v).status.getLsbD i = g.status.getLsbD i) ↔
      g.HresInPlace := by
  have hnew : ∀ i < 32, ¬ IsModeBit i → (g.withMode v).status.getLsbD i =
      ((pack g.lowParts).getLsbD i || (pack g.highParts).getLsbD i) := by
    intro i hi hmode
    have hlow : (g.withMode v).lowParts = g.lowParts := rfl
    have hhigh : (g.withMode v).highParts = g.highParts := rfl
    rw [getLsbD_status_other _ hi hmode, hlow, hhigh]
    simp only [withMode, getLsbD_fromFields]
    rw [IsModeBit] at hmode
    by_cases hle : 16 ≤ i
    · simp [show ¬ i - 16 = 0 by omega, show ¬ i - 16 = 1 by omega, show ¬ i - 16 = 2 by omega]
    · simp [hle]
  have h23 : (pack g.highParts).getLsbD 23 = g.mDisplayDisabled := by
    have hzero : (ofBool g.mDisplayDisabled)[0] = g.mDisplayDisabled := by
      cases g.mDisplayDisabled <;> rfl
    rw [getLsbD_pack]
    simp [highParts, readyParts, Part.bits, hzero]
  constructor
  · intro h
    have h19 := h 19 (by decide) (by decide)
    have h23' := h 23 (by decide) (by decide)
    rw [hnew 19 (by decide) (by decide), getLsbD_status_other g (by decide) (by decide),
      getLsbD_lowParts g (by decide), getLsbD_highParts g (by decide)] at h19
    rw [hnew 23 (by decide) (by decide), getLsbD_status_other g (by decide) (by decide),
      getLsbD_lowParts g (by decide), h23] at h23'
    refine ⟨by simpa using h19.symm, fun hbit => ?_⟩
    simpa [hbit] using h23'
  · rintro ⟨h3, h7⟩ i hi hmode
    rw [hnew i hi hmode, getLsbD_status_other g hi hmode]
    rw [IsModeBit] at hmode
    have hcases : i < 16 ∨ i = 19 ∨ i = 23 ∨ 24 ≤ i := by omega
    rcases hcases with hlt | rfl | rfl | hge
    · simp [show ¬ 16 ≤ i by omega]
    · simp only [Nat.reduceSub, h3, Bool.and_false, Bool.false_or]
    · rw [h23]
      cases hbit : g.mHres.mHr.getLsbD 7 with
      | false => simp
      | true => simp only [h7 hbit, Bool.or_true]
    · simp [BitVec.getLsbD_of_ge g.mHres.mHr (i - 16) (by omega)]

/-! ## The mode over a run -/

/-- The fields of the mode hold what the last mode word `d8` since the last reset set, or what the
reset or the constructor did. -/
structure ShowsMode (g : Gpu) (d8 : Option Word) (reset : Bool) : Prop where
  hres : g.mHres = ⟨HorizontalRes.fromFields ((d8.getD 0 &&& 3).setWidth 8)
    (((d8.getD 0 >>> 6) &&& 1).setWidth 8)⟩
  vmode : g.mVmode = if (d8.getD 0).getLsbD 0 then .pal else .ntsc
  depth : g.mDisplayDepth = if (d8.getD 1).getLsbD 0 then .d15Bits else .d24Bits
  interlaced : g.mInterlaced = d8.elim reset (·.getLsbD 0)

def ShowsEvents (g : Gpu) (es : List Event) : Prop :=
  g.ShowsMode (lastControl 8 es) (es.any Event.isReset)

/-- Handlers are no control words. -/
theorem control_executed (es : List Event) (calls : List (Gp0Method × List Word)) :
    lastControl 8 (es ++ calls.map fun call => .executed call.1 call.2) = lastControl 8 es ∧
      (es ++ calls.map fun call => Event.executed call.1 call.2).any Event.isReset =
        es.any Event.isReset := by
  induction calls generalizing es with
  | nil => simp
  | cons call calls ih =>
    obtain ⟨hlast, hreset⟩ := ih (es ++ [.executed call.1 call.2])
    rw [List.map_cons, List.append_cons, hlast, hreset, lastControl_concat_executed]
    exact ⟨rfl, by simp [Event.isReset]⟩

/-- Nor do they touch the fields of the mode. -/
theorem ShowsEvents.gp0 {g g' : Gpu} {es : List Event} {p : Parser} {val : Word}
    (h : g.ShowsEvents es) (hport : g.gp0 val = .ok g') :
    g'.ShowsEvents (es ++ (p.write (.gp0 val)).2) := by
  have hdisplay := gp0_displayState hport
  have hfields : g'.mHres = g.mHres ∧ g'.mVmode = g.mVmode ∧
      g'.mDisplayDepth = g.mDisplayDepth ∧ g'.mInterlaced = g.mInterlaced :=
    ⟨congrArg DisplayState.mHres hdisplay, congrArg DisplayState.mVmode hdisplay,
      congrArg DisplayState.mDisplayDepth hdisplay, congrArg DisplayState.mInterlaced hdisplay⟩
  obtain ⟨hhres, hvmode, hdepth, hinterlaced⟩ := hfields
  obtain ⟨hlast, hreset⟩ := control_executed es (p.gp0 val).2
  change g'.ShowsMode (lastControl 8 (es ++ (p.gp0 val).2.map fun call => .executed call.1 call.2))
    ((es ++ (p.gp0 val).2.map fun call => Event.executed call.1 call.2).any Event.isReset)
  rw [hlast, hreset]
  exact ⟨hhres.trans h.hres, hvmode.trans h.vmode, hdepth.trans h.depth,
    hinterlaced.trans h.interlaced⟩

theorem showsMode_withMode (g : Gpu) (v : Word) (reset : Bool) :
    (g.withMode v).ShowsMode (some v) reset := ⟨rfl, rfl, rfl, rfl⟩

theorem ShowsEvents.gp1 {g g' : Gpu} {es : List Event} {val : Word} (h : g.ShowsEvents es)
    (hport : g.gp1 val = .ok g') : g'.ShowsEvents (es ++ [.control val]) := by
  have hreset : (es ++ [Event.control val]).any Event.isReset =
      (es.any Event.isReset || val.toNat / 2 ^ 24 == 0) := by
    simp [Event.isReset]
  rw [ShowsEvents, lastControl_concat_control, hreset]
  have hobeys := (gp1_iff g val).mp ⟨g', hport⟩
  by_cases h8 : val.toNat / 2 ^ 24 = 8
  · have h7 : val.getLsbD 7 = false := by
      rw [obeysGp1, h8] at hobeys
      simpa using hobeys
    rw [gp1_displayMode g h8 h7] at hport
    cases hport
    rw [if_neg (by omega), if_pos h8]
    exact showsMode_withMode g val _
  · rw [if_neg h8]
    have hop := opcode_toNat val
    simp only [Gpu.gp1] at hport
    split at hport
    case h_1 heq =>
      cases hport
      rw [if_pos (hop.symm.trans heq), hop.symm.trans heq]
      exact ⟨rfl, rfl, rfl, (Bool.or_true _).symm⟩
    case h_5 heq =>
      cases hport
      have h0 : val.toNat / 2 ^ 24 ≠ 0 := by omega
      rw [if_neg h0, beq_eq_false_iff_ne.mpr h0, Bool.or_false, gp1DmaDirection_frame]
      exact ⟨h.hres, h.vmode, h.depth, h.interlaced⟩
    case h_9 heq => exact absurd (hop.symm.trans heq) h8
    case h_10 => cases hport
    all_goals
      next heq =>
        cases hport
        have h0 : val.toNat / 2 ^ 24 ≠ 0 := by omega
        rw [if_neg h0, beq_eq_false_iff_ne.mpr h0, Bool.or_false]
        exact ⟨h.hres, h.vmode, h.depth, h.interlaced⟩

/-- **Run lemma.** -/
theorem showsEvents_run {ws : List PortWrite} {g : Gpu} (h : new.run ws = .ok g) :
    g.ShowsEvents (Parser.idle.events ws) := by
  have hnew : new.ShowsEvents [] := ⟨rfl, rfl, rfl, rfl⟩
  refine parses_new.run_keeps (P := ShowsEvents) ?_ hnew h
  intro g g' p es w hes _ hw
  cases w with
  | gp0 val => exact hes.gp0 hw
  | gp1 val => exact hes.gp1 hw

/-- The bits of the status word `s` that show the mode. -/
structure ModeBits (s : Word) (d8 : Option Word) (reset : Bool) : Prop where
  hr2 : s.getLsbD 16 = (d8.getD 0).getLsbD 6
  hr1 : ∀ i < 2, s.getLsbD (17 + i) = (d8.getD 0).getLsbD i
  pal : s.getLsbD 20 = (d8.getD 0).getLsbD 0
  depth : s.getLsbD 21 = !(d8.getD 1).getLsbD 0
  interlace : s.getLsbD 22 = d8.elim reset (·.getLsbD 0)

theorem ShowsMode.modeBits {g : Gpu} {d8 : Option Word} {reset : Bool}
    (h : g.ShowsMode d8 reset) : ModeBits g.status d8 reset := by
  have hpal : ((if (d8.getD 0).getLsbD 0 then VMode.pal else .ntsc) == VMode.pal) =
      (d8.getD 0).getLsbD 0 := by
    cases (d8.getD 0).getLsbD 0 <;> rfl
  have hdepth : ((if (d8.getD 1).getLsbD 0 then DisplayDepth.d15Bits else .d24Bits) ==
      DisplayDepth.d24Bits) = !(d8.getD 1).getLsbD 0 := by
    cases (d8.getD 1).getLsbD 0 <;> rfl
  have hbit : ∀ {i}, 16 ≤ i → i < 23 → g.status.getLsbD i = _ := fun hle hlt =>
    getLsbD_status_mode g hle hlt
  simp only [h.hres, getLsbD_fromFields, h.vmode, hpal, h.depth, hdepth, h.interlaced] at hbit
  constructor
  · rw [hbit (by decide) (by decide)]
    simp
  · intro i hi
    obtain rfl | rfl : i = 0 ∨ i = 1 := by omega
    · rw [hbit (by decide) (by decide)]
      simp
    · rw [hbit (by decide) (by decide)]
      simp
  · rw [hbit (by decide) (by decide)]
    simp
  · rw [hbit (by decide) (by decide)]
    simp
  · rw [hbit (by decide) (by decide)]
    simp

/-- In every reachable state the resolution is in its place. -/
theorem Reachable.hresInPlace {g : Gpu} (h : Reachable g) : g.HresInPlace := by
  obtain ⟨ws, hrun⟩ := exists_run_of_reachable h
  exact hresInPlace_of_fromFields (showsEvents_run hrun).hres

/-! ## What the command is to do -/

/-- What `GP1(0x08)` with the word `v` is to do to the state `g`. -/
structure ModeSet (g : Gpu) (v : Word) (g' : Gpu) : Prop where
  hr1 : ∀ i < 2, g'.status.getLsbD (17 + i) = v.getLsbD i
  hr2 : g'.status.getLsbD 16 = v.getLsbD 6
  pal : g'.status.getLsbD 20 = v.getLsbD 3
  depth : g'.status.getLsbD 21 = v.getLsbD 4
  interlace : g'.status.getLsbD 22 = v.getLsbD 5
  lines : g'.mVres = .y480Lines ↔ v.getLsbD 2 = true
  others : ∀ i < 32, ¬ IsModeBit i → g'.status.getLsbD i = g.status.getLsbD i
  frame : g' = { g with
    mHres := g'.mHres
    mVres := g'.mVres
    mVmode := g'.mVmode
    mDisplayDepth := g'.mDisplayDepth
    mInterlaced := g'.mInterlaced }

/-- A word whose flags agree with bit 0, from which they are all decoded. -/
def FlagsFollowBitZero (v : Word) : Prop :=
  v.getLsbD 2 = v.getLsbD 0 ∧ v.getLsbD 3 = v.getLsbD 0 ∧ v.getLsbD 5 = v.getLsbD 0 ∧
    v.getLsbD 4 = !v.getLsbD 0

theorem modeSet_withMode_iff (g : Gpu) (v : Word) :
    ModeSet g v (g.withMode v) ↔ FlagsFollowBitZero v ∧ g.HresInPlace := by
  have hbit := fun {i : Nat} (hle : 16 ≤ i) (hlt : i < 23) => getLsbD_status_withMode g v hle hlt
  have h16 := hbit (i := 16) (by decide) (by decide)
  have h17 := hbit (i := 17) (by decide) (by decide)
  have h18 := hbit (i := 18) (by decide) (by decide)
  have h20 := hbit (i := 20) (by decide) (by decide)
  have h21 := hbit (i := 21) (by decide) (by decide)
  have h22 := hbit (i := 22) (by decide) (by decide)
  simp only [Nat.reduceEqDiff, decide_true, decide_false, Bool.true_and, Bool.false_and,
    Bool.or_false, Bool.false_or] at h16 h17 h18 h20 h21 h22
  have hlines : ((g.withMode v).mVres = .y480Lines) ↔ v.getLsbD 0 = true := by
    simp only [withMode]
    cases v.getLsbD 0 <;> simp
  constructor
  · intro h
    refine ⟨⟨?_, ?_, ?_, ?_⟩, (status_other_iff g v).mp h.others⟩
    · exact Bool.eq_iff_iff.mpr (h.lines.symm.trans hlines)
    · exact h.pal.symm.trans h20
    · exact h.interlace.symm.trans h22
    · exact h.depth.symm.trans h21
  · rintro ⟨⟨h2, h3, h5, h4⟩, hplace⟩
    exact {
      hr1 := by
        intro i hi
        have hcases : i = 0 ∨ i = 1 := by omega
        rcases hcases with rfl | rfl
        · exact h17
        · exact h18
      hr2 := h16
      pal := h20.trans h3.symm
      depth := h21.trans h4.symm
      interlace := h22.trans h5.symm
      lines := by rw [hlines, h2]
      others := (status_other_iff g v).mpr hplace
      frame := rfl }

/-- **The command sets the display mode exactly when** the flags of the word agree with bit 0. -/
theorem gp1_setsMode_iff (g : Gpu) (v : Word) (hop : v.toNat / 2 ^ 24 = 8)
    (h7 : v.getLsbD 7 = false) :
    (∃ g', g.gp1 v = .ok g' ∧ ModeSet g v g') ↔ FlagsFollowBitZero v ∧ g.HresInPlace := by
  rw [gp1_displayMode g hop h7, ← modeSet_withMode_iff g v]
  constructor
  · rintro ⟨g', hret, hset⟩
    cases hret
    exact hset
  · intro hset
    exact ⟨g.withMode v, rfl, hset⟩

/-- In the states of a run only the flags matter. -/
theorem Reachable.setsMode_iff {g : Gpu} (h : Reachable g) {v : Word}
    (hop : v.toNat / 2 ^ 24 = 8) (h7 : v.getLsbD 7 = false) :
    (∃ g', g.gp1 v = .ok g' ∧ ModeSet g v g') ↔ FlagsFollowBitZero v := by
  have hmode : ModeSet g v (g.withMode v) ↔ FlagsFollowBitZero v :=
    (modeSet_withMode_iff g v).trans (and_iff_left h.hresInPlace)
  rw [gp1_displayMode g hop h7, ← hmode]
  constructor
  · rintro ⟨g', hret, hset⟩
    cases hret
    exact hset
  · exact fun hset => ⟨_, rfl, hset⟩

/-- The word that selects 24 bits and nothing else. -/
theorem gp1_setsMode_24Bits :
    ∃ g', new.gp1 0x08000010 = .ok g' ∧ ModeSet new 0x08000010 g' :=
  (gp1_setsMode_iff new 0x08000010 (by decide) (by decide)).mpr
    ⟨⟨by decide, by decide, by decide, by decide⟩, by decide, by decide⟩

/-- The word that selects PAL leaves the video mode NTSC. -/
theorem gp1_pal_not_set :
    ¬ ∀ (g : Gpu) (v : Word), v.toNat / 2 ^ 24 = 8 → v.getLsbD 7 = false →
      ∃ g', g.gp1 v = .ok g' ∧ ModeSet g v g' := by
  intro h
  obtain ⟨g', hret, hset⟩ := h new 0x08000008 (by decide) (by decide)
  rw [gp1_displayMode new (by decide) (by decide)] at hret
  cases hret
  have hflags := ((modeSet_withMode_iff new 0x08000008).mp hset).1
  exact absurd hflags.2.1 (by decide)

end Gpu

end CppStation
