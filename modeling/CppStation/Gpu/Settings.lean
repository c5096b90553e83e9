import CppStation.Gpu.StatusRegister

/-!
# The settings that GPUSTAT does not show

The texture window, the drawing area and offset, the texture flips and the
display area have no read port.  `Registers` holds them with the widths of the
hardware; after any writes they are those of the last command or GP1 word of
their kind since the last reset.
-/

namespace CppStation

open Fallible

namespace Gpu

/-! ## The registers -/

structure Registers where
  rectangleFlips : Bool × Bool
  windowMask : BitVec 5 × BitVec 5
  windowOffset : BitVec 5 × BitVec 5
  areaTopLeft : BitVec 10 × BitVec 10
  areaBottomRight : BitVec 10 × BitVec 10
  /-- 11-bit numbers with sign. -/
  drawingOffset : BitVec 11 × BitVec 11
  /-- The first is in steps of two pixels. -/
  vramStart : BitVec 9 × BitVec 9
  horizontalRange : BitVec 12 × BitVec 12
  verticalRange : BitVec 10 × BitVec 10

namespace Registers

/-- Two adjacent fields of `k` bits, the first at bit `n`. -/
def pair (w : Word) (n k : Nat) : BitVec k × BitVec k :=
  (w.extractLsb' n k, w.extractLsb' (n + k) k)

/-- The values after a reset. -/
def initial : Registers where
  rectangleFlips := (false, false)
  windowMask := (0, 0)
  windowOffset := (0, 0)
  areaTopLeft := (0, 0)
  areaBottomRight := (0, 0)
  drawingOffset := (0, 0)
  vramStart := (0, 0)
  horizontalRange := (0x200, 0xc00)
  verticalRange := (0x10, 0x100)

/-- The registers after a command whose first word is `w`. -/
def execute (r : Registers) (w : Word) : Gp0Method → Registers
  | .gp0DrawMode => { r with rectangleFlips := (w.getLsbD 12, w.getLsbD 13) }
  | .gp0TextureWindow => { r with windowMask := pair w 0 5, windowOffset := pair w 10 5 }
  | .gp0DrawingAreaTopLeft => { r with areaTopLeft := pair w 0 10 }
  | .gp0DrawingAreaBottomRight => { r with areaBottomRight := pair w 0 10 }
  | .gp0DrawingOffset => { r with drawingOffset := pair w 0 11 }
  | _ => r

/-- The registers after a GP1 word. -/
def obey (r : Registers) (w : Word) : Registers :=
  match w.toNat / 2 ^ 24 with
  | 0 => initial
  | 5 => { r with vramStart := pair w 1 9 }
  | 6 => { r with horizontalRange := pair w 0 12 }
  | 7 => { r with verticalRange := pair w 0 10 }
  | _ => r

/-- The registers by their last writers. -/
def reflecting (es : List Event) : Registers where
  rectangleFlips :=
    ((lastCommand 0xe1 es).map fun w => (w.getLsbD 12, w.getLsbD 13)).getD initial.rectangleFlips
  windowMask := ((lastCommand 0xe2 es).map (pair · 0 5)).getD initial.windowMask
  windowOffset := ((lastCommand 0xe2 es).map (pair · 10 5)).getD initial.windowOffset
  areaTopLeft := ((lastCommand 0xe3 es).map (pair · 0 10)).getD initial.areaTopLeft
  areaBottomRight := ((lastCommand 0xe4 es).map (pair · 0 10)).getD initial.areaBottomRight
  drawingOffset := ((lastCommand 0xe5 es).map (pair · 0 11)).getD initial.drawingOffset
  vramStart := ((lastControl 5 es).map (pair · 1 9)).getD initial.vramStart
  horizontalRange := ((lastControl 6 es).map (pair · 0 12)).getD initial.horizontalRange
  verticalRange := ((lastControl 7 es).map (pair · 0 10)).getD initial.verticalRange

end Registers

/-- The fields of the GPU hold these registers. -/
structure Configured (g : Gpu) (r : Registers) : Prop where
  rectangleFlips : (g.mRectangleTextureXFlip, g.mRectangleTextureYFlip) = r.rectangleFlips
  windowXMask : g.mTextureWindowXMask = r.windowMask.1.setWidth 8
  windowYMask : g.mTextureWindowYMask = r.windowMask.2.setWidth 8
  windowXOffset : g.mTextureWindowXOffset = r.windowOffset.1.setWidth 8
  windowYOffset : g.mTextureWindowYOffset = r.windowOffset.2.setWidth 8
  areaLeft : g.mDrawingAreaLeft = r.areaTopLeft.1.setWidth 16
  areaTop : g.mDrawingAreaTop = r.areaTopLeft.2.setWidth 16
  areaRight : g.mDrawingAreaRight = r.areaBottomRight.1.setWidth 16
  areaBottom : g.mDrawingAreaBottom = r.areaBottomRight.2.setWidth 16
  xOffset : g.mDrawingXOffset.toInt = r.drawingOffset.1.toInt
  yOffset : g.mDrawingYOffset.toInt = r.drawingOffset.2.toInt
  vramXStart : g.mDisplayVramXStart.toNat = 2 * r.vramStart.1.toNat
  vramYStart : g.mDisplayVramYStart = r.vramStart.2.setWidth 16
  horizStart : g.mDisplayHorizStart = r.horizontalRange.1.setWidth 16
  horizEnd : g.mDisplayHorizEnd = r.horizontalRange.2.setWidth 16
  lineStart : g.mDisplayLineStart = r.verticalRange.1.setWidth 16
  lineEnd : g.mDisplayLineEnd = r.verticalRange.2.setWidth 16

theorem configured_new : new.Configured .initial :=
  ⟨rfl, rfl, rfl, rfl, rfl, rfl, rfl, rfl, rfl, rfl, rfl, rfl, rfl, rfl, rfl, rfl, rfl⟩

theorem configured_reset (g : Gpu) (val : Word) : (g.gp1Reset val).Configured .initial :=
  ⟨rfl, rfl, rfl, rfl, rfl, rfl, rfl, rfl, rfl, rfl, rfl, rfl, rfl, rfl, rfl, rfl, rfl⟩

theorem Configured.withPort {g : Gpu} {r : Registers} (h : g.Configured r) (s : PortState) :
    (g.withPort s).Configured r := { h with }

/-! ## Fields of a word -/

/-- A field of `k` bits, cut out by a mask. -/
theorem field_eq (x : Word) (n : Nat) {k v : Nat} (hk : k ≤ 32) :
    ((x >>> n) &&& BitVec.ofNat 32 (2 ^ k - 1)).setWidth v = (x.extractLsb' n k).setWidth v := by
  apply BitVec.eq_of_getLsbD_eq
  intro i hi
  rw [BitVec.getLsbD_setWidth, BitVec.getLsbD_setWidth, Bits.getLsbD_field x hk,
    BitVec.getLsbD_extractLsb']

theorem lowField_eq (x : Word) {k v : Nat} (hk : k ≤ 32) :
    (x &&& BitVec.ofNat 32 (2 ^ k - 1)).setWidth v = (x.extractLsb' 0 k).setWidth v := by
  have h := field_eq x 0 (v := v) hk
  rwa [BitVec.ushiftRight_zero] at h

/-- Shifting left and back extends the sign of an 11-bit field. -/
theorem signedField_eq (y : BitVec 11) :
    (((y.setWidth 16 : Half) <<< 5).sshiftRight 5).toInt = y.toInt := by
  have hext : ((y.setWidth 16 : Half) <<< 5).sshiftRight 5 = y.signExtend 16 := by
    apply BitVec.eq_of_getLsbD_eq
    intro i hi
    rw [BitVec.getLsbD_sshiftRight, BitVec.getLsbD_signExtend, BitVec.msb_eq_getLsbD_last,
      BitVec.msb_eq_getLsbD_last]
    simp only [BitVec.getLsbD_shiftLeft, BitVec.getLsbD_setWidth]
    by_cases hlow : i < 11
    · simp [hi, hlow, show 5 + i < 16 by omega, show ¬ 16 ≤ i by omega]
    · simp [hi, hlow, show ¬ 5 + i < 16 by omega, show ¬ 16 ≤ i by omega]
  rw [hext, BitVec.toInt_signExtend_of_le (by decide)]

theorem signedField_of {x : Half} {y : BitVec 11} (h : x = y.setWidth 16) :
    ((x <<< 5).sshiftRight 5).toInt = y.toInt := by
  rw [h, signedField_eq]

theorem flag_eq (x : Word) (n : Nat) : (((x >>> n) &&& 1) != 0) = x.getLsbD n := by
  have h := truth_and_one (x >>> n)
  rwa [BitVec.getLsbD_ushiftRight] at h

/-- A mask without the low bit. -/
theorem evenField_eq (x : Word) :
    ((x &&& 0x3fe).setWidth 16 : Half).toNat = 2 * (x.extractLsb' 1 9).toNat := by
  have hmask : (x &&& 0x3fe).toNat = x.toNat / 2 ^ 1 % 2 ^ 9 * 2 ^ 1 :=
    Bits.toNat_and_shiftedMask x (j := 1) (k := 9) (by decide)
  rw [BitVec.toNat_setWidth, hmask, BitVec.extractLsb'_toNat, Nat.shiftRight_eq_div_pow]
  omega

/-! ## One event -/

/-- **A handler** changes the registers of its command. -/
theorem Configured.call {g g' : Gpu} {k : Gp0Method} {r : Registers} (h : g.Configured r)
    (hcall : g.call k = .ok g') :
    g'.Configured (r.execute (g.mGp0Command.get 0) k) := by
  cases k
  case gp0DrawMode =>
    rw [Gpu.call, gp0DrawMode_eq] at hcall
    obtain ⟨depth, -, hret⟩ := bind_eq_ok.mp hcall
    cases hret
    exact { h with
      rectangleFlips := Prod.ext (flag_eq _ 12) (flag_eq _ 13) }
  case gp0TextureWindow =>
    cases hcall
    exact { h with
      windowXMask := lowField_eq (k := 5) _ (by decide)
      windowYMask := field_eq (k := 5) _ 5 (by decide)
      windowXOffset := field_eq (k := 5) _ 10 (by decide)
      windowYOffset := field_eq (k := 5) _ 15 (by decide) }
  case gp0DrawingAreaTopLeft =>
    cases hcall
    exact { h with
      areaLeft := lowField_eq (k := 10) _ (by decide)
      areaTop := field_eq (k := 10) _ 10 (by decide) }
  case gp0DrawingAreaBottomRight =>
    cases hcall
    exact { h with
      areaRight := lowField_eq (k := 10) _ (by decide)
      areaBottom := field_eq (k := 10) _ 10 (by decide) }
  case gp0DrawingOffset =>
    cases hcall
    exact { h with
      xOffset := signedField_of (lowField_eq (k := 11) _ (by decide))
      yOffset := signedField_of (field_eq (k := 11) _ 11 (by decide)) }
  case gp0QuadMonoOpaque | gp0QuadTextureBlendOpaque | gp0TriangleShadedOpaque |
      gp0QuadShadedOpaque =>
    obtain ⟨_, _, hret⟩ := bind_eq_ok.mp hcall
    cases hret
    exact { h with }
  all_goals
    cases hcall
    exact { h with }

/-- **A GP1 word** changes the registers of its opcode. -/
theorem Configured.gp1 {g g' : Gpu} {val : Word} {r : Registers} (h : g.Configured r)
    (hport : g.gp1 val = .ok g') : g'.Configured (r.obey val) := by
  unfold Registers.obey
  rw [← opcode_toNat]
  simp only [Gpu.gp1] at hport
  split at hport
  case h_1 heq =>
    cases hport
    rw [heq]
    exact configured_reset g val
  case h_5 heq =>
    cases hport
    rw [heq, gp1DmaDirection_frame]
    exact { h with }
  case h_6 heq =>
    cases hport
    rw [heq]
    exact { h with
      vramXStart := evenField_eq val
      vramYStart := field_eq (k := 9) val 10 (by decide) }
  case h_7 heq =>
    cases hport
    rw [heq]
    exact { h with
      horizStart := lowField_eq (k := 12) val (by decide)
      horizEnd := field_eq (k := 12) val 12 (by decide) }
  case h_8 heq =>
    cases hport
    rw [heq]
    exact { h with
      lineStart := lowField_eq (k := 10) val (by decide)
      lineEnd := field_eq (k := 10) val 10 (by decide) }
  case h_9 heq =>
    rw [heq]
    by_cases hmode : val &&& 0x80 ≠ 0
    · rw [gp1DisplayMode, if_pos hmode] at hport
      cases hport
    · rw [gp1DisplayMode, if_neg hmode] at hport
      cases hport
      exact { h with }
  case h_10 => cases hport
  all_goals
    next heq =>
      cases hport
      rw [heq]
      exact { h with }

/-! ## The last writers -/

/-- The executed command is the last writer of its kind. -/
theorem lastCommand_concat_executed {k k' : Gp0Method} {w : Word} {params : List Word}
    {n op m : Nat} (hheader : gp0Format.header w = some (n, k)) (hmem : (op, m, k') ∈ gp0Commands)
    (es : List Event) :
    lastCommand op (es ++ [.executed k (w :: params)]) =
      if k = k' then some w else lastCommand op es := by
  have hop := opcode_iff hheader hmem
  rw [lastCommand_concat, if_neg (by exact Bool.false_ne_true), Event.command?, List.head?_cons,
    Option.filter_some]
  by_cases hk : k = k'
  · rw [if_pos hk, if_pos (beq_iff_eq.mpr (hop.mpr hk))]
    rfl
  · rw [if_neg hk, if_neg fun h => hk (hop.mp (beq_iff_eq.mp h))]
    rfl

theorem lastControl_concat_executed (op : Nat) (es : List Event) (k : Gp0Method) (cmd : List Word) :
    lastControl op (es ++ [.executed k cmd]) = lastControl op es := by
  rw [lastControl_concat, if_neg (by exact Bool.false_ne_true)]
  rfl

theorem reflecting_executed {k : Gp0Method} {w : Word} {params : List Word} {n : Nat}
    (hheader : gp0Format.header w = some (n, k)) (es : List Event) :
    Registers.reflecting (es ++ [.executed k (w :: params)]) =
      (Registers.reflecting es).execute w k := by
  have hlast : ∀ entry ∈ gp0Commands, lastCommand entry.1 (es ++ [.executed k (w :: params)]) =
      if k = entry.2.2 then some w else lastCommand entry.1 es := fun entry hentry =>
    lastCommand_concat_executed hheader hentry es
  have h1 := hlast (0xe1, 1, .gp0DrawMode) (by decide)
  have h2 := hlast (0xe2, 1, .gp0TextureWindow) (by decide)
  have h3 := hlast (0xe3, 1, .gp0DrawingAreaTopLeft) (by decide)
  have h4 := hlast (0xe4, 1, .gp0DrawingAreaBottomRight) (by decide)
  have h5 := hlast (0xe5, 1, .gp0DrawingOffset) (by decide)
  simp only [Registers.reflecting, h1, h2, h3, h4, h5, lastControl_concat_executed]
  cases k <;> rfl

theorem lastCommand_concat_control (op : Nat) (es : List Event) (val : Word) :
    lastCommand op (es ++ [.control val]) =
      if val.toNat / 2 ^ 24 = 0 then none else lastCommand op es := by
  rw [lastCommand_concat, Event.command?, Option.none_or]
  exact if_congr beq_iff_eq rfl rfl

theorem lastControl_concat_control (op : Nat) (es : List Event) (val : Word) :
    lastControl op (es ++ [.control val]) =
      if val.toNat / 2 ^ 24 = 0 then none
      else if val.toNat / 2 ^ 24 = op then some val else lastControl op es := by
  rw [lastControl_concat, Event.control?]
  refine if_congr beq_iff_eq rfl ?_
  split <;> rfl

theorem reflecting_control (val : Word) (es : List Event) :
    Registers.reflecting (es ++ [.control val]) = (Registers.reflecting es).obey val := by
  simp only [Registers.reflecting, lastCommand_concat_control, lastControl_concat_control,
    Registers.obey]
  generalize val.toNat / 2 ^ 24 = op
  by_cases h0 : op = 0
  · subst h0
    rfl
  by_cases h5 : op = 5
  · subst h5
    rfl
  by_cases h6 : op = 6
  · subst h6
    rfl
  by_cases h7 : op = 7
  · subst h7
    rfl
  · simp only [if_neg h0, if_neg h5, if_neg h6, if_neg h7]

/-! ## Runs -/

/-- A GP0 word only moves the port, or completes a command and runs its handler. -/
theorem Parses.gp0_completes {g g' : Gpu} {p : Parser} {val : Word} (hp : g.Parses p)
    (hport : g.gp0 val = .ok g') :
    ∃ s, (g' = g.withPort s ∧ (p.gp0 val).2 = []) ∨
      ∃ cmd, FullLength s.mGp0CommandMethod cmd ∧ (g.withPort s).mGp0Command.Holds cmd ∧
        (g.withPort s).call s.mGp0CommandMethod = .ok g' ∧
        (p.gp0 val).2 = [(s.mGp0CommandMethod, cmd)] := by
  have hhandled := (hp.gp0 hport).2
  obtain ⟨s, ⟨rfl, hsame⟩ | ⟨hd, hmore⟩⟩ := gp0_step hport
  · refine ⟨s, .inl ⟨rfl, ?_⟩⟩
    have heq : g.handled ++ [] = g.handled ++ (p.gp0 val).2 := by
      rw [← hhandled, List.append_nil]
      exact hsame.symm
    exact (List.append_cancel_left heq).symm
  · obtain ⟨cmd, hfull, hholds, -⟩ := hp.dispatches hd
    have hcall : (g.withPort s).call s.mGp0CommandMethod = .ok g' :=
      hd.gp0_eq_call.symm.trans hport
    have hcalled := called_of_call (g := g.withPort s) hp.fits hcall
    refine ⟨s, .inr ⟨cmd, hfull, hholds, hcall, ?_⟩⟩
    have heq : g.handled ++ [(s.mGp0CommandMethod, cmd)] = g.handled ++ (p.gp0 val).2 := by
      rw [← hhandled, hcalled.handled, ← hholds.words]
      exact hmore.symm
    exact (List.append_cancel_left heq).symm

/-- **Step lemma.** -/
theorem Configured.write {g g' : Gpu} {p : Parser} {es : List Event} {w : PortWrite}
    (h : g.Configured (.reflecting es)) (hp : g.Parses p) (hw : g.write w = .ok g') :
    g'.Configured (.reflecting (es ++ (p.write w).2)) := by
  cases w with
  | gp1 val =>
    change g'.Configured (.reflecting (es ++ [.control val]))
    rw [reflecting_control]
    exact h.gp1 hw
  | gp0 val =>
    change g'.Configured
      (.reflecting (es ++ (p.gp0 val).2.map fun call => .executed call.1 call.2))
    obtain ⟨s, ⟨rfl, hnone⟩ | ⟨cmd, hfull, hholds, hcall, hone⟩⟩ := hp.gp0_completes hw
    · rw [hnone, List.map_nil, List.append_nil]
      exact h.withPort s
    · obtain ⟨w, params, rfl, hheader⟩ := hfull
      have hget : some w = some ((g.withPort s).mGp0Command.get 0) :=
        hholds.get (i := 0) (Nat.succ_pos _)
      rw [hone, List.map_singleton, reflecting_executed hheader, Option.some.inj hget]
      exact (h.withPort s).call hcall

/-- **The settings are those of their last writers**: after any run from a constructed GPU, every
register holds the bits of the last command or GP1 word of its kind since the last reset. -/
theorem settings_reflect {ws : List PortWrite} {g : Gpu} (h : new.run ws = .ok g) :
    g.Configured (.reflecting (Parser.idle.events ws)) := by
  have hnew : new.Configured (.reflecting []) := configured_new
  exact parses_new.run_keeps (P := fun g es => g.Configured (.reflecting es)) Configured.write
    hnew h

/-- A negative drawing offset, and an image word that looks like a drawing offset. -/
theorem settings_reflect_offset :
    ∃ g, new.run [.gp0 0xe50007ff, .gp0 0xa0000000, .gp0 0, .gp0 0x00010002, .gp0 0xe5000001,
        .gp1 0x06c00200] = .ok g ∧ g.mDrawingXOffset.toInt = -1 ∧ g.mDisplayHorizEnd = 0xc00 := by
  have hrun : okAnd (new.run [.gp0 0xe50007ff, .gp0 0xa0000000, .gp0 0, .gp0 0x00010002,
      .gp0 0xe5000001, .gp1 0x06c00200]) (fun _ => true) = true := by decide +kernel
  obtain ⟨g, hg, -⟩ := exists_of_okAnd hrun
  have hsettings := settings_reflect hg
  exact ⟨g, hg, hsettings.xOffset, hsettings.horizEnd⟩

end Gpu

end CppStation
