import CppStation.Gpu.Acceptance
import CppStation.Gpu.Settings

/-!
# What a program sees of the GPU

A program reads `status` and learns whether the GPU takes a word.  Two states
that agree on the fields that `status` reads and on the state of the parser
stay so under the same writes: the renderer, the drawing settings and the
display area are never seen.
-/

namespace CppStation

open Fallible Register

namespace Gpu

/-- The fields that `status` reads. -/
structure Visible where
  mPageBaseX : Byte
  mPageBaseY : Byte
  mSemiTransparency : Byte
  mTextureDepth : TextureDepth
  mDithering : Bool
  mDrawToDisplay : Bool
  mForceSetMaskBit : Bool
  mPreserveMaskedPixels : Bool
  mField : Field
  mTextureDisable : Bool
  mHres : HorizontalRes
  mVmode : VMode
  mDisplayDepth : DisplayDepth
  mInterlaced : Bool
  mDisplayDisabled : Bool
  mInterrupt : Bool
  mDmaDirection : DmaDirection
  deriving DecidableEq

def visible (g : Gpu) : Visible where
  mPageBaseX := g.mPageBaseX
  mPageBaseY := g.mPageBaseY
  mSemiTransparency := g.mSemiTransparency
  mTextureDepth := g.mTextureDepth
  mDithering := g.mDithering
  mDrawToDisplay := g.mDrawToDisplay
  mForceSetMaskBit := g.mForceSetMaskBit
  mPreserveMaskedPixels := g.mPreserveMaskedPixels
  mField := g.mField
  mTextureDisable := g.mTextureDisable
  mHres := g.mHres
  mVmode := g.mVmode
  mDisplayDepth := g.mDisplayDepth
  mInterlaced := g.mInterlaced
  mDisplayDisabled := g.mDisplayDisabled
  mInterrupt := g.mInterrupt
  mDmaDirection := g.mDmaDirection

section

variable {g g' d d' : Gpu}

theorem status_of_visible (h : g'.visible = g.visible) : g'.status = g.status := by
  simp only [visible, Visible.mk.injEq] at h
  simp only [status, h]

theorem setWidth_inj {x y : Byte} (h : (x.setWidth 32 : Word) = y.setWidth 32) : x = y := by
  have hback := congrArg (BitVec.setWidth 8) h
  simpa only [BitVec.setWidth_setWidth_of_le _ (show 8 ≤ 32 by decide), BitVec.setWidth_eq]
    using hback

theorem ofBool_inj {a b : Bool} (h : ofBool a = ofBool b) : a = b := by
  revert a b
  decide

theorem TextureDepth.toWord_inj {a b : TextureDepth} (h : a.toWord = b.toWord) : a = b := by
  cases a <;> cases b <;> first | rfl | cases h

theorem Field.toWord_inj {a b : Field} (h : a.toWord = b.toWord) : a = b := by
  cases a <;> cases b <;> first | rfl | cases h

theorem VMode.toWord_inj {a b : VMode} (h : a.toWord = b.toWord) : a = b := by
  cases a <;> cases b <;> first | rfl | cases h

theorem DisplayDepth.toWord_inj {a b : DisplayDepth} (h : a.toWord = b.toWord) : a = b := by
  cases a <;> cases b <;> first | rfl | cases h

theorem DmaDirection.toWord_inj {a b : DmaDirection} (h : a.toWord = b.toWord) : a = b := by
  cases a <;> cases b <;> first | rfl | cases h

theorem Reachable.narrow (h : g.Reachable) :
    ∀ p ∈ g.statusParts, Narrow p.value p.slot.width := by
  obtain ⟨ws, hrun⟩ := exists_run_of_reachable h
  have hnew : Gpu.new.ReflectsEvents [] := reflects_new
  exact Reflects.narrow (hnew.run parses_new hrun)

/-- **The status register shows all of it.** -/
theorem visible_of_status (h : g.Reachable) (h' : g'.Reachable) (hstatus : g'.status = g.status) :
    g'.visible = g.visible := by
  have hfits : ∀ s ∈ statusSlots, s.offset + s.width ≤ 32 := by decide
  have hparts : g'.statusParts = g.statusParts := by
    refine eq_of_pack_eq (g'.slots_statusParts.trans g.slots_statusParts.symm)
      (g.slots_statusParts ▸ statusSlots_apart) h.narrow h'.narrow (fun p hp => ?_) ?_
    · exact hfits p.slot (g.slots_statusParts ▸ List.mem_map_of_mem hp)
    · rw [← status_eq, ← status_eq, hstatus]
  simp only [statusParts, readyParts, List.cons_append, List.nil_append, List.cons.injEq,
    Register.Part.mk.injEq, true_and, and_true] at hparts
  obtain ⟨hx, hy, hsemi, hdepth, hdither, hdraw, hforce, hpreserve, hfield, htexture, hhres, hvmode,
    hdisplay, hinterlaced, hdisabled, hinterrupt, hdma, -⟩ := hparts
  have hmHres : g'.mHres = g.mHres := congrArg HorizontalRes.mk (setWidth_inj hhres)
  simp only [visible, setWidth_inj hx, setWidth_inj hy, setWidth_inj hsemi,
    TextureDepth.toWord_inj hdepth, ofBool_inj hdither, ofBool_inj hdraw, ofBool_inj hforce,
    ofBool_inj hpreserve, Field.toWord_inj hfield, ofBool_inj htexture, hmHres,
    VMode.toWord_inj hvmode, DisplayDepth.toWord_inj hdisplay, ofBool_inj hinterlaced,
    ofBool_inj hdisabled, ofBool_inj hinterrupt, DmaDirection.toWord_inj hdma]

/-! ## One event -/

/-- The handlers that change no visible field. -/
theorem visible_call {k : Gp0Method} (hmode : k ≠ .gp0DrawMode) (hmask : k ≠ .gp0MaskBitSetting)
    (hcall : g.call k = .ok d) : d.visible = g.visible := by
  cases k
  case gp0DrawMode => exact absurd rfl hmode
  case gp0MaskBitSetting => exact absurd rfl hmask
  case gp0QuadMonoOpaque | gp0QuadTextureBlendOpaque | gp0TriangleShadedOpaque |
      gp0QuadShadedOpaque =>
    obtain ⟨_, _, hret⟩ := bind_eq_ok.mp hcall
    cases hret
    rfl
  all_goals
    cases hcall
    rfl

/-- **A handler** on the same first word. -/
theorem call_visible {k : Gp0Method} (h : g'.visible = g.visible)
    (hget : g'.mGp0Command.get 0 = g.mGp0Command.get 0) (hcall : g.call k = .ok d)
    (hcall' : g'.call k = .ok d') : d'.visible = d.visible := by
  by_cases hmode : k = .gp0DrawMode
  · subst hmode
    rw [call, gp0DrawMode_eq] at hcall hcall'
    rw [hget] at hcall'
    obtain ⟨depth, hdepth, hret⟩ := bind_eq_ok.mp hcall
    obtain ⟨depth', hdepth', hret'⟩ := bind_eq_ok.mp hcall'
    obtain rfl := Except.ok.inj (hdepth.symm.trans hdepth')
    cases hret
    cases hret'
    simp only [visible, withDrawMode, Visible.mk.injEq] at h ⊢
    simp only [h, and_self]
  by_cases hmask : k = .gp0MaskBitSetting
  · subst hmask
    cases hcall
    cases hcall'
    simp only [visible, gp0MaskBitSetting, Visible.mk.injEq] at h ⊢
    simp only [h, hget, and_self]
  · rw [visible_call hmode hmask hcall, visible_call hmode hmask hcall', h]

theorem gp1DmaDirection_visible (val : Word) (h : g'.visible = g.visible) :
    (g'.gp1DmaDirection val).visible = (g.gp1DmaDirection val).visible := by
  unfold gp1DmaDirection
  split
  case h_5 => exact h
  all_goals
    simp only [visible, Visible.mk.injEq] at h ⊢
    simp only [h, and_self]

theorem gp1DisplayMode_visible {val : Word} (h : g'.visible = g.visible)
    (hmode : g.gp1DisplayMode val = .ok d) (hmode' : g'.gp1DisplayMode val = .ok d') :
    d'.visible = d.visible := by
  by_cases hflag : val &&& 0x80 ≠ 0
  · rw [gp1DisplayMode, if_pos hflag] at hmode
    cases hmode
  · rw [gp1DisplayMode, if_neg hflag] at hmode hmode'
    cases hmode
    cases hmode'
    simp only [visible, Visible.mk.injEq] at h ⊢
    simp only [h, and_self]

/-- **A GP1 word.** -/
theorem gp1_visible {val : Word} (h : g'.visible = g.visible) (hport : g.gp1 val = .ok d)
    (hport' : g'.gp1 val = .ok d') : d'.visible = d.visible := by
  simp only [gp1] at hport hport'
  split at hport
  case h_5 heq =>
    simp only [heq] at hport'
    cases hport
    cases hport'
    exact gp1DmaDirection_visible val h
  case h_9 heq =>
    simp only [heq] at hport'
    exact gp1DisplayMode_visible h hport hport'
  case h_10 => cases hport
  all_goals
    next heq =>
      simp only [heq] at hport'
      cases hport
      cases hport'
      simp only [visible, gp1Reset, gp1ResetCommandBuffer, gp1AcknowledgeIrq, gp1DisplayEnable,
        gp1DisplayVramStart, gp1DisplayHorizontalRange, gp1DisplayVerticalRange,
        Visible.mk.injEq] at h ⊢
      simp only [h, and_self]

/-! ## Runs -/

/-- **A word on a port.** -/
theorem write_visible {p : Parser} {w : PortWrite} (hp : g.Parses p) (hp' : g'.Parses p)
    (h : g'.visible = g.visible) (hw : g.write w = .ok d) (hw' : g'.write w = .ok d') :
    d'.visible = d.visible := by
  cases w with
  | gp1 val => exact gp1_visible h hw hw'
  | gp0 val =>
    obtain ⟨s, hs⟩ := hp.gp0_completes hw
    obtain ⟨s', hs'⟩ := hp'.gp0_completes hw'
    rcases hs with ⟨rfl, hnone⟩ | ⟨cmd, hfull, hholds, hcall, hone⟩
    · rcases hs' with ⟨rfl, -⟩ | ⟨_, _, _, _, hone'⟩
      · exact h
      · cases hnone.symm.trans hone'
    · rcases hs' with ⟨rfl, hnone'⟩ | ⟨cmd', hfull', hholds', hcall', hone'⟩
      · cases hnone'.symm.trans hone
      · obtain ⟨hmethod, rfl⟩ := Prod.mk.inj (List.singleton_inj.mp (hone.symm.trans hone'))
        rw [← hmethod] at hcall'
        obtain ⟨word, params, rfl, -⟩ := hfull
        have hget := hholds.get (i := 0) (Nat.succ_pos _)
        have hget' := hholds'.get (i := 0) (Nat.succ_pos _)
        refine call_visible ?_ (Option.some.inj (hget'.symm.trans hget)) hcall hcall'
        exact h

theorem Reachable.write {w : PortWrite} (h : g.Reachable) (hw : g.write w = .ok d) :
    d.Reachable := by
  cases w with
  | gp0 val => exact .gp0 h hw
  | gp1 val => exact .gp1 h hw

/-- No program can tell the two states apart. -/
structure Indistinct (g g' : Gpu) : Prop where
  reachable : g.Reachable
  reachable' : g'.Reachable
  parser : g'.parser = g.parser
  status : g'.status = g.status

theorem Indistinct.visible (h : g.Indistinct g') : g'.visible = g.visible :=
  visible_of_status h.reachable h.reachable' h.status

/-- **The same words are taken, and the states stay indistinct.** -/
theorem Indistinct.run {ws : List PortWrite} (h : g.Indistinct g') (hrun : g.run ws = .ok d) :
    ∃ d', g'.run ws = .ok d' ∧ d.Indistinct d' := by
  induction ws generalizing g g' with
  | nil =>
    cases hrun
    exact ⟨g', rfl, h⟩
  | cons w ws ih =>
    rw [Gpu.run, List.foldlM_cons] at hrun
    obtain ⟨g1, hw, hrest⟩ := bind_eq_ok.mp hrun
    have hp := h.reachable.parses_parser
    have hp' := h.reachable'.parses_parser
    rw [h.parser] at hp'
    obtain ⟨g1', hw'⟩ := (hp'.write_iff w).mpr ((hp.write_iff w).mp ⟨g1, hw⟩)
    have hstep : g1.Indistinct g1' := by
      refine ⟨h.reachable.write hw, h.reachable'.write hw', ?_, ?_⟩
      · rw [(hp.write hw).1.parser_eq, (hp'.write hw').1.parser_eq]
      · exact status_of_visible (write_visible hp hp' h.visible hw hw')
    obtain ⟨d', hrun', hd⟩ := ih hstep hrest
    refine ⟨d', ?_, hd⟩
    rw [Gpu.run, List.foldlM_cons, hw']
    exact hrun'

end

end Gpu

end CppStation
