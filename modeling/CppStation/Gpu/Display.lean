import CppStation.Gpu.Reachable
import CppStation.Lib.Bits
import CppStation.Lib.Interleaving

/-!
# The display half of the GPU

`GP1(0x02)` to `GP1(0x08)` write the fields collected in `DisplayState` and read
nothing else; GP0 neither reads nor writes them.  The order in which words come
in on the two ports therefore does not matter.
-/

namespace CppStation

open Fallible Interleaving

/-- A write to one of the two ports. -/
inductive PortWrite
  | gp0 (val : Word)
  | gp1 (val : Word)
  deriving DecidableEq, Repr

structure DisplayState where
  mHres : HorizontalRes
  mVres : VerticalRes
  mVmode : VMode
  mDisplayDepth : DisplayDepth
  mInterlaced : Bool
  mDisplayDisabled : Bool
  mDisplayVramXStart : Half
  mDisplayVramYStart : Half
  mDisplayHorizStart : Half
  mDisplayHorizEnd : Half
  mDisplayLineStart : Half
  mDisplayLineEnd : Half
  mInterrupt : Bool
  mDmaDirection : DmaDirection

namespace Gpu

def write (g : Gpu) : PortWrite → Result Gpu
  | .gp0 val => g.gp0 val
  | .gp1 val => g.gp1 val

def run (g : Gpu) (ws : List PortWrite) : Result Gpu := ws.foldlM write g

theorem Reachable.run {g g' : Gpu} {ws : List PortWrite} (h : Reachable g)
    (hrun : g.run ws = .ok g') : Reachable g' := by
  refine foldlM_invariant (fun s w s' hs hw => ?_) ws h hrun
  cases w with
  | gp0 val => exact .gp0 hs hw
  | gp1 val => exact .gp1 hs hw

theorem exists_run_of_reachable {g : Gpu} (h : Reachable g) : ∃ ws, new.run ws = .ok g := by
  have hconcat : ∀ {g g' : Gpu} {ws : List PortWrite} {w : PortWrite}, new.run ws = .ok g →
      g.write w = .ok g' → new.run (ws ++ [w]) = .ok g' := by
    intro g g' ws w hrun hw
    rw [run] at hrun
    rw [run, List.foldlM_append, hrun, ok_bind, List.foldlM_cons, hw]
    rfl
  induction h with
  | new => exact ⟨[], rfl⟩
  | @gp0 g g' val _ hport ih =>
    obtain ⟨ws, hws⟩ := ih
    exact ⟨ws ++ [.gp0 val], hconcat (w := .gp0 val) hws hport⟩
  | @gp1 g g' val _ hport ih =>
    obtain ⟨ws, hws⟩ := ih
    exact ⟨ws ++ [.gp1 val], hconcat (w := .gp1 val) hws hport⟩

def displayState (g : Gpu) : DisplayState where
  mHres := g.mHres
  mVres := g.mVres
  mVmode := g.mVmode
  mDisplayDepth := g.mDisplayDepth
  mInterlaced := g.mInterlaced
  mDisplayDisabled := g.mDisplayDisabled
  mDisplayVramXStart := g.mDisplayVramXStart
  mDisplayVramYStart := g.mDisplayVramYStart
  mDisplayHorizStart := g.mDisplayHorizStart
  mDisplayHorizEnd := g.mDisplayHorizEnd
  mDisplayLineStart := g.mDisplayLineStart
  mDisplayLineEnd := g.mDisplayLineEnd
  mInterrupt := g.mInterrupt
  mDmaDirection := g.mDmaDirection

/-- The GPU `g` with another display half. -/
def withDisplay (g : Gpu) (d : DisplayState) : Gpu :=
  { g with
    mHres := d.mHres
    mVres := d.mVres
    mVmode := d.mVmode
    mDisplayDepth := d.mDisplayDepth
    mInterlaced := d.mInterlaced
    mDisplayDisabled := d.mDisplayDisabled
    mDisplayVramXStart := d.mDisplayVramXStart
    mDisplayVramYStart := d.mDisplayVramYStart
    mDisplayHorizStart := d.mDisplayHorizStart
    mDisplayHorizEnd := d.mDisplayHorizEnd
    mDisplayLineStart := d.mDisplayLineStart
    mDisplayLineEnd := d.mDisplayLineEnd
    mInterrupt := d.mInterrupt
    mDmaDirection := d.mDmaDirection }

@[simp] theorem displayState_withDisplay (g : Gpu) (d : DisplayState) :
    (g.withDisplay d).displayState = d := rfl

@[simp] theorem withDisplay_displayState (g : Gpu) : g.withDisplay g.displayState = g := rfl

/-! ## GP0 and the display half -/

/-- A handler that only draws. -/
theorem drawn_withDisplay (g : Gpu) (d : DisplayState) (x : Result Renderer) :
    (do let r ← x; return { g.withDisplay d with mRenderer := r }) =
      (do let r ← x; return { g with mRenderer := r }) >>= fun g' => .ok (g'.withDisplay d) := by
  cases x <;> rfl

theorem call_withDisplay (g : Gpu) (d : DisplayState) (method : Gp0Method) :
    (g.withDisplay d).call method = g.call method >>= fun g' => .ok (g'.withDisplay d) := by
  cases method
  case gp0DrawMode =>
    simp only [call, gp0DrawMode_eq]
    change textureDepth (g.mGp0Command.get 0) >>= _ = _
    cases textureDepth (g.mGp0Command.get 0) <;> rfl
  case gp0QuadMonoOpaque | gp0QuadTextureBlendOpaque | gp0TriangleShadedOpaque |
      gp0QuadShadedOpaque => exact drawn_withDisplay g d _
  all_goals rfl

theorem startCommand_withDisplay (g : Gpu) (d : DisplayState) (val : Word) :
    (g.withDisplay d).startCommand val =
      g.startCommand val >>= fun g' => .ok (g'.withDisplay d) := by
  unfold startCommand
  change (if g.mGp0WordsRemaining = 0 then _ else _) = _
  split
  · cases command val <;> rfl
  · rfl

theorem acceptWord_withDisplay (g : Gpu) (d : DisplayState) (val : Word) :
    (g.withDisplay d).acceptWord val =
      g.acceptWord val >>= fun g' => .ok (g'.withDisplay d) := by
  cases hmode : g.mGp0Mode with
  | command =>
    have hmode' : (g.withDisplay d).mGp0Mode = .command := hmode
    rw [acceptWord_command hmode, acceptWord_command hmode']
    change g.mGp0Command.pushWord val >>= _ = _
    cases g.mGp0Command.pushWord val with
    | error e => rfl
    | ok buffer =>
      simp only [ok_bind]
      change (if g.mGp0WordsRemaining - 1 = 0 then _ else _) = _
      split
      · exact call_withDisplay (g.queued buffer).dispatched d g.mGp0CommandMethod
      · rfl
  | imageLoad =>
    have hmode' : (g.withDisplay d).mGp0Mode = .imageLoad := hmode
    rw [acceptWord_imageLoad hmode, acceptWord_imageLoad hmode']
    rfl

/-- **GP0 does not see the display half.** -/
theorem gp0_withDisplay (g : Gpu) (d : DisplayState) (val : Word) :
    (g.withDisplay d).gp0 val = g.gp0 val >>= fun g' => .ok (g'.withDisplay d) := by
  rw [gp0_eq, gp0_eq]
  change ((g.arrived val).withDisplay d).startCommand val >>= _ = _
  rw [startCommand_withDisplay]
  cases (g.arrived val).startCommand val with
  | error e => rfl
  | ok g' => exact acceptWord_withDisplay g' d val

theorem gp0_displayState {g g' : Gpu} {val : Word} (h : g.gp0 val = .ok g') :
    g'.displayState = g.displayState := by
  have heq := gp0_withDisplay g g.displayState val
  rw [withDisplay_displayState, h, ok_bind] at heq
  have hsame : g' = g'.withDisplay g.displayState := Except.ok.inj heq
  exact (congrArg displayState hsame).trans (displayState_withDisplay g' g.displayState)

/-! ## GP1 and the display half -/

/-- A word whose opcode is one of `0x02`, …, `0x08`. -/
def IsDisplayWord (val : Word) : Prop := 2 ≤ val.toNat / 2 ^ 24 ∧ val.toNat / 2 ^ 24 ≤ 8

/-- What a display word does to the display half. -/
def displayed (d : DisplayState) (val : Word) : Result DisplayState :=
  (new.withDisplay d).gp1 val >>= fun g => .ok g.displayState

theorem gp1DmaDirection_eq (g : Gpu) (val : Word) :
    g.gp1DmaDirection val = g.withDisplay ((new.withDisplay g.displayState).gp1DmaDirection
      val).displayState := by
  unfold gp1DmaDirection
  split <;> rfl

theorem gp1DisplayMode_eq (g : Gpu) (val : Word) :
    g.gp1DisplayMode val = (new.withDisplay g.displayState).gp1DisplayMode val >>= fun g' =>
      .ok (g.withDisplay g'.displayState) := by
  by_cases hmode : val &&& 0x80 ≠ 0
  · simp only [gp1DisplayMode, if_pos hmode]
    rfl
  · simp only [gp1DisplayMode, if_neg hmode]
    rfl

/-- **A display word** reads and writes nothing but the display half. -/
theorem gp1_eq {val : Word} (h : IsDisplayWord val) (g : Gpu) :
    g.gp1 val = displayed g.displayState val >>= fun d => .ok (g.withDisplay d) := by
  obtain ⟨hle, hge⟩ := h
  have hop := opcode_toNat val
  have hcases : val.toNat / 2 ^ 24 = 2 ∨ val.toNat / 2 ^ 24 = 3 ∨ val.toNat / 2 ^ 24 = 4 ∨
      val.toNat / 2 ^ 24 = 5 ∨ val.toNat / 2 ^ 24 = 6 ∨ val.toNat / 2 ^ 24 = 7 ∨
      val.toNat / 2 ^ 24 = 8 := by omega
  rcases hcases with hn | hn | hn | hn | hn | hn | hn
  all_goals
    rw [hn] at hop
    simp only [displayed, gp1, hop, ok_bind]
  · rfl
  · rfl
  · rw [gp1DmaDirection_eq]
  · rfl
  · rfl
  · rfl
  · rw [gp1DisplayMode_eq]
    cases (new.withDisplay g.displayState).gp1DisplayMode val <;> rfl

theorem gp1_panic {val : Word} (h : 8 < val.toNat / 2 ^ 24) (g : Gpu) :
    g.gp1 val = panic "Unhandled GP1 command \x7b:08x\x7d" [val.toNat] := by
  have hop := opcode_toNat val
  simp only [gp1]
  split
  case h_10 => rfl
  all_goals omega

theorem opcode_of_not_isDisplayWord {val : Word} (h : ¬ IsDisplayWord val) :
    val.toNat / 2 ^ 24 = 0 ∨ val.toNat / 2 ^ 24 = 1 ∨ 8 < val.toNat / 2 ^ 24 := by
  unfold IsDisplayWord at h
  omega

/-- What a GP1 word can do. -/
theorem gp1_cases {g g' : Gpu} {val : Word} (h : g.gp1 val = .ok g') :
    (val.toNat / 2 ^ 24 = 0 ∧ g' = g.gp1Reset val) ∨
      (val.toNat / 2 ^ 24 = 1 ∧ g' = g.gp1ResetCommandBuffer) ∨
      (IsDisplayWord val ∧ ∃ d, g' = g.withDisplay d) := by
  by_cases hdisplay : IsDisplayWord val
  · rw [gp1_eq hdisplay] at h
    obtain ⟨d, -, hret⟩ := bind_eq_ok.mp h
    cases hret
    exact .inr (.inr ⟨hdisplay, d, rfl⟩)
  · have hop := opcode_toNat val
    rcases opcode_of_not_isDisplayWord hdisplay with hn | hn | hn
    · simp only [gp1, hop, hn] at h
      cases h
      exact .inl ⟨hn, rfl⟩
    · simp only [gp1, hop, hn] at h
      cases h
      exact .inr (.inl ⟨hn, rfl⟩)
    · rw [gp1_panic hn] at h
      cases h

/-! ## The two streams -/

/-- A display word can be moved before a GP0 word. -/
theorem moves_display {val : Word} (h : IsDisplayWord val) (word : Word) :
    Moves write (.gp0 word) (.gp1 val) := by
  intro g g1 g2 hgp0 hgp1
  have hsame : g1.displayState = g.displayState := gp0_displayState hgp0
  change g1.gp1 val = .ok g2 at hgp1
  rw [gp1_eq h, hsame] at hgp1
  obtain ⟨d, hd, hret⟩ := bind_eq_ok.mp hgp1
  cases hret
  refine ⟨g.withDisplay d, ?_, ?_⟩
  · change g.gp1 val = _
    rw [gp1_eq h, hd, ok_bind]
  · change (g.withDisplay d).gp0 word = _
    rw [gp0_withDisplay, show g.gp0 word = .ok g1 from hgp0, ok_bind]

/-- **The two ports do not interfere.**  All interleavings of GP0 words and display words that do
not panic end in the same state; it includes the handlers run, with their words, and the calls
made to the renderer. -/
theorem run_interleaved {words vals : List Word} (hvals : ∀ val ∈ vals, IsDisplayWord val)
    {es es' : List PortWrite} (h : Interleaves (words.map .gp0) (vals.map .gp1) es)
    (h' : Interleaves (words.map .gp0) (vals.map .gp1) es') {g t t' : Gpu}
    (hrun : g.run es = .ok t) (hrun' : g.run es' = .ok t') :
    t = t' ∧ t.handled = t'.handled ∧ t.mRenderer.glCalls = t'.mRenderer.glCalls := by
  have hmoves : ∀ x ∈ words.map PortWrite.gp0, ∀ y ∈ vals.map PortWrite.gp1,
      Moves write x y := by
    intro x hx y hy
    obtain ⟨word, -, rfl⟩ := List.mem_map.mp hx
    obtain ⟨val, hval, rfl⟩ := List.mem_map.mp hy
    exact moves_display (hvals val hval) word
  obtain rfl := h.run_unique h' hmoves hrun hrun'
  exact ⟨rfl, rfl, rfl⟩

/-- Two display words before an image load, or in the middle of it. -/
theorem run_interleaved_imageLoad :
    new.run [.gp1 0x04000002, .gp1 0x03000000, .gp0 0xa0000000, .gp0 0, .gp0 0x00010002,
        .gp0 0xe1000001] =
      new.run [.gp0 0xa0000000, .gp1 0x04000002, .gp0 0, .gp0 0x00010002, .gp1 0x03000000,
        .gp0 0xe1000001] := by
  have hvals : ∀ val ∈ [(0x04000002 : Word), 0x03000000], IsDisplayWord val := by
    intro val hval
    simp only [List.mem_cons, List.not_mem_nil, or_false] at hval
    rcases hval with rfl | rfl
    · exact ⟨by decide, by decide⟩
    · exact ⟨by decide, by decide⟩
  have hrun : okAnd (new.run [.gp1 0x04000002, .gp1 0x03000000, .gp0 0xa0000000, .gp0 0,
      .gp0 0x00010002, .gp0 0xe1000001]) (fun _ => true) = true := by decide +kernel
  have hrun' : okAnd (new.run [.gp0 0xa0000000, .gp1 0x04000002, .gp0 0, .gp0 0x00010002,
      .gp1 0x03000000, .gp0 0xe1000001]) (fun _ => true) = true := by decide +kernel
  obtain ⟨t, ht, -⟩ := exists_of_okAnd hrun
  obtain ⟨t', ht', -⟩ := exists_of_okAnd hrun'
  have hfirst : Interleaves ([0xa0000000, 0, 0x00010002, 0xe1000001].map PortWrite.gp0)
      ([0x04000002, 0x03000000].map PortWrite.gp1) _ :=
    .right (.right (.left (.left (.left (.left .nil)))))
  have hlater : Interleaves ([0xa0000000, 0, 0x00010002, 0xe1000001].map PortWrite.gp0)
      ([0x04000002, 0x03000000].map PortWrite.gp1) _ :=
    .left (.right (.left (.left (.right (.left .nil)))))
  rw [ht, ht', (run_interleaved hvals hfirst hlater ht ht').1]

end Gpu

end CppStation
