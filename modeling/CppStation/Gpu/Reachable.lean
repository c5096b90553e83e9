import CppStation.Gpu.Gpu
import CppStation.Lib.Bits

/-!
# The GPU states that the two ports reach

In every reachable state the vertices queued in the renderer fit in its buffer,
so no handler fails on it.
-/

namespace CppStation

open Fallible

namespace Renderer

/-- The queued vertices fit in the buffer. -/
def Fits (r : Renderer) : Prop := r.mVerticesNum.toNat ≤ vertexBufferLen

theorem fits_new : new.Fits := Nat.zero_le _

theorem Fits.draw (r : Renderer) : r.draw.Fits := Nat.zero_le _

theorem Fits.reserve {r : Renderer} (h : r.Fits) (count : Word) : (r.reserve count).Fits := by
  unfold Renderer.reserve
  split
  · exact Fits.draw r
  · exact h

/-- After the test there is room for one more vertex. -/
theorem Fits.room {r : Renderer} (h : r.Fits) :
    (r.reserve 1).mVerticesNum.toNat < vertexBufferLen := by
  unfold Renderer.reserve
  split
  · exact (by decide : 0 < vertexBufferLen)
  · next hge =>
    have hle := BitVec.not_lt.mp hge
    rw [BitVec.le_def, BitVec.toNat_add] at hle
    simp only [Fits, vertexBufferLen, BitVec.toNat_ofNat] at h hle ⊢
    change (r.mVerticesNum.toNat + 1) % 2 ^ 32 ≤ _ at hle
    omega

theorem Fits.pushVertex {r : Renderer} (h : r.Fits) (v : Vertex) :
    ∃ r', r.pushVertex v = .ok r' ∧ r'.Fits := by
  have hroom := h.room
  refine ⟨_, if_pos hroom, ?_⟩
  change ((r.reserve 1).mVerticesNum + 1#32).toNat ≤ vertexBufferLen
  rw [BitVec.toNat_add, BitVec.toNat_ofNat]
  exact Nat.le_trans (Nat.mod_le _ _) hroom

theorem Fits.pushTriangle {r : Renderer} (h : r.Fits) (v1 v2 v3 : Vertex) :
    ∃ r', r.pushTriangle v1 v2 v3 = .ok r' ∧ r'.Fits := by
  obtain ⟨r1, h1, hr1⟩ := (h.reserve 3).pushVertex v1
  obtain ⟨r2, h2, hr2⟩ := hr1.pushVertex v2
  obtain ⟨r3, h3, hr3⟩ := hr2.pushVertex v3
  exact ⟨r3, by simp only [Renderer.pushTriangle, h1, h2, h3, ok_bind], hr3⟩

theorem Fits.pushQuad {r : Renderer} (h : r.Fits) (v1 v2 v3 v4 : Vertex) :
    ∃ r', r.pushQuad v1 v2 v3 v4 = .ok r' ∧ r'.Fits := by
  obtain ⟨r1, h1, hr1⟩ := (h.reserve 4).pushTriangle v1 v2 v3
  obtain ⟨r2, h2, hr2⟩ := hr1.pushTriangle v2 v3 v4
  exact ⟨r2, by simp only [Renderer.pushQuad, h1, h2, ok_bind], hr2⟩

end Renderer

namespace Gpu

/-- What a handler leaves alone: it does not touch the command buffer, and the mode and the
number of missing words only change when an image load starts. -/
structure Called (g g' : Gpu) (method : Gp0Method) : Prop where
  fits : g'.mRenderer.Fits
  buffer : g'.mGp0Command = g.mGp0Command
  handled : g'.handled = g.handled
  remaining : g'.mGp0WordsRemaining =
    if method = .gp0ImageLoad then imageWords (g.mGp0Command.get 2) else g.mGp0WordsRemaining
  mode : g'.mGp0Mode = if method = .gp0ImageLoad then .imageLoad else g.mGp0Mode

/-- The texture depth 3 is the only value on which a handler fails. -/
def depthHandled (word : Word) : Bool := (word >>> 7) &&& 3 != 3

/-- The texture depth that a draw mode word selects. -/
def textureDepth (val : Word) : Result TextureDepth :=
  match ((val >>> 7) &&& 3).toNat with
  | 0 => .ok .t4Bit
  | 1 => .ok .t8Bit
  | 2 => .ok .t15Bit
  | _ => panic "Unhandled texture depth \x7b\x7d" [((val >>> 7) &&& 3).toNat]

/-- The state after the draw mode word `val` that selects `depth`. -/
def withDrawMode (g : Gpu) (val : Word) (depth : TextureDepth) : Gpu :=
  { g with
    mPageBaseX := (val &&& 0xf).setWidth 8
    mPageBaseY := ((val >>> 4) &&& 1).setWidth 8
    mSemiTransparency := ((val >>> 5) &&& 3).setWidth 8
    mTextureDepth := depth
    mDithering := ((val >>> 9) &&& 1) != 0
    mDrawToDisplay := ((val >>> 10) &&& 1) != 0
    mTextureDisable := ((val >>> 11) &&& 1) != 0
    mRectangleTextureXFlip := ((val >>> 12) &&& 1) != 0
    mRectangleTextureYFlip := ((val >>> 13) &&& 1) != 0 }

theorem gp0DrawMode_eq (g : Gpu) :
    g.gp0DrawMode = textureDepth (g.mGp0Command.get 0) >>= fun depth =>
      .ok (g.withDrawMode (g.mGp0Command.get 0) depth) := by
  simp only [gp0DrawMode]
  split <;> simp only [textureDepth, *] <;> rfl

theorem textureDepth_of_handled {val : Word} (h : depthHandled val = true) :
    ∃ depth, textureDepth val = .ok depth := by
  unfold textureDepth
  split
  case h_4 h0 h1 h2 =>
    have hlt : ((val >>> 7) &&& 3).toNat ≤ 3 := Bits.toNat_and_le _ _
    have hne : ((val >>> 7) &&& 3).toNat ≠ 3 := fun heq =>
      bne_iff_ne.mp h (BitVec.eq_of_toNat_eq heq)
    exfalso
    grind
  all_goals exact ⟨_, rfl⟩

theorem textureDepth_of_not_handled {val : Word} (h : depthHandled val = false) :
    textureDepth val = panic "Unhandled texture depth \x7b\x7d" [3] := by
  have hval := bne_eq_false_iff_eq.mp h
  simp only [textureDepth, hval]
  rfl

/-- A handler succeeds unless it selects texture depth 3. -/
theorem call_called {g : Gpu} (h : g.mRenderer.Fits) (method : Gp0Method)
    (hdepth : method = .gp0DrawMode → depthHandled (g.mGp0Command.get 0) = true) :
    ∃ g', g.call method = .ok g' ∧ g.Called g' method := by
  have hrendered {r' : Renderer} {x : Result Renderer} (hx : x = .ok r' ∧ r'.Fits)
      (hmethod : method ≠ .gp0ImageLoad) :
      ∃ g', (do let r ← x; return { g with mRenderer := r }) = .ok g' ∧ g.Called g' method :=
    ⟨{ g with mRenderer := r' }, by rw [hx.1]; rfl,
      hx.2, rfl, rfl, (if_neg hmethod).symm, (if_neg hmethod).symm⟩
  cases method
  case gp0QuadMonoOpaque =>
    obtain ⟨r', hr'⟩ := h.pushQuad _ _ _ _
    exact hrendered hr' (by decide)
  case gp0QuadTextureBlendOpaque =>
    obtain ⟨r', hr'⟩ := h.pushQuad _ _ _ _
    exact hrendered hr' (by decide)
  case gp0TriangleShadedOpaque =>
    obtain ⟨r', hr'⟩ := h.pushTriangle _ _ _
    exact hrendered hr' (by decide)
  case gp0QuadShadedOpaque =>
    obtain ⟨r', hr'⟩ := h.pushQuad _ _ _ _
    exact hrendered hr' (by decide)
  case gp0DrawMode =>
    obtain ⟨depth, hval⟩ := textureDepth_of_handled (hdepth rfl)
    refine ⟨g.withDrawMode (g.mGp0Command.get 0) depth, ?_, h, rfl, rfl, rfl, rfl⟩
    rw [call, gp0DrawMode_eq, hval, ok_bind]
  case gp0DrawingOffset => exact ⟨_, rfl, Nat.zero_le _, rfl, rfl, rfl, rfl⟩
  all_goals exact ⟨_, rfl, h, rfl, rfl, rfl, rfl⟩

/-- The states that writes to the two ports reach from a constructed GPU. -/
inductive Reachable : Gpu → Prop
  | new : Reachable new
  | gp0 {g g' : Gpu} {val : Word} : Reachable g → g.gp0 val = .ok g' → Reachable g'
  | gp1 {g g' : Gpu} {val : Word} : Reachable g → g.gp1 val = .ok g' → Reachable g'

/-- A handler succeeds or panics. -/
theorem call_cases {g : Gpu} (h : g.mRenderer.Fits) (method : Gp0Method) :
    (∃ g', g.call method = .ok g' ∧ g.Called g' method) ∨
      ∃ format args, g.call method = panic format args := by
  by_cases hdepth : method = .gp0DrawMode ∧ depthHandled (g.mGp0Command.get 0) = false
  · obtain ⟨rfl, hdepth⟩ := hdepth
    have hpanic : g.call .gp0DrawMode = panic "Unhandled texture depth \x7b\x7d" [3] := by
      rw [call, gp0DrawMode_eq, textureDepth_of_not_handled hdepth]
      exact error_bind _ _
    exact .inr ⟨_, _, hpanic⟩
  · exact .inl (call_called h method fun hmethod => by simpa [hmethod] using hdepth)

theorem called_of_call {g g' : Gpu} {method : Gp0Method} (h : g.mRenderer.Fits)
    (hcall : g.call method = .ok g') : g.Called g' method := by
  rcases call_cases h method with ⟨g1, hg1, hcalled⟩ | ⟨_, _, hpanic⟩
  · cases hg1.symm.trans hcall
    exact hcalled
  · cases hpanic.symm.trans hcall

theorem opcode_toNat (w : Word) : ((w >>> 24) &&& 0xff).toNat = w.toNat / 2 ^ 24 := by
  have h := Bits.toNat_and_mask (w >>> 24) (k := 8) (by decide)
  rw [BitVec.toNat_ushiftRight, Nat.shiftRight_eq_div_pow] at h
  have hlt := w.isLt
  exact h.trans (Nat.mod_eq_of_lt (by omega))

/-- The state in which `acceptWord` sees a word that is not at a command position. -/
def arrived (g : Gpu) (w : Word) : Gpu := { g with received := g.received ++ [w] }

theorem gp0_eq (g : Gpu) (w : Word) :
    g.gp0 w = (g.arrived w).startCommand w >>= fun g' => g'.acceptWord w := rfl

/-- Starting a command touches neither the renderer nor the record of the words nor the mode. -/
theorem startCommand_frame {g g' : Gpu} {val : Word} (h : g.startCommand val = .ok g') :
    g'.mRenderer = g.mRenderer ∧ g'.received = g.received ∧ g'.mGp0Mode = g.mGp0Mode := by
  unfold startCommand at h
  split at h
  · obtain ⟨_, _, h⟩ := bind_eq_ok.mp h
    cases h
    exact ⟨rfl, rfl, rfl⟩
  · cases h
    exact ⟨rfl, rfl, rfl⟩

/-- The state after one more word of a command is queued. -/
def queued (g : Gpu) (buffer : CommandBuffer) : Gpu :=
  { g with mGp0WordsRemaining := g.mGp0WordsRemaining - 1, mGp0Command := buffer }

/-- The state in which the handler of the queued command starts. -/
def dispatched (g : Gpu) : Gpu :=
  { g with handled := g.handled ++ [(g.mGp0CommandMethod, g.mGp0Command.words)] }

theorem acceptWord_command {g : Gpu} (h : g.mGp0Mode = .command) (val : Word) :
    g.acceptWord val = (do
      let buffer ← g.mGp0Command.pushWord val
      if g.mGp0WordsRemaining - 1 = 0 then
        (g.queued buffer).dispatched.call g.mGp0CommandMethod
      else
        .ok (g.queued buffer)) := by
  cases g
  cases h
  rfl

/-- The state after one more word of image data. -/
def counted (g : Gpu) : Gpu :=
  { g with
    mGp0WordsRemaining := g.mGp0WordsRemaining - 1
    mGp0Mode := if g.mGp0WordsRemaining - 1 = 0 then .command else .imageLoad }

theorem acceptWord_imageLoad {g : Gpu} (h : g.mGp0Mode = .imageLoad) (val : Word) :
    g.acceptWord val = .ok g.counted := by
  simp only [acceptWord, counted, h]
  split <;> rfl

/-- What a word can do: run a handler, be queued or be counted. -/
theorem acceptWord_cases {g g' : Gpu} {val : Word} (h : g.acceptWord val = .ok g') :
    (∃ buffer, (g.queued buffer).dispatched.call g.mGp0CommandMethod = .ok g') ∨
      (∃ buffer, g' = g.queued buffer) ∨ g' = g.counted := by
  cases hmode : g.mGp0Mode with
  | command =>
    rw [acceptWord_command hmode] at h
    obtain ⟨buffer, _, h⟩ := bind_eq_ok.mp h
    split at h
    · exact .inl ⟨buffer, h⟩
    · cases h
      exact .inr (.inl ⟨buffer, rfl⟩)
  | imageLoad =>
    rw [acceptWord_imageLoad hmode] at h
    cases h
    exact .inr (.inr rfl)

theorem fits_acceptWord {g g' : Gpu} {val : Word} (h : g.mRenderer.Fits)
    (hword : g.acceptWord val = .ok g') : g'.mRenderer.Fits := by
  rcases acceptWord_cases hword with ⟨buffer, hcall⟩ | ⟨buffer, rfl⟩ | rfl
  · exact (called_of_call (g := (g.queued buffer).dispatched) h hcall).fits
  · exact h
  · exact h

theorem gp1_renderer {g g' : Gpu} {val : Word} (h : g.gp1 val = .ok g') :
    g'.mRenderer = g.mRenderer := by
  simp only [gp1] at h
  split at h
  case h_5 =>
    cases h
    unfold gp1DmaDirection
    split <;> rfl
  case h_9 =>
    by_cases hmode : val &&& 0x80 ≠ 0
    · rw [gp1DisplayMode, if_pos hmode] at h
      cases h
    · rw [gp1DisplayMode, if_neg hmode] at h
      cases h
      rfl
  case h_10 => cases h
  all_goals
    cases h
    rfl

theorem fits_gp1 {g g' : Gpu} {val : Word} (h : g.mRenderer.Fits) (hport : g.gp1 val = .ok g') :
    g'.mRenderer.Fits := by
  rw [gp1_renderer hport]
  exact h

/-- **The vertex buffer never overflows.** -/
theorem Reachable.fits {g : Gpu} (h : Reachable g) : g.mRenderer.Fits := by
  induction h with
  | new => exact Renderer.fits_new
  | gp0 _ hport ih =>
    obtain ⟨g1, hstart, hword⟩ := bind_eq_ok.mp hport
    exact fits_acceptWord (by rw [(startCommand_frame hstart).1]; exact ih) hword
  | gp1 _ hport ih => exact fits_gp1 ih hport

/-! ## The record of the words -/

theorem call_received {g g' : Gpu} {method : Gp0Method} (h : g.call method = .ok g') :
    g'.received = g.received := by
  cases method
  case gp0QuadMonoOpaque | gp0QuadTextureBlendOpaque | gp0TriangleShadedOpaque |
      gp0QuadShadedOpaque =>
    obtain ⟨_, _, h⟩ := bind_eq_ok.mp h
    cases h
    rfl
  case gp0DrawMode =>
    rw [call, gp0DrawMode_eq] at h
    obtain ⟨_, _, h⟩ := bind_eq_ok.mp h
    cases h
    rfl
  all_goals
    cases h
    rfl

theorem acceptWord_received {g g' : Gpu} {val : Word} (h : g.acceptWord val = .ok g') :
    g'.received = g.received := by
  rcases acceptWord_cases h with ⟨buffer, hcall⟩ | ⟨buffer, rfl⟩ | rfl
  · exact call_received (g := (g.queued buffer).dispatched) hcall
  · rfl
  · rfl

theorem gp0_received {g g' : Gpu} {val : Word} (h : g.gp0 val = .ok g') :
    g'.received = g.received ++ [val] := by
  obtain ⟨g1, hstart, hword⟩ := bind_eq_ok.mp h
  exact (acceptWord_received hword).trans (startCommand_frame hstart).2.1

/-- The record holds the words of every call, in order. -/
theorem run_received {ws : List Word} {g g' : Gpu} (h : ws.foldlM gp0 g = .ok g') :
    g'.received = g.received ++ ws := by
  induction ws generalizing g with
  | nil =>
    cases h
    exact (List.append_nil _).symm
  | cons w ws ih =>
    rw [List.foldlM_cons] at h
    obtain ⟨g1, hg1, hrest⟩ := bind_eq_ok.mp h
    rw [ih hrest, gp0_received hg1, List.append_assoc, List.singleton_append]

end Gpu

end CppStation
