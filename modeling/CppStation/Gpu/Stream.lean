import CppStation.Gpu.Reachable
import CppStation.Lib.Bits
import CppStation.Lib.Framing

/-!
# The GP0 command stream

`gp0Format` is the format of the stream: a table of lengths, and the data of an
image load.  `gp0` runs the handlers of the greedy segmentation, except after an
image load without data, whose successor it takes for image data.
-/

namespace CppStation

open Fallible

/-! ## The command buffer as a list -/

namespace CommandBuffer

/-- The queued words are `ws`. -/
structure Holds (b : CommandBuffer) (ws : List Word) : Prop where
  len : b.mLen.toNat = ws.length
  words : b.words = ws

theorem holds_clear (b : CommandBuffer) : b.clear.Holds [] := ⟨rfl, rfl⟩

theorem Holds.get {b : CommandBuffer} {ws : List Word} (h : b.Holds ws) {i : Fin 12}
    (hi : i < ws.length) : ws[(i : Nat)]? = some (b.get i) := by
  rw [← h.words]
  simp only [CommandBuffer.words, h.len, List.getElem?_take, if_pos hi, List.getElem?_ofFn,
    dif_pos i.isLt, CommandBuffer.get]

theorem take_ofFn_update (f : Fin 12 → Word) {n : Nat} (hn : n < 12) (word : Word) :
    (List.ofFn (Function.update f ⟨n, hn⟩ word)).take (n + 1) =
      (List.ofFn f).take n ++ [word] := by
  have hlen : n < (List.ofFn (Function.update f ⟨n, hn⟩ word)).length := by
    rw [List.length_ofFn]
    exact hn
  rw [List.take_succ_eq_append_getElem hlen, List.getElem_ofFn, Function.update_self]
  congr 1
  refine List.ext_getElem? fun i => ?_
  rw [List.getElem?_take, List.getElem?_take]
  split
  · next hi =>
    have hne : (⟨i, by omega⟩ : Fin 12) ≠ ⟨n, hn⟩ := Fin.ne_of_val_ne (by simp only; omega)
    simp only [List.getElem?_ofFn, dif_pos (show i < 12 by omega), Function.update_of_ne hne]
  · rfl

theorem Holds.pushWord {b : CommandBuffer} {ws : List Word} (h : b.Holds ws)
    (hlen : ws.length < 12) (word : Word) :
    ∃ b', b.pushWord word = .ok b' ∧ b'.Holds (ws ++ [word]) := by
  have hroom : b.mLen.toNat < 12 := h.len ▸ hlen
  have hnext : (b.mLen + 1).toNat = b.mLen.toNat + 1 := by
    rw [BitVec.toNat_add]
    exact Nat.mod_eq_of_lt (by change b.mLen.toNat + 1 < 256; omega)
  refine ⟨_, dif_pos hroom, ⟨?_, ?_⟩⟩
  · rw [hnext, h.len, List.length_append]
    rfl
  · rw [CommandBuffer.words, hnext, take_ofFn_update]
    exact congrArg (· ++ [word]) h.words

end CommandBuffer

namespace Gpu

/-! ## The format of the stream -/

/-- The GP0 commands: opcode, number of words, handler. -/
def gp0Commands : List (Nat × Nat × Gp0Method) :=
  [(0x00, 1, .gp0Nop), (0x01, 1, .gp0ClearCache), (0x28, 5, .gp0QuadMonoOpaque),
   (0x2c, 9, .gp0QuadTextureBlendOpaque), (0x30, 6, .gp0TriangleShadedOpaque),
   (0x38, 8, .gp0QuadShadedOpaque), (0xa0, 3, .gp0ImageLoad), (0xc0, 3, .gp0ImageStore),
   (0xe1, 1, .gp0DrawMode), (0xe2, 1, .gp0TextureWindow), (0xe3, 1, .gp0DrawingAreaTopLeft),
   (0xe4, 1, .gp0DrawingAreaBottomRight), (0xe5, 1, .gp0DrawingOffset),
   (0xe6, 1, .gp0MaskBitSetting)]

/-- The number of words of an image whose resolution word is `res`: half the number of pixels,
rounded up. -/
def imageDataWords (res : Word) : Nat := (res.toNat % 2 ^ 16 * (res.toNat / 2 ^ 16) + 1) / 2

def gp0Format : Framing.Format Word Gp0Method where
  header w := (gp0Commands.find? fun entry => entry.1 == w.toNat / 2 ^ 24).map fun entry =>
    (entry.2.1 - 1, entry.2.2)
  accepts
    | .gp0DrawMode, w :: _ => depthHandled w
    | _, _ => true
  data
    | .gp0ImageLoad, [_, _, res] => imageDataWords res
    | _, _ => 0

/-- The program counts the words of an image without overflow. -/
theorem toNat_imageWords (res : Word) : (imageWords res).toNat = imageDataWords res := by
  have hwidth : (res &&& 0xffff).toNat = res.toNat % 2 ^ 16 :=
    Bits.toNat_and_mask res (k := 16) (by decide)
  have hheight : (res >>> 16).toNat = res.toNat / 2 ^ 16 := by
    rw [BitVec.toNat_ushiftRight, Nat.shiftRight_eq_div_pow]
  have hpixels : res.toNat % 2 ^ 16 * (res.toNat / 2 ^ 16) ≤ (2 ^ 16 - 1) * (2 ^ 16 - 1) :=
    Nat.mul_le_mul (by omega) (by omega)
  have hsize : ((res &&& (0xffff : Word)) * (res >>> 16) + 1 : Word).toNat =
      res.toNat % 2 ^ 16 * (res.toNat / 2 ^ 16) + 1 := by
    rw [BitVec.toNat_add, BitVec.toNat_mul, hwidth, hheight, Nat.mod_add_mod]
    exact Nat.mod_eq_of_lt (Nat.lt_of_le_of_lt (Nat.add_le_add_right hpixels 1) (by decide))
  simp only [imageWords, imageDataWords]
  rw [BitVec.toNat_udiv, ← hsize]
  exact Bits.toNat_and_not_one_div _

theorem command_of_mem {entry : Nat × Nat × Gp0Method} (hmem : entry ∈ gp0Commands) {w : Word}
    (hw : ((w >>> 24) &&& 0xff).toNat = entry.1) :
    command w = .ok (BitVec.ofNat 32 entry.2.1, entry.2.2) := by
  simp only [gp0Commands, List.mem_cons, List.not_mem_nil, or_false] at hmem
  rcases hmem with rfl | rfl | rfl | rfl | rfl | rfl | rfl | rfl | rfl | rfl | rfl | rfl | rfl | rfl
  all_goals
    simp only [command, hw]
    rfl

/-- The lengths of the table fit in the buffer, and an image load has three words. -/
theorem length_of_mem : ∀ entry ∈ gp0Commands, 1 ≤ entry.2.1 ∧ entry.2.1 ≤ 12 ∧
    (entry.2.2 = .gp0ImageLoad → entry.2.1 = 3) := by
  decide

/-- The program agrees with the table. -/
theorem command_of_header {w : Word} {n : Nat} {k : Gp0Method}
    (h : gp0Format.header w = some (n, k)) :
    command w = .ok (BitVec.ofNat 32 (n + 1), k) ∧ n < 12 ∧ (k = .gp0ImageLoad → n = 2) := by
  obtain ⟨entry, hfind, heq⟩ := Option.map_eq_some_iff.mp h
  cases heq
  have hmem := List.mem_of_find?_eq_some hfind
  have hop : entry.1 = w.toNat / 2 ^ 24 := eq_of_beq (List.find?_some hfind :)
  obtain ⟨hpos, hlen, hload⟩ := length_of_mem entry hmem
  refine ⟨?_, by omega, fun hk => by rw [hload hk]⟩
  rw [Nat.sub_add_cancel hpos]
  exact command_of_mem hmem ((opcode_toNat w).trans hop.symm)

/-- The words `cmd` are a header of kind `k` with all of its parameters. -/
def FullLength (k : Gp0Method) (cmd : List Word) : Prop :=
  ∃ w params, cmd = w :: params ∧ gp0Format.header w = some (params.length, k)

/-- An image load is three words, the last of which is the resolution. -/
theorem imageLoad_command {cmd : List Word} (h : FullLength .gp0ImageLoad cmd) :
    ∃ w pos res, cmd = [w, pos, res] := by
  obtain ⟨w, params, rfl, hw⟩ := h
  have hlen := (command_of_header hw).2.2 rfl
  obtain ⟨pos, res, rfl⟩ := List.length_eq_two.mp hlen
  exact ⟨w, pos, res, rfl⟩

theorem data_of_ne {k : Gp0Method} (hk : k ≠ .gp0ImageLoad) (cmd : List Word) :
    gp0Format.data k cmd = 0 := by
  cases k <;> first | rfl | contradiction

/-! ## States between two words -/

/-- The next word is at a command position. -/
structure Ready (g : Gpu) : Prop where
  mode : g.mGp0Mode = .command
  remaining : g.mGp0WordsRemaining = 0
  fits : g.mRenderer.Fits

/-- The words `got` of a command of kind `k` have come and `left` are missing. -/
structure Collecting (g : Gpu) (k : Gp0Method) (got : List Word) (left : Nat) : Prop where
  mode : g.mGp0Mode = .command
  method : g.mGp0CommandMethod = k
  remaining : g.mGp0WordsRemaining.toNat = left
  buffer : g.mGp0Command.Holds got
  room : got.length + left ≤ 12
  fits : g.mRenderer.Fits

/-- The next `left` words are image data. -/
structure Loading (g : Gpu) (left : Nat) : Prop where
  mode : g.mGp0Mode = .imageLoad
  remaining : g.mGp0WordsRemaining.toNat = left
  fits : g.mRenderer.Fits

/-- The state after the command `cmd` of kind `k`. -/
def Done (g : Gpu) (k : Gp0Method) (cmd : List Word) : Prop :=
  if k = .gp0ImageLoad then g.Loading (gp0Format.data k cmd) else g.Ready

/-- The state in which `acceptWord` sees the header of a command of `n` more words. -/
def started (g : Gpu) (w : Word) (n : Nat) (k : Gp0Method) : Gpu :=
  { g with
    received := g.received ++ [w]
    mGp0WordsRemaining := BitVec.ofNat 32 (n + 1)
    mGp0CommandMethod := k
    mGp0Command := g.mGp0Command.clear }

theorem startCommand_arrived {g : Gpu} {left : Nat}
    (h : g.mGp0WordsRemaining.toNat = left + 1) (w : Word) :
    (g.arrived w).startCommand w = .ok (g.arrived w) := by
  refine if_neg fun hzero => ?_
  rw [show g.mGp0WordsRemaining = 0 from hzero] at h
  cases h

theorem startCommand_started {g : Gpu} (h : g.mGp0WordsRemaining = 0) {w : Word} {n : Nat}
    {k : Gp0Method} (hw : gp0Format.header w = some (n, k)) :
    (g.arrived w).startCommand w = .ok (g.started w n k) := by
  unfold startCommand
  rw [if_pos (show (g.arrived w).mGp0WordsRemaining = 0 from h), (command_of_header hw).1]
  rfl

theorem gp0_arrived {g : Gpu} {left : Nat} (h : g.mGp0WordsRemaining.toNat = left + 1)
    (w : Word) : g.gp0 w = (g.arrived w).acceptWord w := by
  rw [gp0_eq, startCommand_arrived h, ok_bind]

theorem gp0_started {g : Gpu} (h : g.mGp0WordsRemaining = 0) {w : Word} {n : Nat}
    {k : Gp0Method} (hw : gp0Format.header w = some (n, k)) :
    g.gp0 w = (g.started w n k).acceptWord w ∧
      (g.started w n k).mGp0WordsRemaining.toNat = n + 1 := by
  have hlen := (command_of_header hw).2.1
  refine ⟨?_, Nat.mod_eq_of_lt (by omega)⟩
  rw [gp0_eq, startCommand_started h hw, ok_bind]

theorem toNat_pred {x : Word} {left : Nat} (h : x.toNat = left + 1) : (x - 1).toNat = left := by
  rw [BitVec.toNat_sub_of_le (by rw [BitVec.le_def, h]; exact Nat.succ_pos _), h]
  rfl

/-- A header at a command position, before it is queued. -/
theorem Ready.gp0_header {g : Gpu} (h : g.Ready) {w : Word} {n : Nat} {k : Gp0Method}
    (hw : gp0Format.header w = some (n, k)) :
    g.gp0 w = (g.started w n k).acceptWord w ∧ (g.started w n k).Collecting k [] (n + 1) := by
  obtain ⟨hstart, hremaining⟩ := gp0_started h.remaining hw
  have hlen := (command_of_header hw).2.1
  refine ⟨hstart, h.mode, rfl, hremaining, CommandBuffer.holds_clear _, ?_, h.fits⟩
  simp only [List.length_nil]
  omega

theorem Collecting.gp0_param {g : Gpu} {k : Gp0Method} {got : List Word} {left : Nat}
    (h : g.Collecting k got (left + 1)) (w : Word) :
    g.gp0 w = (g.arrived w).acceptWord w ∧ (g.arrived w).Collecting k got (left + 1) :=
  ⟨gp0_arrived h.remaining w, h.mode, h.method, h.remaining, h.buffer, h.room, h.fits⟩

/-- A word that does not complete the command is queued. -/
theorem Collecting.acceptWord_more {g : Gpu} {k : Gp0Method} {got : List Word} {left : Nat}
    (h : g.Collecting k got (left + 2)) (w : Word) :
    ∃ g', g.acceptWord w = .ok g' ∧ g'.Collecting k (got ++ [w]) (left + 1) ∧
      g'.handled = g.handled := by
  have hroom := h.room
  obtain ⟨buffer, hpush, hholds⟩ := h.buffer.pushWord (by omega) w
  have hleft := toNat_pred h.remaining
  have hne : g.mGp0WordsRemaining - 1 ≠ 0 := fun hzero => by
    rw [hzero] at hleft
    cases hleft
  refine ⟨g.queued buffer, ?_, ⟨h.mode, h.method, hleft, hholds, ?_, h.fits⟩, rfl⟩
  · simp only [acceptWord_command h.mode, hpush, ok_bind, if_neg hne]
  · rw [List.length_append, List.length_singleton]
    omega

/-- The handler of the command `cmd` is about to run. -/
structure Dispatched (g : Gpu) (cmd : List Word) : Prop where
  mode : g.mGp0Mode = .command
  remaining : g.mGp0WordsRemaining = 0
  buffer : g.mGp0Command.Holds cmd
  fits : g.mRenderer.Fits

/-- The last word of a command leads to its handler. -/
theorem Collecting.acceptWord_call {g : Gpu} {k : Gp0Method} {got : List Word}
    (h : g.Collecting k got 1) (w : Word) :
    ∃ d : Gpu, g.acceptWord w = d.call k ∧ d.Dispatched (got ++ [w]) ∧
      d.handled = g.handled ++ [(k, got ++ [w])] := by
  have hroom := h.room
  obtain ⟨buffer, hpush, hholds⟩ := h.buffer.pushWord (by omega) w
  have hzero : g.mGp0WordsRemaining - 1 = 0 := BitVec.eq_of_toNat_eq (toNat_pred h.remaining)
  refine ⟨(g.queued buffer).dispatched, ?_, ⟨h.mode, hzero, hholds, h.fits⟩, ?_⟩
  · simp only [acceptWord_command h.mode, hpush, ok_bind, if_pos hzero, h.method]
  · simp only [dispatched, queued, h.method, hholds.words]

/-- What the handler leaves behind. -/
theorem Called.done {d g : Gpu} {k : Gp0Method} {cmd : List Word} (h : d.Called g k)
    (hstate : d.Dispatched cmd) (hcmd : FullLength k cmd) : g.Done k cmd := by
  unfold Done
  split
  · next hk =>
    subst hk
    obtain ⟨first, pos, res, rfl⟩ := imageLoad_command hcmd
    have hget : some res = some (d.mGp0Command.get 2) :=
      hstate.buffer.get (i := 2) (Nat.lt_succ_self 2)
    refine ⟨h.mode, ?_, h.fits⟩
    rw [h.remaining, if_pos rfl, ← Option.some.inj hget, toNat_imageWords]
    rfl
  · next hk =>
    have hmode := h.mode
    have hremaining := h.remaining
    rw [if_neg hk] at hmode hremaining
    exact ⟨hmode.trans hstate.mode, hremaining.trans hstate.remaining, h.fits⟩

/-- The last word of a command runs its handler. -/
theorem Collecting.acceptWord_last {g : Gpu} {k : Gp0Method} {got : List Word} {w : Word}
    (h : g.Collecting k got 1) (hcmd : gp0Format.IsCommand k (got ++ [w])) :
    ∃ g', g.acceptWord w = .ok g' ∧ g'.Done k (got ++ [w]) ∧
      g'.handled = g.handled ++ [(k, got ++ [w])] := by
  obtain ⟨d, hword, hstate, hhandled⟩ := h.acceptWord_call w
  have hdepth : k = .gp0DrawMode → depthHandled (d.mGp0Command.get 0) = true := by
    rintro rfl
    obtain ⟨first, params, heq, -⟩ := hcmd.header
    have hholds := hstate.buffer
    have haccepted := hcmd.accepted
    rw [heq] at hholds haccepted
    have hget : some first = some (d.mGp0Command.get 0) := hholds.get (i := 0) (Nat.succ_pos _)
    rw [Option.some.inj hget] at haccepted
    exact haccepted
  obtain ⟨g', hcall, hcalled⟩ := call_called hstate.fits k hdepth
  exact ⟨g', hword.trans hcall, hcalled.done hstate hcmd.header, hcalled.handled.trans hhandled⟩

end Gpu

end CppStation
