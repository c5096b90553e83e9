import CppStation.Gpu.Acceptance

/-!
# The soft reset

`GP1(0x00)` leaves the renderer, the words of the command buffer and the method
pointer as they are.  No later word reads what is left of them.  The registers
are those of a constructed GPU but for `mInterlaced`, which the constructor
clears and the reset sets.
-/

namespace CppStation

open Fallible

namespace CommandBuffer

/-- The two buffers have the same words in the queue. -/
structure Agree (b b' : CommandBuffer) : Prop where
  len : b'.mLen = b.mLen
  entries : ∀ i : Fin 12, (i : Nat) < b.mLen.toNat → b'.get i = b.get i

theorem agree_clear (b b' : CommandBuffer) : b.clear.Agree b'.clear :=
  ⟨rfl, fun i hi => absurd hi (Nat.not_lt_zero i)⟩

theorem Agree.pushWord {b b' : CommandBuffer} (h : b.Agree b') (word : Word) :
    Relates Agree (b.pushWord word) (b'.pushWord word) := by
  by_cases hroom : b.mLen.toNat < 12
  · have hroom' : b'.mLen.toNat < 12 := by rwa [h.len]
    rw [CommandBuffer.pushWord, CommandBuffer.pushWord, dif_pos hroom, dif_pos hroom']
    refine .ok ⟨congrArg (· + 1) h.len, fun i hi => ?_⟩
    have hslot : (⟨b'.mLen.toNat, hroom'⟩ : Fin 12) = ⟨b.mLen.toNat, hroom⟩ :=
      Fin.ext (congrArg BitVec.toNat h.len)
    have hlen : (b.mLen + 1).toNat = b.mLen.toNat + 1 := by
      rw [BitVec.toNat_add]
      exact Nat.mod_eq_of_lt (by simp; omega)
    simp only [CommandBuffer.get, hslot]
    by_cases hi' : i = ⟨b.mLen.toNat, hroom⟩
    · rw [hi', Function.update_self, Function.update_self]
    · rw [Function.update_of_ne hi', Function.update_of_ne hi']
      have hne : (i : Nat) ≠ b.mLen.toNat := fun heq => hi' (Fin.ext heq)
      exact h.entries i (by change (i : Nat) < (b.mLen + 1).toNat at hi; omega)
  · have hroom' : ¬ b'.mLen.toNat < 12 := by rwa [h.len]
    rw [CommandBuffer.pushWord, CommandBuffer.pushWord, dif_neg hroom, dif_neg hroom', h.len]
    exact .error _

/-- The buffer without the words that are not in the queue. -/
def queueOnly (b : CommandBuffer) : CommandBuffer :=
  ⟨fun i => if (i : Nat) < b.mLen.toNat then b.get i else 0, b.mLen⟩

theorem Agree.queueOnly {b b' : CommandBuffer} (h : b.Agree b') : b'.queueOnly = b.queueOnly := by
  have hentries : (fun i : Fin 12 => if (i : Nat) < b'.mLen.toNat then b'.get i else 0) =
      fun i : Fin 12 => if (i : Nat) < b.mLen.toNat then b.get i else 0 := by
    funext i
    rw [h.len]
    split
    · next hi => exact h.entries i hi
    · rfl
  rw [CommandBuffer.queueOnly, CommandBuffer.queueOnly, hentries, h.len]

end CommandBuffer

namespace Gpu

/-! ## What is no register -/

structure HiddenState where
  mRenderer : Renderer
  mGp0Command : CommandBuffer
  mGp0CommandMethod : Gp0Method
  received : List Word
  handled : List (Gp0Method × List Word)

def hiddenState (g : Gpu) : HiddenState where
  mRenderer := g.mRenderer
  mGp0Command := g.mGp0Command
  mGp0CommandMethod := g.mGp0CommandMethod
  received := g.received
  handled := g.handled

/-- The GPU `g` with another hidden state. -/
def withHidden (g : Gpu) (s : HiddenState) : Gpu :=
  { g with
    mRenderer := s.mRenderer
    mGp0Command := s.mGp0Command
    mGp0CommandMethod := s.mGp0CommandMethod
    received := s.received
    handled := s.handled }

/-- What a command can still read of `s` is as in `g`. -/
structure Hides (g : Gpu) (s : HiddenState) : Prop where
  buffer : g.mGp0Command.Agree s.mGp0Command
  method : g.mGp0WordsRemaining ≠ 0 → s.mGp0CommandMethod = g.mGp0CommandMethod
  fits : s.mRenderer.Fits

/-- What is left of `s` when the words that are not in the queue, the method pointer of a command
that is complete, the renderer and the record are forgotten. -/
def HiddenState.forget (s : HiddenState) (remaining : Word) : HiddenState where
  mRenderer := Renderer.new
  mGp0Command := s.mGp0Command.queueOnly
  mGp0CommandMethod := if remaining = 0 then .gp0Nop else s.mGp0CommandMethod
  received := []
  handled := []

/-- The registers of the GPU. -/
def registers (g : Gpu) : Gpu := g.withHidden (g.hiddenState.forget g.mGp0WordsRemaining)

theorem status_registers (g : Gpu) : g.registers.status = g.status := rfl

theorem Hides.registers {g : Gpu} {s : HiddenState} (h : g.Hides s) :
    (g.withHidden s).registers = g.registers := by
  have hforget : s.forget g.mGp0WordsRemaining = g.hiddenState.forget g.mGp0WordsRemaining := by
    unfold HiddenState.forget
    rw [h.buffer.queueOnly]
    by_cases hremaining : g.mGp0WordsRemaining = 0
    · rw [if_pos hremaining, if_pos hremaining]
      rfl
    · rw [h.method hremaining]
      rfl
  exact congrArg g.withHidden hforget

/-! ## The hidden state is not read -/

/-- Two states that differ in their hidden state. -/
def Alike (g g' : Gpu) : Prop := ∃ s, g.Hides s ∧ g' = g.withHidden s

/-- The results of a handler that reads the same buffer. -/
def SameBuffer (g : Gpu) (s : HiddenState) (g1 g2 : Gpu) : Prop :=
  ∃ r : Renderer, r.Fits ∧ g2 = g1.withHidden { s with mRenderer := r } ∧
    g1.mGp0Command = g.mGp0Command ∧ g1.mGp0CommandMethod = g.mGp0CommandMethod

theorem drawn_withHidden (g : Gpu) (s : HiddenState) {x y : Result Renderer}
    (hx : ∃ r, x = .ok r ∧ r.Fits) (hy : ∃ r, y = .ok r ∧ r.Fits) :
    Relates (SameBuffer g s) (do let r ← x; return { g with mRenderer := r })
      (do let r ← y; return { g.withHidden s with mRenderer := r }) := by
  obtain ⟨r, rfl, -⟩ := hx
  obtain ⟨r', rfl, hr'⟩ := hy
  exact .ok ⟨r', hr', rfl, rfl, rfl⟩

theorem call_sameBuffer {g : Gpu} {s : HiddenState} (hcommand : s.mGp0Command = g.mGp0Command)
    (hfits : g.mRenderer.Fits) (hs : s.mRenderer.Fits) (k : Gp0Method) :
    Relates (SameBuffer g s) (g.call k) ((g.withHidden s).call k) := by
  obtain ⟨renderer, buffer, method, received, handled⟩ := s
  cases hcommand
  cases k
  case gp0QuadMonoOpaque | gp0QuadTextureBlendOpaque | gp0QuadShadedOpaque =>
    exact drawn_withHidden g _ (hfits.pushQuad _ _ _ _) (hs.pushQuad _ _ _ _)
  case gp0TriangleShadedOpaque =>
    exact drawn_withHidden g _ (hfits.pushTriangle _ _ _) (hs.pushTriangle _ _ _)
  case gp0DrawMode =>
    simp only [call, gp0DrawMode_eq]
    change Relates _ (textureDepth (g.mGp0Command.get 0) >>= _)
      (textureDepth (g.mGp0Command.get 0) >>= _)
    cases textureDepth (g.mGp0Command.get 0) with
    | error e => exact .error e
    | ok depth => exact .ok ⟨renderer, hs, rfl, rfl, rfl⟩
  case gp0DrawingOffset => exact .ok ⟨renderer.display, Nat.zero_le _, rfl, rfl, rfl⟩
  all_goals exact .ok ⟨renderer, hs, rfl, rfl, rfl⟩

/-- A handler that reads only entries on which the buffers agree. -/
theorem call_withHidden {g : Gpu} {s : HiddenState} (h : g.Hides s) (hfits : g.mRenderer.Fits)
    (hmethod : s.mGp0CommandMethod = g.mGp0CommandMethod) {k : Gp0Method}
    (hreads : ∀ i ∈ reads k, (i : Nat) < g.mGp0Command.mLen.toNat) :
    Relates Alike (g.call k) ((g.withHidden s).call k) := by
  let s' : HiddenState := { s with mGp0Command := g.mGp0Command }
  have hcall : (g.withHidden s).call k =
      (g.withHidden s').call k >>= fun g' => .ok (g'.withCommand s.mGp0Command) :=
    call_withCommand (g := g.withHidden s') fun i hi => h.buffer.entries i (hreads i hi)
  have hsame : Relates (SameBuffer g s') (g.call k) ((g.withHidden s').call k) :=
    call_sameBuffer (s := s') rfl hfits h.fits k
  rw [hcall]
  generalize g.call k = x at hsame ⊢
  generalize (g.withHidden s').call k = y at hsame ⊢
  cases hsame with
  | error e => exact .error e
  | ok hR =>
    obtain ⟨r, hr, rfl, hbuffer, hpointer⟩ := hR
    refine .ok ⟨{ s with mRenderer := r }, ⟨?_, fun _ => ?_, hr⟩, rfl⟩
    · rw [hbuffer]
      exact h.buffer
    · rw [hpointer]
      exact hmethod

/-- At a command position everything hidden but the renderer is rewritten. -/
theorem startCommand_withHidden {g : Gpu} {s : HiddenState} (h : g.Hides s) (val : Word) :
    Relates (fun g1 g2 => ∃ s1 : HiddenState, g1.Hides s1 ∧
        s1.mGp0CommandMethod = g1.mGp0CommandMethod ∧ g2 = g1.withHidden s1)
      ((g.arrived val).startCommand val) (((g.withHidden s).arrived val).startCommand val) := by
  unfold startCommand
  change Relates _ (if g.mGp0WordsRemaining = 0 then _ else _)
    (if g.mGp0WordsRemaining = 0 then _ else _)
  by_cases hremaining : g.mGp0WordsRemaining = 0
  · rw [if_pos hremaining, if_pos hremaining]
    cases command val with
    | error e => exact .error e
    | ok entry =>
      obtain ⟨length, k⟩ := entry
      exact .ok ⟨⟨s.mRenderer, s.mGp0Command.clear, k, s.received ++ [val], s.handled⟩,
        ⟨CommandBuffer.agree_clear _ _, fun _ => rfl, h.fits⟩, rfl, rfl⟩
  · rw [if_neg hremaining, if_neg hremaining]
    exact .ok ⟨⟨s.mRenderer, s.mGp0Command, s.mGp0CommandMethod, s.received ++ [val], s.handled⟩,
      ⟨h.buffer, fun _ => h.method hremaining, h.fits⟩, h.method hremaining, rfl⟩

theorem acceptWord_withHidden {g : Gpu} {s : HiddenState} (h : g.Hides s)
    (hmethod : s.mGp0CommandMethod = g.mGp0CommandMethod) (hfits : g.mRenderer.Fits) {val : Word}
    (hreads : ∀ buffer, g.mGp0Mode = .command → g.mGp0Command.pushWord val = .ok buffer →
      g.mGp0WordsRemaining - 1 = 0 →
        ∀ i ∈ reads g.mGp0CommandMethod, (i : Nat) < buffer.mLen.toNat) :
    Relates Alike (g.acceptWord val) ((g.withHidden s).acceptWord val) := by
  cases hmode : g.mGp0Mode with
  | command =>
    have hmode' : (g.withHidden s).mGp0Mode = .command := hmode
    rw [acceptWord_command hmode, acceptWord_command hmode']
    refine (h.buffer.pushWord val).bind fun buffer buffer' hpush hagree => ?_
    change Relates Alike (if g.mGp0WordsRemaining - 1 = 0 then _ else _)
      (if g.mGp0WordsRemaining - 1 = 0 then _ else _)
    by_cases hlast : g.mGp0WordsRemaining - 1 = 0
    · rw [if_pos hlast, if_pos hlast]
      let t : HiddenState := ⟨s.mRenderer, buffer', s.mGp0CommandMethod, s.received,
        s.handled ++ [(s.mGp0CommandMethod, buffer'.words)]⟩
      have ht : (g.queued buffer).dispatched.Hides t := ⟨hagree, fun _ => hmethod, h.fits⟩
      have hcall := call_withHidden ht hfits hmethod (hreads buffer hmode hpush hlast)
      change Relates Alike _ (((g.queued buffer).dispatched.withHidden t).call s.mGp0CommandMethod)
      rw [hmethod]
      exact hcall
    · rw [if_neg hlast, if_neg hlast]
      exact .ok ⟨⟨s.mRenderer, buffer', s.mGp0CommandMethod, s.received, s.handled⟩,
        ⟨hagree, fun _ => hmethod, h.fits⟩, rfl⟩
  | imageLoad =>
    have hmode' : (g.withHidden s).mGp0Mode = .imageLoad := hmode
    rw [acceptWord_imageLoad hmode, acceptWord_imageLoad hmode']
    exact .ok ⟨s, ⟨h.buffer, fun _ => hmethod, h.fits⟩, rfl⟩

/-- **A GP0 word** does not read the hidden state. -/
theorem gp0_withHidden {g : Gpu} {p : Parser} {s : HiddenState} (hp : g.Parses p) (h : g.Hides s)
    (val : Word) : Relates Alike (g.gp0 val) ((g.withHidden s).gp0 val) := by
  rw [gp0_eq, gp0_eq]
  refine (startCommand_withHidden h val).bind fun g1 g2 hstart halike => ?_
  obtain ⟨s1, hs1, hmethod, rfl⟩ := halike
  have hfits : g1.mRenderer.Fits := by
    rw [(startCommand_frame hstart).1]
    exact hp.fits
  refine acceptWord_withHidden hs1 hmethod hfits fun buffer hmode hpush hlast => ?_
  have hdispatches : g.Dispatches val (g1.queued buffer).dispatched :=
    ⟨g1, buffer, hstart, hmode, hpush, hlast, rfl⟩
  obtain ⟨cmd, hfull, hholds, -⟩ := hp.dispatches hdispatches
  intro i hi
  have hlt := reads_lt_length hfull i hi
  rwa [← hholds.len] at hlt

/-- **A GP1 word** does not read it either. -/
theorem gp1_withHidden {g : Gpu} {s : HiddenState} (h : g.Hides s) (val : Word) :
    Relates Alike (g.gp1 val) ((g.withHidden s).gp1 val) := by
  by_cases hdisplay : IsDisplayWord val
  · rw [gp1_eq hdisplay, gp1_eq hdisplay]
    change Relates Alike (displayed g.displayState val >>= _) (displayed g.displayState val >>= _)
    cases displayed g.displayState val with
    | error e => exact .error e
    | ok d => exact .ok ⟨s, ⟨h.buffer, h.method, h.fits⟩, rfl⟩
  · let t : HiddenState := { s with mGp0Command := s.mGp0Command.clear }
    have hcleared : ∀ {g' : Gpu}, g'.mGp0Command = g.mGp0Command.clear →
        g'.mGp0WordsRemaining = 0 → g'.Hides t := by
      intro g' hclear hzero
      refine ⟨?_, fun hne => absurd hzero hne, h.fits⟩
      rw [hclear]
      exact CommandBuffer.agree_clear _ _
    have hop := opcode_toNat val
    rcases opcode_of_not_isDisplayWord hdisplay with hn | hn | hn
    · simp only [gp1, hop, hn]
      exact .ok ⟨t, hcleared rfl rfl, rfl⟩
    · simp only [gp1, hop, hn]
      exact .ok ⟨t, hcleared rfl rfl, rfl⟩
    · rw [gp1_panic hn, gp1_panic hn]
      exact .error _

theorem write_withHidden {g : Gpu} {p : Parser} {s : HiddenState} (hp : g.Parses p)
    (h : g.Hides s) (w : PortWrite) : Relates Alike (g.write w) ((g.withHidden s).write w) := by
  cases w with
  | gp0 val => exact gp0_withHidden hp h val
  | gp1 val => exact gp1_withHidden h val

/-- The relation that a run keeps: the visible state is a simulation. -/
def AlikeParsing (g g' : Gpu) : Prop := (∃ p, g.Parses p) ∧ g.Alike g'

theorem run_withHidden {g : Gpu} {p : Parser} {s : HiddenState} (hp : g.Parses p) (h : g.Hides s)
    (ws : List PortWrite) : Relates Alike (g.run ws) ((g.withHidden s).run ws) := by
  have hstep : ∀ a b w, AlikeParsing a b → Relates AlikeParsing (a.write w) (b.write w) := by
    rintro a _ w ⟨⟨q, hq⟩, t, ht, rfl⟩
    exact (write_withHidden hq ht w).imp fun a' b' ha' _ halike => ⟨⟨_, (hq.write ha').1⟩, halike⟩
  have hrun : Relates AlikeParsing (g.run ws) ((g.withHidden s).run ws) :=
    Relates.foldlM hstep ws ⟨⟨p, hp⟩, s, h, rfl⟩
  exact hrun.imp fun _ _ _ _ hR => hR.2

/-! ## The interlace bit -/

def withInterlaced (g : Gpu) (b : Bool) : Gpu := { g with mInterlaced := b }

/-- The words that write `mInterlaced`. -/
def SetsInterlaced : PortWrite → Prop
  | .gp0 _ => False
  | .gp1 val => val.toNat / 2 ^ 24 = 0 ∨ val.toNat / 2 ^ 24 = 8

theorem gp0_withInterlaced (g : Gpu) (b : Bool) (val : Word) :
    (g.withInterlaced b).gp0 val = g.gp0 val >>= fun g' => .ok (g'.withInterlaced b) := by
  have hdisplay := gp0_withDisplay g { g.displayState with mInterlaced := b } val
  refine hdisplay.trans ?_
  cases hport : g.gp0 val with
  | error e => rfl
  | ok g' =>
    rw [ok_bind, ok_bind, ← gp0_displayState hport]
    rfl

theorem gp1_withInterlaced {val : Word} (h : ¬ SetsInterlaced (.gp1 val)) (g : Gpu) (b : Bool) :
    (g.withInterlaced b).gp1 val = g.gp1 val >>= fun g' => .ok (g'.withInterlaced b) := by
  have hop := opcode_toNat val
  simp only [SetsInterlaced, not_or] at h
  simp only [gp1]
  split
  case h_1 => omega
  case h_5 =>
    unfold gp1DmaDirection
    split <;> rfl
  case h_9 => omega
  all_goals rfl

theorem gp1_of_setsInterlaced {val : Word} (h : SetsInterlaced (.gp1 val)) (g : Gpu) (b : Bool) :
    (g.withInterlaced b).gp1 val = g.gp1 val := by
  have hop := opcode_toNat val
  rcases h with hn | hn
  · simp only [gp1, hop, hn]
    rfl
  · simp only [gp1, hop, hn]
    by_cases hmode : val &&& 0x80 ≠ 0
    · simp only [gp1DisplayMode, if_pos hmode]
    · simp only [gp1DisplayMode, if_neg hmode]
      rfl

theorem write_withInterlaced {w : PortWrite} (h : ¬ SetsInterlaced w) (g : Gpu) (b : Bool) :
    (g.withInterlaced b).write w = g.write w >>= fun g' => .ok (g'.withInterlaced b) := by
  cases w with
  | gp0 val => exact gp0_withInterlaced g b val
  | gp1 val => exact gp1_withInterlaced h g b

/-- The bit is kept when no word writes it. -/
theorem run_withInterlaced {ws : List PortWrite} (h : ∀ w ∈ ws, ¬ SetsInterlaced w) (g : Gpu)
    (b : Bool) : (g.withInterlaced b).run ws =
      g.run ws >>= fun g' => .ok (g'.withInterlaced b) := by
  induction ws generalizing g with
  | nil => rfl
  | cons w ws ih =>
    obtain ⟨hfirst, hrest⟩ := List.forall_mem_cons.mp h
    rw [run, run, List.foldlM_cons, List.foldlM_cons, write_withInterlaced hfirst]
    cases g.write w with
    | error e => rfl
    | ok g1 => exact ih hrest g1

/-- The bit is forgotten when a word writes it. -/
theorem run_of_setsInterlaced {ws : List PortWrite} (h : ∃ w ∈ ws, SetsInterlaced w) (g : Gpu)
    (b : Bool) : (g.withInterlaced b).run ws = g.run ws := by
  induction ws generalizing g with
  | nil =>
    obtain ⟨_, hmem, _⟩ := h
    cases hmem
  | cons w ws ih =>
    rw [run, run, List.foldlM_cons, List.foldlM_cons]
    by_cases hfirst : SetsInterlaced w
    · cases w with
      | gp0 val => exact hfirst.elim
      | gp1 val =>
        rw [write, gp1_of_setsInterlaced hfirst]
        rfl
    · have hrest : ∃ w ∈ ws, SetsInterlaced w := by
        obtain ⟨w', hmem, hw'⟩ := h
        rcases List.mem_cons.mp hmem with rfl | hmem
        · exact absurd hw' hfirst
        · exact ⟨w', hmem, hw'⟩
      rw [write_withInterlaced hfirst]
      cases g.write w with
      | error e => rfl
      | ok g1 => exact ih hrest g1

/-! ## The reset -/

/-- No word writes `mField`. -/
theorem Reachable.field {g : Gpu} (h : Reachable g) : g.mField = .top := by
  obtain ⟨ws, hws⟩ := exists_run_of_reachable h
  have hnew : Gpu.new.ReflectsEvents [] := reflects_new
  exact Reflects.field (hnew.run parses_new hws)

/-- After a reset the GPU is a constructed one with the interlace bit set, up to its hidden
state. -/
theorem gp1Reset_eq {g : Gpu} (h : g.mField = .top) (val : Word) :
    g.gp1Reset val = (new.withInterlaced true).withHidden (g.gp1Reset val).hiddenState := by
  cases g
  cases h
  rfl

theorem hides_reset {g : Gpu} (h : g.mRenderer.Fits) (val : Word) :
    (new.withInterlaced true).Hides (g.gp1Reset val).hiddenState :=
  ⟨CommandBuffer.agree_clear CommandBuffer.new g.mGp0Command, fun hne => absurd rfl hne, h⟩

/-- The words `ws` have the same outcome in the state `g` as in a constructed GPU: the same error,
or the same status and registers after the same handlers. -/
def SameOutcome (g : Gpu) (ws : List PortWrite) : Prop :=
  Relates (fun a b => a.status = b.status ∧ a.registers = b.registers ∧
    a.handled = g.handled ++ b.handled) (g.run ws) (new.run ws)

/-- Each of the words `ws` has the same outcome in the state `g` as in a constructed GPU. -/
def ForgetsHistory (g : Gpu) (ws : List PortWrite) : Prop :=
  ∀ pre, pre <+: ws → pre ≠ [] → g.SameOutcome pre

/-- A word that no GPU between two commands takes: a GP0 word that starts no command, a draw mode
of depth 3, or a GP1 word that is not obeyed. -/
def Refused (w : PortWrite) : Prop := Parser.idle.takes w = false

/-- **What the reset forgets**: the words after it have the outcome they have from a constructed
GPU with the interlace bit set. -/
theorem run_reset {g : Gpu} (h : Reachable g) (val : Word) (ws : List PortWrite) :
    Relates (fun a b => a.registers = b.registers ∧
        a.handled = (g.gp1Reset val).handled ++ b.handled)
      ((g.gp1Reset val).run ws) ((new.withInterlaced true).run ws) := by
  have hparses : (new.withInterlaced true).Parses .idle := .idle ⟨rfl, rfl, Renderer.fits_new⟩
  have hparses' : (g.gp1Reset val).Parses .idle := .idle ⟨rfl, rfl, h.fits⟩
  have halike := run_withHidden hparses (hides_reset h.fits val) ws
  rw [← gp1Reset_eq h.field] at halike
  refine halike.flip.imp fun a b ha hb hR => ?_
  obtain ⟨s, hs, rfl⟩ := hR
  refine ⟨hs.registers, ?_⟩
  rw [hparses'.run ha, hparses.run hb]
  rfl

/-- Words that panic do so after the reset as well; words that do not have the outcome they have
from a constructed GPU exactly when one of them writes the interlace bit. -/
theorem sameOutcome_iff {g : Gpu} (h : Reachable g) (val : Word) (ws : List PortWrite) :
    (∀ e, new.run ws = .error e → (g.gp1Reset val).SameOutcome ws) ∧
      ∀ b, new.run ws = .ok b →
        ((g.gp1Reset val).SameOutcome ws ↔ ∃ w ∈ ws, SetsInterlaced w) := by
  have hrun := run_reset h val ws
  constructor
  · intro e he
    have herror : (new.withInterlaced true).run ws = .error e := by
      by_cases hsets : ∃ w ∈ ws, SetsInterlaced w
      · rw [run_of_setsInterlaced hsets, he]
      · rw [run_withInterlaced (by simpa using hsets), he]
        rfl
    rw [herror, ← he] at hrun
    exact hrun.imp fun a b _ hb _ => by cases he.symm.trans hb
  · intro b hb
    constructor
    · intro hforgets
      by_contra hnone
      have hkeeps : ∀ w ∈ ws, ¬ SetsInterlaced w := fun w hw hsets => hnone ⟨w, hw, hsets⟩
      rw [run_withInterlaced hkeeps, hb, ok_bind] at hrun
      rw [SameOutcome, hb] at hforgets
      generalize (g.gp1Reset val).run ws = x at hrun hforgets
      cases hforgets with
      | ok hsame =>
        cases hrun with
        | ok hreset =>
          have hcleared : (new.withInterlaced false).run ws = .ok b := hb
          rw [run_withInterlaced hkeeps, hb, ok_bind] at hcleared
          have hset : true = b.mInterlaced :=
            congrArg mInterlaced (hreset.1.symm.trans hsame.2.1)
          have hclear : false = b.mInterlaced := congrArg mInterlaced (Except.ok.inj hcleared)
          cases hset.trans hclear.symm
    · intro hsets
      rw [run_of_setsInterlaced hsets] at hrun
      refine hrun.imp fun a b' _ _ hR => ⟨?_, hR⟩
      rw [← status_registers, hR.1, status_registers]

/-- A sequence that begins with a refused word panics. -/
theorem run_refused {w : PortWrite} (h : Refused w) (ws : List PortWrite) :
    ∃ e, new.run (w :: ws) = .error e := by
  rcases parses_new.write_cases w with hok | ⟨format, args, hpanic⟩
  · rw [Refused, (parses_new.write_iff w).mp hok] at h
    cases h
  · refine ⟨.panic format args, ?_⟩
    rw [run, List.foldlM_cons, hpanic]
    rfl

/-- **When the reset forgets the history**: right after the reset the status differs from that of
a constructed GPU.  Each of the words that follow has the outcome that it has from a constructed
GPU exactly when the first of them writes the interlace bit, or is refused by both. -/
theorem forgetsHistory_iff {g g0 : Gpu} {val : Word} (h : Reachable g)
    (hval : val.toNat / 2 ^ 24 = 0) (hreset : g.gp1 val = .ok g0) (ws : List PortWrite) :
    g0.status ≠ new.status ∧
      (g0.ForgetsHistory ws ↔ ∀ w, ws.head? = some w → SetsInterlaced w ∨ Refused w) := by
  have hop := opcode_toNat val
  simp only [gp1, hop, hval] at hreset
  cases hreset
  refine ⟨?_, fun hforgets w hhead => ?_, fun hfirst pre hpre hne => ?_⟩
  · have hstatus : (g.gp1Reset val).status = (new.withInterlaced true).status := by
      rw [gp1Reset_eq h.field]
      rfl
    rw [hstatus]
    decide
  · obtain ⟨rest, rfl⟩ := List.head?_eq_some_iff.mp hhead
    refine or_iff_not_imp_right.mpr fun htaken => ?_
    have hone : (g.gp1Reset val).SameOutcome [w] :=
      hforgets [w] (List.cons_prefix_cons.mpr ⟨rfl, List.nil_prefix⟩) (List.cons_ne_nil w [])
    have htakes : Parser.idle.takes w = true := by simpa [Refused] using htaken
    obtain ⟨b, hb⟩ := (parses_new.write_iff w).mpr htakes
    have hrun : new.run [w] = .ok b := by
      rw [run, List.foldlM_cons, hb]
      rfl
    obtain ⟨w', hmem, hsets⟩ := ((sameOutcome_iff h val [w]).2 b hrun).mp hone
    rwa [List.mem_singleton.mp hmem] at hsets
  · obtain ⟨w, pre, rfl⟩ := List.exists_cons_of_ne_nil hne
    have hhead : ws.head? = some w := by
      obtain ⟨rest, rfl⟩ := hpre
      rfl
    have hiff := sameOutcome_iff h val (w :: pre)
    rcases hfirst w hhead with hsets | hrefused
    · cases hrun : new.run (w :: pre) with
      | error e => exact hiff.1 e hrun
      | ok b => exact (hiff.2 b hrun).mpr ⟨w, List.mem_cons_self, hsets⟩
    · obtain ⟨e, he⟩ := run_refused hrefused pre
      exact hiff.1 e he

/-- After a NOP the status registers still differ in bit 22. -/
theorem not_forall_forgetsHistory : ¬ ∀ g g0 val ws, Reachable g → val.toNat / 2 ^ 24 = 0 →
    g.gp1 val = .ok g0 → g0.ForgetsHistory ws := by
  intro h
  have hforgets := h new (new.gp1Reset 0) 0 [.gp0 0] .new rfl rfl
  have hone := hforgets [.gp0 0] (List.prefix_refl _) (List.cons_ne_nil _ _)
  unfold SameOutcome at hone
  have hbits : okAnd ((new.gp1Reset 0).run [.gp0 0]) (fun a => a.status.getLsbD 22) = true ∧
      okAnd (new.run [.gp0 0]) (fun b => !b.status.getLsbD 22) = true := by decide +kernel
  generalize (new.gp1Reset 0).run [.gp0 0] = x at hone hbits
  generalize new.run [.gp0 0] = y at hone hbits
  cases hone with
  | error e => cases hbits.1
  | ok hsame =>
    obtain ⟨hset, hclear⟩ := hbits
    rw [okAnd_ok] at hset hclear
    rw [← hsame.1, hset] at hclear
    cases hclear

/-- After a display mode word the two runs agree, word for word. -/
theorem forgetsHistory_displayMode :
    ∃ g g0, new.run [.gp0 0xa0000000, .gp0 0, .gp1 0x04000002] = .ok g ∧ g.gp1 0 = .ok g0 ∧
      g0.ForgetsHistory [.gp1 0x08000001, .gp0 0xe1000001, .gp1 0x04000001] := by
  have hrun : okAnd (new.run [.gp0 0xa0000000, .gp0 0, .gp1 0x04000002]) (fun _ => true) =
      true := by decide +kernel
  obtain ⟨g, hg, -⟩ := exists_of_okAnd hrun
  have hreset : g.gp1 0 = .ok (g.gp1Reset 0) := rfl
  have hiff := forgetsHistory_iff (Reachable.new.run hg) (by decide) hreset
    [.gp1 0x08000001, .gp0 0xe1000001, .gp1 0x04000001]
  refine ⟨g, g.gp1Reset 0, hg, hreset, hiff.2.mpr fun w hhead => .inl ?_⟩
  obtain rfl := Option.some.inj hhead
  exact .inr (by decide)

end Gpu

end CppStation
