import CppStation.Gpu.Display
import CppStation.Gpu.Segmentation

/-!
# The GP0 parser

`Parser` is what the mode, the number of missing words, the command buffer and
the method pointer amount to in a reachable state.  Every word that GP0 accepts
takes it one step (`Parses.gp0`), and the handlers run by the program are those
of the parser.
-/

namespace CppStation

open Fallible

namespace Gpu

/-! ## The parser -/

/-- Where the stream of GP0 words stands. -/
inductive Parser
  | idle
  /-- The words `got` of a command have come and `left + 1` are missing. -/
  | collecting (k : Gp0Method) (got : List Word) (left : Nat)
  /-- The next `left` words are image data; after an image load without data they are the words
  of the command that follows it. -/
  | loading (left : Nat)

namespace Parser

def swallow : Nat → Parser
  | 0 => idle
  | left + 1 => loading (left + 1)

def after (k : Gp0Method) (cmd : List Word) : Parser :=
  if k = .gp0ImageLoad then loading (gp0Format.data k cmd) else idle

/-- The words `cmd` have come and `left` are missing. -/
def accept (k : Gp0Method) (cmd : List Word) : Nat → Parser × List (Gp0Method × List Word)
  | 0 => (after k cmd, [(k, cmd)])
  | left + 1 => (collecting k cmd left, [])

/-- The next state, and the command that the word completes. -/
def gp0 : Parser → Word → Parser × List (Gp0Method × List Word)
  | idle, w =>
    match gp0Format.header w with
    | some (n, k) => accept k [w] n
    | none => (idle, [])
  | collecting k got left, w => accept k (got ++ [w]) left
  | loading 0, w =>
    match gp0Format.header w with
    | some (n, _) => (swallow n, [])
    | none => (loading 0, [])
  | loading (left + 1), _ => (swallow left, [])

/-- `GP1(0x00)` and `GP1(0x01)` drop an unfinished command or image. -/
def gp1 (p : Parser) (w : Word) : Parser := if w.toNat / 2 ^ 24 ≤ 1 then idle else p

end Parser

/-- The words `got` begin a command of kind `k` of which `left` words are missing. -/
def Begins (k : Gp0Method) (got : List Word) (left : Nat) : Prop :=
  ∃ w params, got = w :: params ∧ gp0Format.header w = some (params.length + left, k)

/-- The state of the program stands where the parser does. -/
inductive Parses (g : Gpu) : Parser → Prop
  | idle : g.Ready → Parses g .idle
  | collecting {k : Gp0Method} {got : List Word} {left : Nat} :
      g.Collecting k got (left + 1) → Begins k got (left + 1) → got <:+ g.received →
        Parses g (.collecting k got left)
  | loading {left : Nat} : g.Loading left → Parses g (.loading left)

theorem Parses.fits {g : Gpu} {p : Parser} (h : g.Parses p) : g.mRenderer.Fits := by
  cases h with
  | idle h => exact h.fits
  | collecting h _ _ => exact h.fits
  | loading h => exact h.fits

/-! ## Headers -/

/-- The table agrees with the program. -/
theorem header_of_command {w length : Word} {k : Gp0Method} (h : command w = .ok (length, k)) :
    ∃ n, gp0Format.header w = some (n, k) ∧ length = BitVec.ofNat 32 (n + 1) := by
  have hop := opcode_toNat w
  simp only [command] at h
  split at h
  case h_15 => cases h
  all_goals
    next hcase =>
      cases h
      rw [hcase] at hop
      simp only [gp0Format, ← hop]
      exact ⟨_, rfl, rfl⟩

theorem command_eq_panic {w : Word} (h : gp0Format.header w = none) :
    ∃ format args, command w = panic format args := by
  rcases hcommand : command w with fault | ⟨length, k⟩
  · simp only [command] at hcommand
    split at hcommand
    case h_15 =>
      cases hcommand
      exact ⟨_, _, rfl⟩
    all_goals cases hcommand
  · obtain ⟨n, hheader, -⟩ := header_of_command hcommand
    cases h.symm.trans hheader

/-! ## One word -/

theorem Done.parses {g : Gpu} {k : Gp0Method} {cmd : List Word} (h : g.Done k cmd) :
    g.Parses (Parser.after k cmd) := by
  unfold Done at h
  unfold Parser.after
  split at h
  · next hk =>
    rw [if_pos hk]
    exact .loading h
  · next hk =>
    rw [if_neg hk]
    exact .idle h

theorem Expecting.parses {g : Gpu} {left : Nat} (h : g.Expecting left) :
    g.Parses (Parser.swallow left) := by
  cases left with
  | zero => exact .idle h
  | succ left => exact .loading h

/-- A word of a command succeeds or panics. -/
theorem Collecting.acceptWord_cases {g : Gpu} {k : Gp0Method} {got : List Word} {left : Nat}
    (h : g.Collecting k got (left + 1)) (w : Word) :
    (∃ g', g.acceptWord w = .ok g') ∨ ∃ format args, g.acceptWord w = panic format args := by
  cases left with
  | zero =>
    obtain ⟨d, hword, hstate, -⟩ := h.acceptWord_call w
    rw [hword]
    rcases call_cases hstate.fits k with ⟨g', hcall, -⟩ | hpanic
    · exact .inl ⟨g', hcall⟩
    · exact .inr hpanic
  | succ left =>
    obtain ⟨g', hword, -⟩ := h.acceptWord_more w
    exact .inl ⟨g', hword⟩

theorem Collecting.parses {g g' : Gpu} {k : Gp0Method} {got : List Word} {left : Nat} {w : Word}
    (h : g.Collecting k got (left + 1)) (hbegins : Begins k (got ++ [w]) left)
    (hrecent : got ++ [w] <:+ g.received) (hword : g.acceptWord w = .ok g') :
    g'.Parses (Parser.accept k (got ++ [w]) left).1 ∧
      g'.handled = g.handled ++ (Parser.accept k (got ++ [w]) left).2 := by
  cases left with
  | zero =>
    obtain ⟨d, hcall, hstate, hhandled⟩ := h.acceptWord_call w
    have hcalled := called_of_call hstate.fits (hcall.symm.trans hword)
    exact ⟨(hcalled.done hstate hbegins).parses, hcalled.handled.trans hhandled⟩
  | succ left =>
    obtain ⟨g1, hmore, hcollecting, hhandled⟩ := h.acceptWord_more w
    cases hmore.symm.trans hword
    refine ⟨.collecting hcollecting hbegins ?_, hhandled.trans (List.append_nil _).symm⟩
    rwa [acceptWord_received hword]

theorem Begins.more {k : Gp0Method} {got : List Word} {left : Nat} (h : Begins k got (left + 1))
    (w : Word) : Begins k (got ++ [w]) left := by
  obtain ⟨first, params, rfl, hfirst⟩ := h
  refine ⟨first, params ++ [w], rfl, ?_⟩
  rw [hfirst, List.length_append, List.length_singleton, Nat.add_assoc, Nat.add_comm 1 left]

theorem gp0_panic {g : Gpu} (h : g.mGp0WordsRemaining = 0) {w : Word}
    (hw : gp0Format.header w = none) : ∃ format args, g.gp0 w = panic format args := by
  obtain ⟨format, args, hcommand⟩ := command_eq_panic hw
  have hstart : (g.arrived w).startCommand w = panic format args := by
    unfold startCommand
    rw [if_pos (show (g.arrived w).mGp0WordsRemaining = 0 from h), hcommand]
    rfl
  refine ⟨format, args, ?_⟩
  rw [gp0_eq, hstart]
  rfl

/-- **One GP0 word** moves the parser, and runs the handlers that the parser completes. -/
theorem Parses.gp0 {g g' : Gpu} {p : Parser} {w : Word} (h : g.Parses p)
    (hport : g.gp0 w = .ok g') :
    g'.Parses (p.gp0 w).1 ∧ g'.handled = g.handled ++ (p.gp0 w).2 := by
  cases h with
  | idle hready =>
    cases hheader : gp0Format.header w with
    | none =>
      obtain ⟨_, _, hpanic⟩ := gp0_panic hready.remaining hheader
      cases hpanic.symm.trans hport
    | some entry =>
      obtain ⟨n, k⟩ := entry
      obtain ⟨hstart, hcollecting⟩ := hready.gp0_header hheader
      rw [hstart] at hport
      have hbegins : Begins k ([] ++ [w]) n :=
        ⟨w, [], rfl, by rw [hheader, List.length_nil, Nat.zero_add]⟩
      simp only [Parser.gp0, hheader]
      exact hcollecting.parses hbegins (List.suffix_append g.received [w]) hport
  | collecting hcollecting hbegins hrecent =>
    obtain ⟨hstart, hcollecting'⟩ := hcollecting.gp0_param w
    rw [hstart] at hport
    obtain ⟨before, hbefore⟩ := hrecent
    refine hcollecting'.parses (hbegins.more w) ⟨before, ?_⟩ hport
    rw [← List.append_assoc, hbefore]
    rfl
  | @loading left hloading =>
    cases left with
    | zero =>
      cases hheader : gp0Format.header w with
      | none =>
        have hzero : g.mGp0WordsRemaining = 0 := BitVec.eq_of_toNat_eq hloading.remaining
        obtain ⟨_, _, hpanic⟩ := gp0_panic hzero hheader
        cases hpanic.symm.trans hport
      | some entry =>
        obtain ⟨n, k⟩ := entry
        obtain ⟨g1, hg1, hexpecting, hhandled⟩ := hloading.gp0_header hheader
        cases hg1.symm.trans hport
        simp only [Parser.gp0, hheader]
        exact ⟨hexpecting.parses, hhandled.trans (List.append_nil _).symm⟩
    | succ left =>
      obtain ⟨g1, hg1, hexpecting, hhandled⟩ := hloading.gp0_data w
      cases hg1.symm.trans hport
      exact ⟨hexpecting.parses, hhandled.trans (List.append_nil _).symm⟩

/-- A GP0 word succeeds or panics. -/
theorem Parses.gp0_cases {g : Gpu} {p : Parser} (h : g.Parses p) (w : Word) :
    (∃ g', g.gp0 w = .ok g') ∨ ∃ format args, g.gp0 w = panic format args := by
  cases h with
  | idle hready =>
    cases hheader : gp0Format.header w with
    | none => exact .inr (gp0_panic hready.remaining hheader)
    | some entry =>
      obtain ⟨hstart, hcollecting⟩ := hready.gp0_header hheader
      rw [hstart]
      exact hcollecting.acceptWord_cases w
  | collecting hcollecting _ _ =>
    obtain ⟨hstart, hcollecting'⟩ := hcollecting.gp0_param w
    rw [hstart]
    exact hcollecting'.acceptWord_cases w
  | @loading left hloading =>
    cases left with
    | zero =>
      cases hheader : gp0Format.header w with
      | none => exact .inr (gp0_panic (BitVec.eq_of_toNat_eq hloading.remaining) hheader)
      | some entry =>
        obtain ⟨g1, hg1, -⟩ := hloading.gp0_header hheader
        exact .inl ⟨g1, hg1⟩
    | succ left =>
      obtain ⟨g1, hg1, -⟩ := hloading.gp0_data w
      exact .inl ⟨g1, hg1⟩

theorem Parses.withDisplay {g : Gpu} {p : Parser} (h : g.Parses p) (d : DisplayState) :
    (g.withDisplay d).Parses p := by
  cases h with
  | idle h => exact .idle ⟨h.mode, h.remaining, h.fits⟩
  | collecting h hbegins hrecent =>
    exact .collecting ⟨h.mode, h.method, h.remaining, h.buffer, h.room, h.fits⟩ hbegins hrecent
  | loading h => exact .loading ⟨h.mode, h.remaining, h.fits⟩

/-- **One GP1 word.** -/
theorem Parses.gp1 {g g' : Gpu} {p : Parser} {w : Word} (h : g.Parses p)
    (hport : g.gp1 w = .ok g') : g'.Parses (p.gp1 w) ∧ g'.handled = g.handled := by
  rcases gp1_cases hport with ⟨hop, rfl⟩ | ⟨hop, rfl⟩ | ⟨hop, d, rfl⟩
  · rw [Parser.gp1, if_pos (by omega)]
    exact ⟨.idle ⟨rfl, rfl, h.fits⟩, rfl⟩
  · rw [Parser.gp1, if_pos (by omega)]
    exact ⟨.idle ⟨rfl, rfl, h.fits⟩, rfl⟩
  · rw [Parser.gp1, if_neg (by have := hop.1; omega)]
    exact ⟨h.withDisplay d, rfl⟩

theorem parses_new : new.Parses .idle := .idle ⟨rfl, rfl, Renderer.fits_new⟩

/-- **The invariant** of the four fields of the parser. -/
theorem Reachable.parses {g : Gpu} (h : Reachable g) : ∃ p, g.Parses p := by
  induction h with
  | new => exact ⟨_, parses_new⟩
  | gp0 _ hport ih =>
    obtain ⟨p, hp⟩ := ih
    exact ⟨_, (hp.gp0 hport).1⟩
  | gp1 _ hport ih =>
    obtain ⟨p, hp⟩ := ih
    exact ⟨_, (hp.gp1 hport).1⟩

/-! ## What the handlers read -/

/-- The entries of `mGp0Command` that a handler reads; `gp0ImageStore` prints the resolution. -/
def reads : Gp0Method → List (Fin 12)
  | .gp0Nop | .gp0ClearCache => []
  | .gp0QuadMonoOpaque => [0, 1, 2, 3, 4]
  | .gp0QuadTextureBlendOpaque => [1, 3, 5, 7]
  | .gp0TriangleShadedOpaque => [0, 1, 2, 3, 4, 5]
  | .gp0QuadShadedOpaque => [0, 1, 2, 3, 4, 5, 6, 7]
  | .gp0ImageLoad | .gp0ImageStore => [2]
  | .gp0DrawMode | .gp0TextureWindow | .gp0DrawingAreaTopLeft | .gp0DrawingAreaBottomRight
  | .gp0DrawingOffset | .gp0MaskBitSetting => [0]

/-- The GPU `g` with another command buffer. -/
def withCommand (g : Gpu) (b : CommandBuffer) : Gpu := { g with mGp0Command := b }

theorem drawn_withCommand (g : Gpu) (b : CommandBuffer) (x : Result Renderer) :
    (do let r ← x; return { g.withCommand b with mRenderer := r }) =
      (do let r ← x; return { g with mRenderer := r }) >>= fun g' => .ok (g'.withCommand b) := by
  cases x <;> rfl

/-- **A handler depends on no other entry.** -/
theorem call_withCommand {g : Gpu} {b : CommandBuffer} {method : Gp0Method}
    (h : ∀ i ∈ reads method, b.get i = g.mGp0Command.get i) :
    (g.withCommand b).call method = g.call method >>= fun g' => .ok (g'.withCommand b) := by
  have hget : ∀ i ∈ reads method, (g.withCommand b).mGp0Command.get i = g.mGp0Command.get i := h
  cases method
  case gp0Nop | gp0ClearCache | gp0ImageStore => rfl
  case gp0QuadMonoOpaque =>
    simp only [call, gp0QuadMonoOpaque, position, color, hget 0 (by decide), hget 1 (by decide),
      hget 2 (by decide), hget 3 (by decide), hget 4 (by decide)]
    exact drawn_withCommand g b _
  case gp0QuadTextureBlendOpaque =>
    simp only [call, gp0QuadTextureBlendOpaque, position, hget 1 (by decide),
      hget 3 (by decide), hget 5 (by decide), hget 7 (by decide)]
    exact drawn_withCommand g b _
  case gp0TriangleShadedOpaque =>
    simp only [call, gp0TriangleShadedOpaque, position, color, hget 0 (by decide),
      hget 1 (by decide), hget 2 (by decide), hget 3 (by decide), hget 4 (by decide),
      hget 5 (by decide)]
    exact drawn_withCommand g b _
  case gp0QuadShadedOpaque =>
    simp only [call, gp0QuadShadedOpaque, position, color, hget 0 (by decide),
      hget 1 (by decide), hget 2 (by decide), hget 3 (by decide), hget 4 (by decide),
      hget 5 (by decide), hget 6 (by decide), hget 7 (by decide)]
    exact drawn_withCommand g b _
  case gp0ImageLoad =>
    simp only [call, gp0ImageLoad, hget 2 (by decide)]
    rfl
  case gp0DrawMode =>
    simp only [call, gp0DrawMode_eq, hget 0 (by decide)]
    cases textureDepth (g.mGp0Command.get 0) <;> rfl
  case gp0TextureWindow =>
    simp only [call, gp0TextureWindow, hget 0 (by decide)]
    rfl
  case gp0DrawingAreaTopLeft =>
    simp only [call, gp0DrawingAreaTopLeft, hget 0 (by decide)]
    rfl
  case gp0DrawingAreaBottomRight =>
    simp only [call, gp0DrawingAreaBottomRight, hget 0 (by decide)]
    rfl
  case gp0DrawingOffset =>
    simp only [call, gp0DrawingOffset, hget 0 (by decide)]
    rfl
  case gp0MaskBitSetting =>
    simp only [call, gp0MaskBitSetting, hget 0 (by decide)]
    rfl

/-- The entries that a handler reads are among the words of its command. -/
theorem reads_lt_length {k : Gp0Method} {cmd : List Word} (h : FullLength k cmd) :
    ∀ i ∈ reads k, (i : Nat) < cmd.length := by
  obtain ⟨w, params, rfl, hw⟩ := h
  obtain ⟨entry, hfind, heq⟩ := Option.map_eq_some_iff.mp hw
  have hall : ∀ entry ∈ gp0Commands, ∀ i ∈ reads entry.2.2, (i : Nat) < entry.2.1 := by decide
  have hmem := List.mem_of_find?_eq_some hfind
  obtain ⟨hparams, rfl⟩ := Prod.mk.inj heq
  intro i hi
  have hlt := hall entry hmem i hi
  rw [List.length_cons]
  omega

/-! ## The command buffer -/

/-- The word `val` runs the handler `d.mGp0CommandMethod` in the state `d`. -/
def Dispatches (g : Gpu) (val : Word) (d : Gpu) : Prop :=
  ∃ g1 buffer, (g.arrived val).startCommand val = .ok g1 ∧ g1.mGp0Mode = .command ∧
    g1.mGp0Command.pushWord val = .ok buffer ∧ g1.mGp0WordsRemaining - 1 = 0 ∧
    d = (g1.queued buffer).dispatched

/-- The fields of the GP0 port. -/
structure PortState where
  mGp0Command : CommandBuffer
  mGp0WordsRemaining : Word
  mGp0CommandMethod : Gp0Method
  mGp0Mode : Gp0Mode
  received : List Word
  handled : List (Gp0Method × List Word)

/-- The GPU `g` with another GP0 port. -/
def withPort (g : Gpu) (s : PortState) : Gpu :=
  { g with
    mGp0Command := s.mGp0Command
    mGp0WordsRemaining := s.mGp0WordsRemaining
    mGp0CommandMethod := s.mGp0CommandMethod
    mGp0Mode := s.mGp0Mode
    received := s.received
    handled := s.handled }

theorem startCommand_withPort {g g1 : Gpu} {val : Word}
    (h : (g.arrived val).startCommand val = .ok g1) :
    ∃ s, g1 = g.withPort s ∧ s.handled = g.handled := by
  unfold startCommand at h
  split at h
  · obtain ⟨⟨length, k⟩, _, hret⟩ := bind_eq_ok.mp h
    cases hret
    exact ⟨⟨_, _, _, _, _, _⟩, rfl, rfl⟩
  · cases h
    exact ⟨⟨_, _, _, _, _, _⟩, rfl, rfl⟩

/-- **What a GP0 word can do**: change the port, and run a handler after that. -/
theorem gp0_step {g g' : Gpu} {val : Word} (h : g.gp0 val = .ok g') :
    ∃ s, (g' = g.withPort s ∧ s.handled = g.handled) ∨
      (g.Dispatches val (g.withPort s) ∧
        s.handled = g.handled ++ [(s.mGp0CommandMethod, s.mGp0Command.words)]) := by
  rw [gp0_eq] at h
  obtain ⟨g1, hstart, hword⟩ := bind_eq_ok.mp h
  obtain ⟨s, rfl, hhandled⟩ := startCommand_withPort hstart
  cases hmode : s.mGp0Mode with
  | command =>
    rw [acceptWord_command hmode] at hword
    obtain ⟨buffer, hpush, hrest⟩ := bind_eq_ok.mp hword
    split at hrest
    · next hlast =>
      refine ⟨⟨_, _, _, _, _, _⟩, .inr ⟨⟨_, buffer, hstart, hmode, hpush, hlast, rfl⟩, ?_⟩⟩
      rw [← hhandled]
      rfl
    · cases hrest
      exact ⟨⟨_, _, _, _, _, _⟩, .inl ⟨rfl, hhandled⟩⟩
  | imageLoad =>
    rw [acceptWord_imageLoad hmode] at hword
    cases hword
    exact ⟨⟨_, _, _, _, _, _⟩, .inl ⟨rfl, hhandled⟩⟩

theorem Dispatches.gp0_eq_call {g d : Gpu} {val : Word} (h : g.Dispatches val d) :
    g.gp0 val = d.call d.mGp0CommandMethod := by
  obtain ⟨g1, buffer, hstart, hmode, hpush, hlast, rfl⟩ := h
  rw [gp0_eq, hstart, ok_bind, acceptWord_command hmode, hpush, ok_bind, if_pos hlast]
  rfl

/-- The handler in state `d` reads only queued entries, these are the last words that GP0 got,
and the other entries of the buffer do not matter. -/
structure ReadsCurrent (d : Gpu) : Prop where
  queued : ∀ i ∈ reads d.mGp0CommandMethod, (i : Nat) < d.mGp0Command.mLen.toNat
  recent : d.mGp0Command.words <:+ d.received
  others : ∀ b : CommandBuffer,
    (∀ i : Fin 12, (i : Nat) < d.mGp0Command.mLen.toNat → b.get i = d.mGp0Command.get i) →
      (d.withCommand b).call d.mGp0CommandMethod =
        d.call d.mGp0CommandMethod >>= fun g' => .ok (g'.withCommand b)

theorem Collecting.dispatched {g : Gpu} {k : Gp0Method} {got : List Word} {left : Nat} {w : Word}
    {buffer : CommandBuffer} (h : g.Collecting k got (left + 1))
    (hbegins : Begins k (got ++ [w]) left) (hrecent : got ++ [w] <:+ g.received)
    (hpush : g.mGp0Command.pushWord w = .ok buffer) (hlast : g.mGp0WordsRemaining - 1 = 0) :
    ∃ cmd, FullLength g.mGp0CommandMethod cmd ∧ buffer.Holds cmd ∧ cmd <:+ g.received := by
  have hleft := toNat_pred h.remaining
  rw [hlast] at hleft
  obtain rfl : left = 0 := hleft.symm
  have hroom := h.room
  obtain ⟨buffer', hpush', hholds⟩ := h.buffer.pushWord (by omega) w
  cases hpush.symm.trans hpush'
  rw [h.method]
  exact ⟨got ++ [w], hbegins, hholds, hrecent⟩

/-- The words that are in the buffer when a handler is run are its command. -/
theorem Parses.dispatches {g d : Gpu} {p : Parser} {val : Word} (h : g.Parses p)
    (hd : g.Dispatches val d) :
    ∃ cmd, FullLength d.mGp0CommandMethod cmd ∧ d.mGp0Command.Holds cmd ∧ cmd <:+ d.received := by
  obtain ⟨g1, buffer, hstart, hmode, hpush, hlast, rfl⟩ := hd
  cases h with
  | idle hready =>
    cases hheader : gp0Format.header val with
    | none =>
      obtain ⟨_, _, hcommand⟩ := command_eq_panic hheader
      unfold startCommand at hstart
      rw [if_pos (show (g.arrived val).mGp0WordsRemaining = 0 from hready.remaining),
        hcommand] at hstart
      cases hstart
    | some entry =>
      obtain ⟨n, k⟩ := entry
      cases (startCommand_started hready.remaining hheader).symm.trans hstart
      have hcollecting := (hready.gp0_header hheader).2
      have hbegins : Begins k ([] ++ [val]) n :=
        ⟨val, [], rfl, by rw [hheader, List.length_nil, Nat.zero_add]⟩
      exact hcollecting.dispatched hbegins (List.suffix_append g.received [val]) hpush hlast
  | collecting hcollecting hbegins hrecent =>
    cases (startCommand_arrived hcollecting.remaining val).symm.trans hstart
    obtain ⟨before, hbefore⟩ := hrecent
    refine (hcollecting.gp0_param val).2.dispatched (hbegins.more val) ⟨before, ?_⟩ hpush hlast
    rw [← List.append_assoc, hbefore]
    rfl
  | loading hloading =>
    have hsame : g1.mGp0Mode = g.mGp0Mode := (startCommand_frame hstart).2.2
    cases hloading.mode.symm.trans (hsame.symm.trans hmode)

theorem Reachable.readsCurrent {g d : Gpu} {val : Word} (h : Reachable g)
    (hd : g.Dispatches val d) : d.ReadsCurrent := by
  obtain ⟨p, hp⟩ := h.parses
  obtain ⟨cmd, hfull, hholds, hrecent⟩ := hp.dispatches hd
  have hlt := reads_lt_length hfull
  rw [← hholds.len] at hlt
  refine ⟨hlt, ?_, ?_⟩
  · rwa [hholds.words]
  · intro b hb
    exact call_withCommand fun i hi => hb i (hlt i hi)

/-- A command has at least one word. -/
theorem startCommand_remaining {g g1 : Gpu} {val : Word} (h : g.startCommand val = .ok g1) :
    g1.mGp0WordsRemaining ≠ 0 := by
  unfold startCommand at h
  split at h
  · obtain ⟨⟨length, k⟩, hcommand, hret⟩ := bind_eq_ok.mp h
    cases hret
    obtain ⟨n, hheader, rfl⟩ := header_of_command hcommand
    have hlen := (command_of_header hheader).2.1
    intro hzero
    have hnat : (n + 1) % 2 ^ 32 = 0 := congrArg BitVec.toNat hzero
    omega
  · next hne =>
    cases h
    exact hne

/-- The header of an unfinished command, from the buffer. -/
theorem Collecting.header {g : Gpu} {k : Gp0Method} {got : List Word} {left : Nat}
    (h : g.Collecting k got (left + 1)) (hbegins : Begins k got (left + 1)) :
    ∃ length, command (g.mGp0Command.get 0) = .ok (length, g.mGp0CommandMethod) ∧
      g.mGp0Command.mLen.toNat + g.mGp0WordsRemaining.toNat = length.toNat := by
  obtain ⟨w, params, rfl, hw⟩ := hbegins
  obtain ⟨hcommand, hlt, -⟩ := command_of_header hw
  have hget : some w = some (g.mGp0Command.get 0) := h.buffer.get (i := 0) (Nat.succ_pos _)
  rw [← Option.some.inj hget, h.method]
  refine ⟨_, hcommand, ?_⟩
  rw [h.buffer.len, h.remaining, List.length_cons, BitVec.toNat_ofNat]
  omega

/-- **The command buffer is safe.**  In every reachable state: no array index is out of range when
a word comes in, the count of missing words is not 0 when it is decremented, an unfinished command
is the one whose header is in the buffer, and a handler only depends on its own words. -/
theorem commandBuffer_safe {g : Gpu} (h : Reachable g) (val : Word) :
    (∀ buffer index, g.gp0 val ≠ .error (.outOfBounds buffer index)) ∧
      (∀ g1, (g.arrived val).startCommand val = .ok g1 → g1.mGp0WordsRemaining ≠ 0) ∧
      (g.mGp0Mode = .command → g.mGp0WordsRemaining ≠ 0 → ∃ length,
        command (g.mGp0Command.get 0) = .ok (length, g.mGp0CommandMethod) ∧
          g.mGp0Command.mLen.toNat + g.mGp0WordsRemaining.toNat = length.toNat) ∧
      ∀ d, g.Dispatches val d → g.gp0 val = d.call d.mGp0CommandMethod ∧ d.ReadsCurrent := by
  obtain ⟨p, hp⟩ := h.parses
  refine ⟨?_, fun g1 hstart => startCommand_remaining hstart, ?_,
    fun d hd => ⟨hd.gp0_eq_call, h.readsCurrent hd⟩⟩
  · intro buffer index herror
    rcases hp.gp0_cases val with ⟨g', hok⟩ | ⟨_, _, hpanic⟩
    · cases hok.symm.trans herror
    · cases hpanic.symm.trans herror
  · intro hmode hremaining
    cases hp with
    | idle hready => exact absurd hready.remaining hremaining
    | collecting hcollecting hbegins _ => exact hcollecting.header hbegins
    | loading hloading => cases hloading.mode.symm.trans hmode

/-- A triangle of which two words have come, after an image load cut short by `GP1(0x01)`. -/
theorem commandBuffer_safe_triangle :
    ∃ g, new.run [.gp0 0xa0000000, .gp0 0, .gp0 0x00040004, .gp0 0xe1000001, .gp1 0x01000000,
        .gp0 0x30000000, .gp0 0x00010001] = .ok g ∧ g.mGp0WordsRemaining = 4 ∧
      ∃ length, command (g.mGp0Command.get 0) = .ok (length, g.mGp0CommandMethod) ∧
        g.mGp0Command.mLen.toNat + g.mGp0WordsRemaining.toNat = length.toNat := by
  have hrun : okAnd (new.run [.gp0 0xa0000000, .gp0 0, .gp0 0x00040004, .gp0 0xe1000001,
      .gp1 0x01000000, .gp0 0x30000000, .gp0 0x00010001]) (fun g =>
        g.mGp0WordsRemaining = 4 ∧ g.mGp0Mode = .command) = true := by decide +kernel
  obtain ⟨g, hg, htest⟩ := exists_of_okAnd hrun
  obtain ⟨hremaining, hmode⟩ := of_decide_eq_true htest
  have hreach : Reachable g := Reachable.new.run hg
  have hne : g.mGp0WordsRemaining ≠ 0 := by
    rw [hremaining]
    decide
  exact ⟨g, hg, hremaining, (commandBuffer_safe hreach 0).2.2.1 hmode hne⟩

end Gpu

end CppStation
