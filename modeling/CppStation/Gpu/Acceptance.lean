import CppStation.Gpu.StatusRegister

/-!
# The words that the GPU takes

The words on the two ports either leave the GPU in a reachable state or stop
the program.  Which of the two happens is decided by the parser alone: no value
in a register, in the command buffer or in the vertex buffer matters.
-/

namespace CppStation

open Fallible

namespace Gpu

/-! ## The language of the ports -/

/-- A first word starts a command that is accepted so far. -/
def startsCommand (w : Word) : Bool :=
  match gp0Format.header w with
  | some (_, k) => gp0Format.accepts k [w]
  | none => false

/-- `GP1(0x00)` to `GP1(0x08)`, the last one without the reverse flag. -/
def obeysGp1 (w : Word) : Bool :=
  w.toNat / 2 ^ 24 < 8 || (w.toNat / 2 ^ 24 == 8 && !w.getLsbD 7)

/-- The parser takes the word. -/
def Parser.takes : Parser → PortWrite → Bool
  | .idle, .gp0 w => startsCommand w
  | .collecting _ _ _, .gp0 _ => true
  -- An image load without data: the next word is looked up and dropped
  | .loading 0, .gp0 w => (gp0Format.header w).isSome
  | .loading (_ + 1), .gp0 _ => true
  | _, .gp1 w => obeysGp1 w

/-- Each word is taken where the words before it have led. -/
def Parser.accepts : Parser → List PortWrite → Bool
  | _, [] => true
  | p, w :: ws => p.takes w && (p.write w).1.accepts ws

/-! ## One GP0 word -/

/-- A draw mode word is a whole command. -/
theorem Begins.drawMode {cmd : List Word} {left : Nat} (h : Begins .gp0DrawMode cmd left) :
    ∃ w, cmd = [w] ∧ left = 0 := by
  obtain ⟨w, params, rfl, hheader⟩ := h
  obtain ⟨entry, hfind, heq⟩ := Option.map_eq_some_iff.mp hheader
  obtain ⟨hlen, hk⟩ := Prod.mk.inj heq
  have hone : ∀ entry ∈ gp0Commands, entry.2.2 = .gp0DrawMode → entry.2.1 = 1 := by decide
  have hlength := hone entry (List.mem_of_find?_eq_some hfind) hk
  have hparams : params = [] := List.eq_nil_of_length_eq_zero (by omega)
  exact ⟨w, by rw [hparams], by omega⟩

/-- Only a draw mode word is refused. -/
theorem accepts_of_ne {k : Gp0Method} (hk : k ≠ .gp0DrawMode) (cmd : List Word) :
    gp0Format.accepts k cmd = true := by
  cases k <;> first | rfl | exact absurd rfl hk

/-- The handler succeeds on the commands that the format accepts. -/
theorem Dispatched.call_iff {d : Gpu} {k : Gp0Method} {cmd : List Word} (h : d.Dispatched cmd)
    (hbegins : Begins k cmd 0) :
    (∃ g', d.call k = .ok g') ↔ gp0Format.accepts k cmd = true := by
  by_cases hk : k = .gp0DrawMode
  · subst hk
    obtain ⟨w, rfl, -⟩ := hbegins.drawMode
    have hget : some w = some (d.mGp0Command.get 0) := h.buffer.get (i := 0) (Nat.succ_pos _)
    change _ ↔ depthHandled w = true
    rw [Option.some.inj hget, call, gp0DrawMode_eq]
    cases hdepth : depthHandled (d.mGp0Command.get 0) with
    | true =>
      obtain ⟨depth, hval⟩ := textureDepth_of_handled hdepth
      rw [hval]
      exact ⟨fun _ => rfl, fun _ => ⟨_, rfl⟩⟩
    | false =>
      rw [textureDepth_of_not_handled hdepth]
      exact iff_of_false (error_no_result _) Bool.false_ne_true
  · obtain ⟨g', hcall, -⟩ := call_called h.fits k fun hmethod => absurd hmethod hk
    exact ⟨fun _ => accepts_of_ne hk cmd, fun _ => ⟨g', hcall⟩⟩

/-- A word of a command. -/
theorem Collecting.acceptWord_iff {g : Gpu} {k : Gp0Method} {got : List Word} {left : Nat}
    {w : Word} (h : g.Collecting k got (left + 1)) (hbegins : Begins k (got ++ [w]) left) :
    (∃ g', g.acceptWord w = .ok g') ↔ gp0Format.accepts k (got ++ [w]) = true := by
  cases left with
  | zero =>
    obtain ⟨d, hword, hstate, -⟩ := h.acceptWord_call w
    rw [hword]
    exact hstate.call_iff hbegins
  | succ left =>
    obtain ⟨g', hword, -⟩ := h.acceptWord_more w
    have hk : k ≠ .gp0DrawMode := by
      rintro rfl
      obtain ⟨_, _, hleft⟩ := hbegins.drawMode
      cases hleft
    exact ⟨fun _ => accepts_of_ne hk _, fun _ => ⟨g', hword⟩⟩

theorem Parses.gp0_iff {g : Gpu} {p : Parser} (h : g.Parses p) (w : Word) :
    (∃ g', g.gp0 w = .ok g') ↔ p.takes (.gp0 w) = true := by
  have hpanics {g : Gpu} (hzero : g.mGp0WordsRemaining = 0) (hheader : gp0Format.header w = none) :
      ¬ ∃ g', g.gp0 w = .ok g' := by
    rintro ⟨g', hport⟩
    obtain ⟨_, _, hpanic⟩ := gp0_panic hzero hheader
    cases hpanic.symm.trans hport
  cases h with
  | idle hready =>
    simp only [Parser.takes, startsCommand]
    cases hheader : gp0Format.header w with
    | none =>
      exact ⟨fun hok => absurd hok (hpanics hready.remaining hheader),
        fun hfalse => (by cases hfalse)⟩
    | some entry =>
      obtain ⟨n, k⟩ := entry
      obtain ⟨hstart, hcollecting⟩ := hready.gp0_header hheader
      have hbegins : Begins k ([] ++ [w]) n :=
        ⟨w, [], rfl, by rw [hheader, List.length_nil, Nat.zero_add]⟩
      rw [hstart]
      exact hcollecting.acceptWord_iff hbegins
  | @collecting k got left hcollecting hbegins _ =>
    obtain ⟨hstart, hcollecting'⟩ := hcollecting.gp0_param w
    have hk : k ≠ .gp0DrawMode := by
      rintro rfl
      obtain ⟨_, _, hleft⟩ := hbegins.drawMode
      cases hleft
    rw [hstart, hcollecting'.acceptWord_iff (hbegins.more w), accepts_of_ne hk]
    exact Iff.rfl
  | @loading left hloading =>
    cases left with
    | zero =>
      simp only [Parser.takes]
      cases hheader : gp0Format.header w with
      | none =>
        have hzero : g.mGp0WordsRemaining = 0 := BitVec.eq_of_toNat_eq hloading.remaining
        exact ⟨fun hok => absurd hok (hpanics hzero hheader), fun hfalse => (by cases hfalse)⟩
      | some entry =>
        obtain ⟨n, k⟩ := entry
        obtain ⟨g1, hg1, -⟩ := hloading.gp0_header hheader
        exact ⟨fun _ => rfl, fun _ => ⟨g1, hg1⟩⟩
    | succ left =>
      obtain ⟨g1, hg1, -⟩ := hloading.gp0_data w
      exact ⟨fun _ => rfl, fun _ => ⟨g1, hg1⟩⟩

/-! ## One GP1 word -/

theorem gp1DisplayMode_iff (g : Gpu) (val : Word) :
    (∃ g', g.gp1DisplayMode val = .ok g') ↔ val.getLsbD 7 = false := by
  have hbit : val &&& 0x80 = 0 ↔ val.getLsbD 7 = false := by
    rw [show (0x80 : Word) = BitVec.twoPow 32 7 by decide, BitVec.and_twoPow]
    cases val.getLsbD 7 <;> decide
  rw [← hbit]
  simp only [gp1DisplayMode]
  split
  · next hne => exact iff_of_false (error_no_result _) hne
  · next heq => exact ⟨fun _ => not_not.mp heq, fun _ => ⟨_, rfl⟩⟩

theorem gp1_iff (g : Gpu) (w : Word) : (∃ g', g.gp1 w = .ok g') ↔ obeysGp1 w = true := by
  have hop := opcode_toNat w
  have hobeys : obeysGp1 w = true ↔
      w.toNat / 2 ^ 24 < 8 ∨ w.toNat / 2 ^ 24 = 8 ∧ w.getLsbD 7 = false := by
    simp only [obeysGp1, Bool.or_eq_true, decide_eq_true_eq, Bool.and_eq_true, beq_iff_eq,
      Bool.not_eq_true']
  rw [hobeys]
  simp only [gp1]
  split
  case h_9 =>
    rw [gp1DisplayMode_iff]
    exact ⟨fun hbit => .inr ⟨by omega, hbit⟩, fun h => h.elim (fun _ => by omega) And.right⟩
  case h_10 =>
    exact iff_of_false (error_no_result _) fun h => by grind
  all_goals exact ⟨fun _ => .inl (by omega), fun _ => ⟨_, rfl⟩⟩

theorem gp1DisplayMode_cases (g : Gpu) (val : Word) :
    (∃ g', g.gp1DisplayMode val = .ok g') ∨
      ∃ format args, g.gp1DisplayMode val = panic format args := by
  simp only [gp1DisplayMode]
  split
  · exact .inr ⟨_, _, rfl⟩
  · exact .inl ⟨_, rfl⟩

/-- A GP1 word succeeds or panics. -/
theorem gp1_ok_or_panic (g : Gpu) (w : Word) :
    (∃ g', g.gp1 w = .ok g') ∨ ∃ format args, g.gp1 w = panic format args := by
  simp only [gp1]
  split
  case h_9 => exact g.gp1DisplayMode_cases w
  case h_10 => exact .inr ⟨_, _, rfl⟩
  all_goals exact .inl ⟨_, rfl⟩

/-! ## A run -/

theorem Parses.write_iff {g : Gpu} {p : Parser} (h : g.Parses p) (w : PortWrite) :
    (∃ g', g.write w = .ok g') ↔ p.takes w = true := by
  cases w with
  | gp0 val => exact h.gp0_iff val
  | gp1 val =>
    have htakes : p.takes (.gp1 val) = obeysGp1 val := by
      cases p with
      | loading left => cases left <;> rfl
      | idle | collecting => rfl
    rw [htakes]
    exact g.gp1_iff val

theorem Parses.write_cases {g : Gpu} {p : Parser} (h : g.Parses p) (w : PortWrite) :
    (∃ g', g.write w = .ok g') ∨ ∃ format args, g.write w = panic format args := by
  cases w with
  | gp0 val => exact h.gp0_cases val
  | gp1 val => exact g.gp1_ok_or_panic val

theorem Parses.accepts {ws : List PortWrite} {g : Gpu} {p : Parser} (h : g.Parses p) :
    ((∃ g', g.run ws = .ok g') ↔ p.accepts ws = true) ∧
      ((∃ g', g.run ws = .ok g') ∨ ∃ format args, g.run ws = panic format args) := by
  induction ws generalizing g p with
  | nil => exact ⟨⟨fun _ => rfl, fun _ => ⟨g, rfl⟩⟩, .inl ⟨g, rfl⟩⟩
  | cons w ws ih =>
    have htakes := h.write_iff w
    rw [Gpu.run, List.foldlM_cons, Parser.accepts, Bool.and_eq_true]
    rcases h.write_cases w with ⟨g1, hw⟩ | ⟨format, args, hw⟩
    · obtain ⟨hiff, hcases⟩ := ih (h.write hw).1
      rw [hw, ok_bind]
      exact ⟨hiff.trans ⟨fun haccepts => ⟨htakes.mp ⟨g1, hw⟩, haccepts⟩, And.right⟩, hcases⟩
    · have hrefused : p.takes w ≠ true := fun hp => by
        obtain ⟨g1, hw1⟩ := htakes.mpr hp
        cases hw.symm.trans hw1
      rw [hw, panic, error_bind]
      exact ⟨iff_of_false (error_no_result _) fun hp => hrefused hp.1, .inr ⟨format, args, rfl⟩⟩

/-! ## The parser of a state -/

/-- Where the fields of the port stand. -/
def parser (g : Gpu) : Parser :=
  match g.mGp0Mode with
  | .command =>
    if g.mGp0WordsRemaining = 0 then .idle
    else .collecting g.mGp0CommandMethod g.mGp0Command.words (g.mGp0WordsRemaining.toNat - 1)
  | .imageLoad => .loading g.mGp0WordsRemaining.toNat

theorem Parses.parser_eq {g : Gpu} {p : Parser} (h : g.Parses p) : g.parser = p := by
  cases h with
  | idle hready => simp only [parser, hready.mode, if_pos hready.remaining]
  | collecting hcollecting _ _ =>
    have hne : g.mGp0WordsRemaining ≠ 0 := fun hzero => by
      have hremaining := hcollecting.remaining
      rw [hzero] at hremaining
      cases hremaining
    simp only [parser, hcollecting.mode, if_neg hne, hcollecting.method, hcollecting.buffer.words,
      hcollecting.remaining, Nat.add_sub_cancel]
  | loading hloading => simp only [parser, hloading.mode, hloading.remaining]

theorem Reachable.parses_parser {g : Gpu} (h : Reachable g) : g.Parses g.parser := by
  obtain ⟨p, hp⟩ := h.parses
  rw [hp.parser_eq]
  exact hp

/-- **The language of the GPU.**  Exactly the sequences of port writes that the parser accepts are
run to their end; every other one ends in a panic, at the first word that the parser does not
take. -/
theorem run_iff_accepts (ws : List PortWrite) :
    ((∃ g, new.run ws = .ok g) ↔ Parser.idle.accepts ws = true) ∧
      (Parser.idle.accepts ws = false → ∃ format args, new.run ws = panic format args) := by
  obtain ⟨hiff, hcases⟩ := @Parses.accepts ws _ _ parses_new
  refine ⟨hiff, fun hrejected => hcases.resolve_left fun hok => ?_⟩
  rw [hiff.mp hok] at hrejected
  cases hrejected

/-- The unknown opcode is a parameter, then it is a header. -/
example : Parser.idle.accepts [.gp0 0xa0000000, .gp0 0xff000000, .gp0 0x00010002, .gp0 0xff000000,
    .gp1 0x08000000] = true ∧ Parser.idle.accepts [.gp0 0xa0000000, .gp1 0x01000000,
      .gp0 0xff000000] = false := by decide +kernel

end Gpu

end CppStation
