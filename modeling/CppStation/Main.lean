import CppStation.Cpu.Boot
import CppStation.Lib.Fuel

/-!
# The main loop (`main.cpp`)

The program executes a million instructions and then polls the window, until
the window is to be closed.  The answers of the host and of the window are
parameters.  The bound on the entries of a DMA list is not part of the program:
a step that returns does so with any bound from `2 ^ 19` on.
-/

namespace CppStation

open Fallible Fuel Transition

/-! ## The bound on lists -/

namespace Bus

theorem linkedListLoop_grows {ram : Ram} {n k : Nat} {addr : Word} {gpu : Gpu} (hle : n ≤ k)
    (hne : linkedListLoop ram n addr gpu ≠ .error .outOfFuel) :
    linkedListLoop ram k addr gpu = linkedListLoop ram n addr gpu := by
  induction n generalizing k addr gpu with
  | zero => exact absurd rfl hne
  | succ n ih =>
    cases k with
    | zero => exact absurd hle (Nat.not_succ_le_zero n)
    | succ k =>
      simp only [linkedListLoop] at hne ⊢
      cases hheader : ram.load32 addr.toNat with
      | error e => rfl
      | ok header =>
        simp only [hheader, ok_bind] at hne ⊢
        cases hpacket : packetLoop ram (header >>> 24).toNat addr gpu with
        | error e => rfl
        | ok gpu1 =>
          simp only [hpacket, ok_bind] at hne ⊢
          split
          · rfl
          · next hgo =>
            rw [if_neg hgo] at hne
            exact ih (Nat.le_of_succ_le_succ hle) hne

/-- A list that stops has fewer than `2 ^ 19` entries. -/
theorem settles_linkedListLoop (ram : Ram) (addr : Word) (gpu : Gpu) :
    Settles .outOfFuel (2 ^ 19) fun fuel => linkedListLoop ram fuel (addr &&& 0x1ffffc) gpu where
  grows _ _ hle hne := linkedListLoop_grows hle hne
  enough _ _ h := by
    obtain ⟨words, hwalk, hsent⟩ := linkedListLoop_eq_ok_iff.mp h
    exact linkedListLoop_eq_ok_iff.mpr ⟨words, Chain.walk_mono hwalk fun n => endsAt_lt, hsent⟩

theorem settles_doDma (b : Bus) (port : Port) :
    Settles .outOfFuel (2 ^ 19) fun fuel => b.doDma fuel port := by
  unfold doDma
  split
  · refine settles_ite (settles_const _) (settles_ite (settles_const _) ?_)
    exact (settles_linkedListLoop _ _ _).bind fun _ => settles_const _
  · exact settles_const _

theorem settles_setDmaReg (b : Bus) (offset val : Word) :
    Settles .outOfFuel (2 ^ 19) fun fuel => b.setDmaReg fuel offset val := by
  refine settles_ite ?_ (settles_const _)
  refine (settles_const _).bind fun port => (settles_const _).bind fun channel => ?_
  exact settles_ite (settles_doDma _ _) (settles_const _)

theorem settles_store32 (b : Bus) (addr val : Word) :
    Settles .outOfFuel (2 ^ 19) fun fuel => b.store32 fuel addr val := by
  refine settles_ite (settles_const _) (settles_ite (settles_const _) ?_)
  refine settles_ite (settles_const _) (settles_ite (settles_const _) ?_)
  refine settles_ite (settles_const _) (settles_ite (settles_setDmaReg _ _ _) ?_)
  exact settles_const _

end Bus

namespace Machine

variable {m m' : Machine}

theorem settles_bus (e : Effect) (b : Bus) :
    Settles .outOfFuel (2 ^ 19) fun fuel => e.bus fuel b := by
  unfold Effect.bus
  cases e.store with
  | none => exact settles_const _
  | some request =>
    cases request with
    | word addr val => exact b.settles_store32 addr val
    | half addr val => exact settles_const _
    | byte addr val => exact settles_const _

theorem settles_step (m : Machine) :
    Settles .outOfFuel (2 ^ 19) fun fuel => m.runNextInstruction fuel := by
  simp only [runNextInstruction_eq, execute_eq]
  refine settles_ite (settles_const _) ((settles_const _).bind fun instruction => ?_)
  refine (settles_const _).bind fun e => ?_
  exact ((settles_bus e m.mBus).mapError rfl).bind fun _ => settles_const _

theorem settles_run (m : Machine) (n : Nat) :
    Settles .outOfFuel (2 ^ 19) fun fuel => m.run fuel n := by
  induction n generalizing m with
  | zero => exact settles_const _
  | succ n ih => exact (settles_step m).bind ih

/-! ## Runs -/

theorem run_add (fuel n k : Nat) (m : Machine) :
    m.run fuel (n + k) = m.run fuel n >>= fun m => m.run fuel k := by
  induction n generalizing m with
  | zero => rw [Nat.zero_add, run, ok_bind]
  | succ n ih =>
    rw [Nat.succ_add, run, run]
    cases m.runNextInstruction fuel with
    | error e => rfl
    | ok m1 => exact ih m1

/-- A run of the program is a run of the relation. -/
theorem isRun_of_run {fuel n : Nat} (h : m.run fuel n = .ok m') :
    ∃ s, IsRun Next m n s ∧ s n = m' := by
  induction n generalizing m with
  | zero =>
    cases h
    exact ⟨fun _ => m', ⟨rfl, fun i hi => absurd hi (Nat.not_lt_zero i)⟩, rfl⟩
  | succ n ih =>
    obtain ⟨m1, hstep, hrest⟩ := bind_eq_ok.mp h
    obtain ⟨s, hs, hlast⟩ := ih hrest
    refine ⟨fun i => Nat.casesOn i m s, ⟨rfl, fun i hi => ?_⟩, hlast⟩
    cases i with
    | zero =>
      refine ⟨fuel, hstep.trans ?_⟩
      exact congrArg _ hs.start.symm
    | succ i => exact hs.next i (Nat.lt_of_succ_lt_succ hi)

/-- What fails, fails at a step of the relation. -/
theorem isRun_of_error {fuel n : Nat} {e : Fault} (h : m.run fuel n = .error e) :
    ∃ k < n, ∃ s, IsRun Next m k s ∧ (s k).runNextInstruction fuel = .error e := by
  induction n with
  | zero => cases h
  | succ n ih =>
    rw [run_add] at h
    rcases bind_eq_error.mp h with hfail | ⟨m1, hrun, hstep⟩
    · obtain ⟨k, hk, hs⟩ := ih hfail
      exact ⟨k, Nat.lt_succ_of_lt hk, hs⟩
    · obtain ⟨s, hs, rfl⟩ := isRun_of_run hrun
      refine ⟨n, Nat.lt_succ_self n, s, hs, ?_⟩
      rcases bind_eq_error.mp hstep with hfail | ⟨m2, -, hdone⟩
      · exact hfail
      · cases hdone

/-- The program makes each run of the relation. -/
theorem run_of_isRun {n : Nat} {s : Nat → Machine} (h : IsRun Next m n s) :
    m.run (2 ^ 19) n = .ok (s n) := by
  induction n with
  | zero =>
    rw [← h.start]
    rfl
  | succ n ih =>
    have hinit : IsRun Next m n s := ⟨h.start, fun i hi => h.next i (Nat.lt_succ_of_lt hi)⟩
    have hstep := (settles_step (s n)).ok_iff.mp (h.next n (Nat.lt_succ_self n))
    rw [run_add, ih hinit, ok_bind, run, hstep, ok_bind]
    rfl

/-- **The bound is no restriction.**  With a bound of `2 ^ 19` the program makes exactly the runs of
the relation, and what it does with any bound it does with every larger one. -/
theorem run_adequate (m : Machine) (n : Nat) :
    (∀ m', (∃ s, IsRun Next m n s ∧ s n = m') ↔ m.run (2 ^ 19) n = .ok m') ∧
      ∀ fuel k, fuel ≤ k → m.run fuel n ≠ .error .outOfFuel → m.run k n = m.run fuel n := by
  refine ⟨fun m' => ⟨?_, isRun_of_run⟩, (settles_run m n).grows⟩
  rintro ⟨s, hs, rfl⟩
  exact run_of_isRun hs

/-! ## The loop -/

def stepsPerFrame : Nat := 1000000

/-- The loop of `main` from frame `i` on, for at most `frames` frames. -/
def mainLoop (fuel : Nat) (shouldClose : Nat → Bool) : Nat → Nat → Machine → Result Machine
  | 0, _, _ => .error .outOfFuel
  | frames + 1, i, m => do
    let m ← m.run fuel stepsPerFrame
    if shouldClose i then return m
    else mainLoop fuel shouldClose frames (i + 1) m

/-- The program: the text of the start-up if it fails. -/
def main (host : Host) (shouldClose : Nat → Bool) (fuel frames : Nat) :
    Startup (Result Machine) := do
  let m ← boot host
  return mainLoop fuel shouldClose frames 0 m

/-- The window is first to be closed after frame `k`. -/
def ClosesAt (shouldClose : Nat → Bool) (k : Nat) : Prop :=
  shouldClose k = true ∧ ∀ i < k, shouldClose i = false

section

variable {shouldClose : Nat → Bool} {fuel frames : Nat}

theorem mainLoop_closes {k i : Nat} (hk : k < frames)
    (h : ClosesAt (fun j => shouldClose (i + j)) k) :
    mainLoop fuel shouldClose frames i m = m.run fuel (stepsPerFrame * (k + 1)) := by
  induction k generalizing i frames m with
  | zero =>
    obtain ⟨frames, rfl⟩ := Nat.exists_eq_succ_of_ne_zero (Nat.ne_of_gt hk)
    have hclose : shouldClose i = true := h.1
    simp only [mainLoop, hclose, if_true]
    rw [Nat.zero_add, Nat.mul_one]
    exact bind_pure _
  | succ k ih =>
    obtain ⟨frames, rfl⟩ := Nat.exists_eq_succ_of_ne_zero (Nat.ne_of_gt (Nat.zero_lt_of_lt hk))
    have hstay : shouldClose i = false := h.2 0 (Nat.succ_pos k)
    have hshift : (fun j => shouldClose (i + 1 + j)) = fun j => shouldClose (i + (j + 1)) :=
      funext fun j => congrArg shouldClose (by omega)
    have hlater : ClosesAt (fun j => shouldClose (i + 1 + j)) k := by
      rw [hshift]
      exact ⟨h.1, fun j hj => h.2 (j + 1) (Nat.succ_lt_succ hj)⟩
    rw [Nat.mul_succ, Nat.add_comm, run_add, mainLoop]
    simp only [hstay, Bool.false_eq_true, if_false]
    exact congrArg _ (funext fun m1 => ih (Nat.lt_of_succ_lt_succ hk) hlater)

theorem mainLoop_open {i : Nat} (h : ∀ j < frames, shouldClose (i + j) = false) :
    mainLoop fuel shouldClose frames i m =
      m.run fuel (stepsPerFrame * frames) >>= fun _ => .error .outOfFuel := by
  induction frames generalizing i m with
  | zero => rfl
  | succ frames ih =>
    have hstay : shouldClose i = false := h 0 (Nat.succ_pos frames)
    have hlater : ∀ j < frames, shouldClose (i + 1 + j) = false := by
      intro j hj
      have hshift : i + 1 + j = i + (j + 1) := by omega
      rw [hshift]
      exact h (j + 1) (Nat.succ_lt_succ hj)
    have hsplit : stepsPerFrame * (frames + 1) = stepsPerFrame + stepsPerFrame * frames := by
      rw [Nat.mul_succ, Nat.add_comm]
    rw [hsplit, run_add, mainLoop, bind_assoc]
    simp only [hstay, Bool.false_eq_true, if_false]
    exact congrArg _ (funext fun m1 => ih hlater)

theorem closesAt_or (shouldClose : Nat → Bool) (frames : Nat) :
    (∃ k < frames, ClosesAt shouldClose k) ∨ ∀ i < frames, shouldClose i = false := by
  by_cases h : ∃ k, k < frames ∧ shouldClose k = true
  · obtain ⟨hlt, hclose⟩ := Nat.find_spec h
    refine .inl ⟨Nat.find h, hlt, hclose, fun i hi => ?_⟩
    have hmin := Nat.find_min h hi
    simpa [Nat.lt_trans hi hlt] using hmin
  · refine .inr fun i hi => ?_
    by_contra hclose
    exact h ⟨i, hi, by simpa using hclose⟩

/-- The frames are one run: up to the first close, or all of them. -/
theorem mainLoop_cases (fuel frames : Nat) (shouldClose : Nat → Bool) (m : Machine) :
    (∃ k < frames, ClosesAt shouldClose k ∧
        mainLoop fuel shouldClose frames 0 m = m.run fuel (stepsPerFrame * (k + 1))) ∨
      (∀ i < frames, shouldClose i = false) ∧ mainLoop fuel shouldClose frames 0 m =
        m.run fuel (stepsPerFrame * frames) >>= fun _ => .error .outOfFuel := by
  rcases closesAt_or shouldClose frames with ⟨k, hk, hclose⟩ | hopen
  · refine .inl ⟨k, hk, hclose, mainLoop_closes hk ?_⟩
    simpa only [Nat.zero_add] using hclose
  · refine .inr ⟨hopen, mainLoop_open ?_⟩
    simpa only [Nat.zero_add] using hopen

/-- A failure ends the loop if it comes before the first close. -/
theorem mainLoop_error {n : Nat} {e : Fault} (hn : ∀ i, stepsPerFrame * (i + 1) ≤ n →
    shouldClose i = false) (h : m.run fuel (n + 1) = .error e) :
    mainLoop fuel shouldClose (n + 1) 0 m = .error e := by
  have hrest : ∀ k, n + 1 ≤ k → m.run fuel k = .error e := by
    intro k hk
    obtain ⟨j, rfl⟩ := Nat.exists_eq_add_of_le hk
    rw [run_add, h]
    rfl
  rcases mainLoop_cases fuel (n + 1) shouldClose m with ⟨k, hk, hclose, hloop⟩ | ⟨-, hloop⟩
  · rw [hloop]
    refine hrest _ (Nat.lt_of_not_le fun hle => ?_)
    exact Bool.false_ne_true ((hn k hle).symm.trans hclose.1)
  · have hpos : 0 < stepsPerFrame := by decide
    rw [hloop, hrest _ (Nat.le_mul_of_pos_left _ hpos)]
    rfl

end

/-! ## How the program ends -/

section

variable {host : Host} {shouldClose : Nat → Bool}

theorem main_eq_ok {fuel frames : Nat} {result : Result Machine} :
    main host shouldClose fuel frames = .ok result ↔
      ∃ bytes garbage, host.Starts bytes garbage ∧
        mainLoop fuel shouldClose frames 0 (reset ⟨Host.image bytes garbage⟩) = result := by
  simp only [main, bind_eq_ok, boot_eq_ok]
  constructor
  · rintro ⟨m₀, ⟨bytes, garbage, hstarts, rfl⟩, hloop⟩
    exact ⟨bytes, garbage, hstarts, Except.ok.inj hloop⟩
  · rintro ⟨bytes, garbage, hstarts, rfl⟩
    exact ⟨_, ⟨bytes, garbage, hstarts, rfl⟩, rfl⟩

theorem main_eq_error {fuel frames : Nat} {text : String} :
    main host shouldClose fuel frames = .error text ↔ host.Refuses text := by
  rw [main, bind_eq_error, boot_eq_error]
  refine ⟨fun h => h.resolve_right ?_, .inl⟩
  rintro ⟨m₀, -, hret⟩
  cases hret

/-- **The program returns** exactly when the host refuses nothing and all the steps up to the end
of the first frame with a closed window return; it then has made these steps and no others. -/
theorem main_returns_iff :
    (∃ fuel frames, main host shouldClose fuel frames = .ok (.ok m)) ↔
      ∃ bytes garbage k s, host.Starts bytes garbage ∧ ClosesAt shouldClose k ∧
        IsRun Next (reset ⟨Host.image bytes garbage⟩) (stepsPerFrame * (k + 1)) s ∧
        s (stepsPerFrame * (k + 1)) = m := by
  simp only [main_eq_ok]
  constructor
  · rintro ⟨fuel, frames, bytes, garbage, hstarts, hok⟩
    rcases mainLoop_cases fuel frames shouldClose (reset ⟨Host.image bytes garbage⟩) with
      ⟨k, -, hclose, hloop⟩ | ⟨-, hloop⟩
    · obtain ⟨s, hs, hlast⟩ := isRun_of_run (hloop.symm.trans hok)
      exact ⟨bytes, garbage, k, s, hstarts, hclose, hs, hlast⟩
    · obtain ⟨m1, -, hfail⟩ := bind_eq_ok.mp (hloop.symm.trans hok)
      cases hfail
  · rintro ⟨bytes, garbage, k, s, hstarts, hclose, hs, rfl⟩
    have hshift : ClosesAt (fun j => shouldClose (0 + j)) k := by
      simpa only [Nat.zero_add] using hclose
    refine ⟨2 ^ 19, k + 1, bytes, garbage, hstarts, ?_⟩
    rw [mainLoop_closes (Nat.lt_succ_self k) hshift]
    exact run_of_isRun hs

/-- A failing step ends the program if no frame before it was the last. -/
theorem main_error_iff {fault : Fault} (hfault : fault ≠ .outOfFuel) :
    (∃ fuel frames, main host shouldClose fuel frames = .ok (.error fault)) ↔
      ∃ bytes garbage n s, host.Starts bytes garbage ∧
        IsRun Next (reset ⟨Host.image bytes garbage⟩) n s ∧
        (∃ fuel, (s n).runNextInstruction fuel = .error fault) ∧
        ∀ i, stepsPerFrame * (i + 1) ≤ n → shouldClose i = false := by
  simp only [main_eq_ok]
  constructor
  · rintro ⟨fuel, frames, bytes, garbage, hstarts, hfails⟩
    rcases mainLoop_cases fuel frames shouldClose (reset ⟨Host.image bytes garbage⟩) with
      ⟨k, -, hclose, hloop⟩ | ⟨hopen, hloop⟩
    · obtain ⟨n, hn, s, hs, hfail⟩ := isRun_of_error (hloop.symm.trans hfails)
      refine ⟨bytes, garbage, n, s, hstarts, hs, ⟨fuel, hfail⟩, fun i hi => hclose.2 i ?_⟩
      exact Nat.lt_of_succ_lt_succ (Nat.lt_of_mul_lt_mul_left (Nat.lt_of_le_of_lt hi hn))
    · rcases bind_eq_error.mp (hloop.symm.trans hfails) with hrun | ⟨m1, -, hfail⟩
      · obtain ⟨n, hn, s, hs, hfail⟩ := isRun_of_error hrun
        refine ⟨bytes, garbage, n, s, hstarts, hs, ⟨fuel, hfail⟩, fun i hi => hopen i ?_⟩
        exact Nat.lt_of_succ_lt (Nat.lt_of_mul_lt_mul_left (Nat.lt_of_le_of_lt hi hn))
      · exact absurd (Except.error.inj hfail).symm hfault
  · rintro ⟨bytes, garbage, n, s, hstarts, hs, ⟨fuel, hfail⟩, hopen⟩
    let m₀ := reset ⟨Host.image bytes garbage⟩
    let bound := max (2 ^ 19) fuel
    have hrun : m₀.run bound n = .ok (s n) :=
      (settles_run m₀ n).of_le (Nat.le_max_left _ _) (run_of_isRun hs) (error_ne_ok _ _).symm
    have hother : (.error fault : Result Machine) ≠ .error .outOfFuel := fun h =>
      hfault (Except.error.inj h)
    have hstep : (s n).runNextInstruction bound = .error fault :=
      (settles_step (s n)).of_le (Nat.le_max_right _ _) hfail hother
    refine ⟨bound, n + 1, bytes, garbage, hstarts, mainLoop_error hopen ?_⟩
    rw [run_add, hrun, ok_bind, run, hstep]
    rfl

/-- **The program ends with a text** exactly when the host refuses something of the start-up, or a
step of a run from the start-up panics and the window did not close in a frame before it. -/
theorem main_panics_iff :
    (∀ text, (∃ fuel frames, main host shouldClose fuel frames = .error text) ↔
        host.Refuses text) ∧
      ∀ format args,
        (∃ fuel frames, main host shouldClose fuel frames = .ok (panic format args)) ↔
          ∃ bytes garbage n s, host.Starts bytes garbage ∧
            IsRun Next (reset ⟨Host.image bytes garbage⟩) n s ∧
            (∃ fuel, (s n).runNextInstruction fuel = panic format args) ∧
            ∀ i, stepsPerFrame * (i + 1) ≤ n → shouldClose i = false := by
  refine ⟨fun text => ?_, fun format args => main_error_iff fun h => nomatch h⟩
  simp only [main_eq_error]
  exact ⟨fun ⟨_, _, h⟩ => h, fun h => ⟨0, 0, h⟩⟩

/-- `lui r8, 0x1f80; sw r0, 0x108c(r8)`: the text has the instruction count. -/
example : ((reset (.ofWords [0x3c081f80, 0xad00108c])).run 0 2 matches
    .error (.panic _ [12, 0, 12, 0, 1])) = true := by decide +kernel

end

end Machine

end CppStation
