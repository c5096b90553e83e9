import Mathlib.Data.List.Basic
import Mathlib.Data.Nat.ModEq

/-!
# Queues that send their items in batches

`push` sends the pending items first when there is no room for one more, `flush`
sends them in any case.  `contents` is everything put in so far: an operation
only moves items inside it.  Items that are pushed one after the other are sent
in one batch unless the queue fills up in between.
-/

namespace Batching

variable {α : Type} {capacity : Nat}

structure Queue (α : Type) where
  sent : List (List α)
  pending : List α

inductive Action (α : Type)
  | push (x : α)
  | flush

/-- The items that the actions put in. -/
def pushed : List (Action α) → List α
  | [] => []
  | .push x :: actions => x :: pushed actions
  | .flush :: actions => pushed actions

theorem pushed_append (actions rest : List (Action α)) :
    pushed (actions ++ rest) = pushed actions ++ pushed rest := by
  induction actions with
  | nil => rfl
  | cons action actions ih =>
    cases action with
    | push x => simp [pushed, ih]
    | flush => simpa [pushed] using ih

/-- The number of items pushed after the last flush, when `n` were pushed before. -/
def sinceFlush (n : Nat) : List (Action α) → Nat
  | [] => n
  | .push _ :: actions => sinceFlush (n + 1) actions
  | .flush :: actions => sinceFlush 0 actions

theorem sinceFlush_append (n : Nat) (actions rest : List (Action α)) :
    sinceFlush n (actions ++ rest) = sinceFlush (sinceFlush n actions) rest := by
  induction actions generalizing n with
  | nil => rfl
  | cons action actions ih => cases action <;> exact ih _

theorem sinceFlush_push (n : Nat) (xs : List α) :
    sinceFlush n (xs.map .push) = n + xs.length := by
  induction xs generalizing n with
  | nil => rfl
  | cons x xs ih =>
    rw [List.map_cons, sinceFlush, ih, List.length_cons]
    omega

namespace Queue

def empty : Queue α := ⟨[], []⟩

def contents (q : Queue α) : List α := q.sent.flatten ++ q.pending

def flush (q : Queue α) : Queue α := ⟨q.sent ++ [q.pending], []⟩

def push (capacity : Nat) (q : Queue α) (x : α) : Queue α :=
  if q.pending.length < capacity then
    ⟨q.sent, q.pending ++ [x]⟩
  else
    ⟨q.sent ++ [q.pending], [x]⟩

def step (capacity : Nat) (q : Queue α) : Action α → Queue α
  | .push x => q.push capacity x
  | .flush => q.flush

def run (capacity : Nat) (q : Queue α) (actions : List (Action α)) : Queue α :=
  actions.foldl (step capacity) q

/-! ## Nothing is lost -/

theorem contents_flush (q : Queue α) : q.flush.contents = q.contents := by
  simp [flush, contents]

theorem contents_push (q : Queue α) (x : α) : (q.push capacity x).contents = q.contents ++ [x] := by
  unfold push
  split
  · simp [contents]
  · simp [contents]

/-- **Conservation.** -/
theorem contents_run (q : Queue α) (actions : List (Action α)) :
    (q.run capacity actions).contents = q.contents ++ pushed actions := by
  induction actions generalizing q with
  | nil => simp [run, pushed]
  | cons action actions ih =>
    have hrest := ih (q.step capacity action)
    cases action with
    | push x =>
      rw [show (q.step capacity (.push x)).contents = _ from contents_push q x] at hrest
      simpa [run, pushed] using hrest
    | flush =>
      rw [show (q.step capacity .flush).contents = _ from contents_flush q] at hrest
      simpa [run, pushed] using hrest

/-! ## Nothing overflows -/

structure Bounded (capacity : Nat) (q : Queue α) : Prop where
  pending : q.pending.length ≤ capacity
  sent : ∀ batch ∈ q.sent, batch.length ≤ capacity

theorem bounded_empty : (empty : Queue α).Bounded capacity :=
  ⟨Nat.zero_le _, fun _ hmem => nomatch hmem⟩

theorem Bounded.flush {q : Queue α} (h : q.Bounded capacity) : q.flush.Bounded capacity := by
  refine ⟨Nat.zero_le _, ?_⟩
  intro batch hmem
  rcases List.mem_append.mp hmem with hold | hnew
  · exact h.sent batch hold
  · rw [List.mem_singleton.mp hnew]
    exact h.pending

theorem Bounded.push {q : Queue α} (h : q.Bounded capacity) (hpos : 0 < capacity) (x : α) :
    (q.push capacity x).Bounded capacity := by
  unfold Queue.push
  split
  · next hroom =>
    refine ⟨?_, h.sent⟩
    rw [List.length_append, List.length_singleton]
    exact hroom
  · exact ⟨hpos, h.flush.sent⟩

theorem Bounded.run {q : Queue α} (h : q.Bounded capacity) (hpos : 0 < capacity)
    (actions : List (Action α)) : (q.run capacity actions).Bounded capacity := by
  induction actions generalizing q with
  | nil => exact h
  | cons action actions ih =>
    cases action with
    | push x => exact ih (h.push hpos x)
    | flush => exact ih h.flush

/-- **The pending items** are those pushed after the last flush, less whole batches. -/
theorem Bounded.pending_modEq {q : Queue α} (h : q.Bounded capacity) (hpos : 0 < capacity) {n : Nat}
    (hn : q.pending.length ≡ n [MOD capacity]) (actions : List (Action α)) :
    (q.run capacity actions).pending.length ≡ sinceFlush n actions [MOD capacity] := by
  induction actions generalizing q n with
  | nil => exact hn
  | cons action actions ih =>
    cases action with
    | flush => exact ih h.flush rfl
    | push x =>
      refine ih (h.push hpos x) ?_
      have hnext : q.pending.length + 1 ≡ n + 1 [MOD capacity] := hn.add_right 1
      unfold Queue.push
      split
      · rw [List.length_append, List.length_singleton]
        exact hnext
      · next hfull =>
        have hlen : q.pending.length = capacity := Nat.le_antisymm h.pending (Nat.not_lt.mp hfull)
        rw [hlen] at hnext
        exact Nat.add_modEq_left.symm.trans hnext

/-! ## When a push sends nothing -/

/-- Items that fit are all still pending. -/
theorem run_push_of_fits {xs : List α} {q : Queue α}
    (hfits : q.pending.length + xs.length ≤ capacity) :
    q.run capacity (xs.map .push) = ⟨q.sent, q.pending ++ xs⟩ := by
  induction xs generalizing q with
  | nil => simp [run]
  | cons x xs ih =>
    rw [List.length_cons] at hfits
    have hroom : q.push capacity x = ⟨q.sent, q.pending ++ [x]⟩ := if_pos (by omega)
    have hrest := ih (q := q.push capacity x) (by rw [hroom]; simp; omega)
    rw [hroom] at hrest
    simpa [run, step, hroom] using hrest

/-- **Early batches**: everything is still pending exactly when it fits. -/
theorem pending_run_push_iff {q : Queue α} (h : q.Bounded capacity) (hpos : 0 < capacity)
    (xs : List α) :
    (q.run capacity (xs.map .push)).pending = q.pending ++ xs ↔
      q.pending.length + xs.length ≤ capacity := by
  constructor
  · intro heq
    have hbound := (h.run hpos (xs.map .push)).pending
    rwa [heq, List.length_append] at hbound
  · intro hfits
    rw [run_push_of_fits hfits]

end Queue

/-! ## Items in one batch -/

/-- One of the batches holds `xs`, with the items `before` in front of them. -/
def InOneBatch (batches : List (List α)) (before xs : List α) : Prop :=
  ∃ earlier pre post later, batches = earlier ++ (pre ++ xs ++ post) :: later ∧
    earlier.flatten ++ pre = before

/-- A batch ends after `n` items. -/
def EndsAfter (batches : List (List α)) (n : Nat) : Prop :=
  ∃ earlier later, batches = earlier ++ later ∧ earlier.flatten.length = n

theorem InOneBatch.append {batches : List (List α)} {before xs : List α}
    (h : InOneBatch batches before xs) (more : List (List α)) :
    InOneBatch (batches ++ more) before xs := by
  obtain ⟨earlier, pre, post, later, rfl, hbefore⟩ := h
  exact ⟨earlier, pre, post, later ++ more, by simp, hbefore⟩

theorem EndsAfter.append {batches : List (List α)} {n : Nat} (h : EndsAfter batches n)
    (more : List (List α)) : EndsAfter (batches ++ more) n := by
  obtain ⟨earlier, later, rfl, hlen⟩ := h
  exact ⟨earlier, later ++ more, List.append_assoc .., hlen⟩

/-- No batch holds items on both sides of an end. -/
theorem EndsAfter.not_inOneBatch {batches : List (List α)} {before xs : List α} {n : Nat}
    (h : EndsAfter batches n) (hlo : before.length < n) (hhi : n < before.length + xs.length) :
    ¬ InOneBatch batches before xs := by
  rintro ⟨earlier', pre, post, later', hbatch, hbefore⟩
  obtain ⟨earlier, later, rfl, hlen⟩ := h
  have hlength := congrArg List.length hbefore
  rw [List.length_append] at hlength
  rcases List.append_eq_append_iff.mp hbatch with ⟨between, heq, -⟩ | ⟨between, heq, hrest⟩
  · -- the end is in front of the batch
    rw [heq, List.flatten_append, List.length_append] at hlength
    omega
  · cases between with
    | nil =>
      rw [heq, List.append_nil] at hlen
      omega
    | cons batch between =>
      -- the batch is in front of the end
      rw [List.cons_append, List.cons.injEq] at hrest
      rw [heq, ← hrest.1] at hlen
      simp only [List.flatten_append, List.flatten_cons, List.length_append] at hlen
      omega

namespace Queue

/-- One batch that was sent, or the pending one, holds `xs`, with the items `before` in front of
them. -/
def Holds (q : Queue α) (before xs : List α) : Prop :=
  InOneBatch q.sent before xs ∨
    ∃ pre post, q.pending = pre ++ xs ++ post ∧ q.sent.flatten ++ pre = before

theorem Holds.inOneBatch_flush {q : Queue α} {before xs : List α} (h : q.Holds before xs) :
    InOneBatch q.flush.sent before xs := by
  rcases h with hsent | ⟨pre, post, hpending, hbefore⟩
  · exact hsent.append [q.pending]
  · exact ⟨q.sent, pre, post, [], by rw [flush, hpending], hbefore⟩

theorem Holds.step {q : Queue α} {before xs : List α} (h : q.Holds before xs)
    (action : Action α) : (q.step capacity action).Holds before xs := by
  cases action with
  | flush => exact .inl h.inOneBatch_flush
  | push x =>
    change (q.push capacity x).Holds before xs
    unfold push
    split
    · rcases h with hsent | ⟨pre, post, hpending, hbefore⟩
      · exact .inl hsent
      · exact .inr ⟨pre, post ++ [x], by simp [hpending], hbefore⟩
    · exact .inl h.inOneBatch_flush

theorem Holds.run {q : Queue α} {before xs : List α} (h : q.Holds before xs)
    (actions : List (Action α)) : (q.run capacity actions).Holds before xs := by
  induction actions generalizing q with
  | nil => exact h
  | cons action actions ih => exact ih (h.step action)

/-- What was sent stays sent. -/
theorem endsAfter_flush {q : Queue α} {n : Nat} (h : EndsAfter q.sent n) :
    EndsAfter q.flush.sent n :=
  h.append [q.pending]

theorem endsAfter_step {q : Queue α} {n : Nat} (h : EndsAfter q.sent n) (action : Action α) :
    EndsAfter (q.step capacity action).sent n := by
  cases action with
  | flush => exact endsAfter_flush h
  | push x =>
    change EndsAfter (q.push capacity x).sent n
    unfold push
    split
    · exact h
    · exact endsAfter_flush h

theorem endsAfter_run {q : Queue α} {n : Nat} (h : EndsAfter q.sent n)
    (actions : List (Action α)) : EndsAfter (q.run capacity actions).sent n := by
  induction actions generalizing q with
  | nil => exact h
  | cons action actions ih => exact ih (endsAfter_step h action)

theorem run_append (q : Queue α) (actions rest : List (Action α)) :
    q.run capacity (actions ++ rest) = (q.run capacity actions).run capacity rest :=
  List.foldl_append

/-- Items for which there is room are pending together. -/
theorem holds_push_of_fits {xs : List α} {q : Queue α}
    (hfits : q.pending.length + xs.length ≤ capacity) :
    (q.run capacity (xs.map .push)).Holds q.contents xs := by
  rw [run_push_of_fits hfits]
  exact .inr ⟨q.pending, [], (List.append_nil _).symm, rfl⟩

/-- A push to a full queue sends first. -/
theorem push_of_full {q : Queue α} (hpos : 0 < capacity) (hfull : q.pending.length = capacity)
    (x : α) : q.push capacity x = q.flush.push capacity x := by
  have hsent : q.push capacity x = ⟨q.sent ++ [q.pending], [x]⟩ := if_neg (by omega)
  have hstart : q.flush.push capacity x = ⟨q.sent ++ [q.pending], [x]⟩ := if_pos hpos
  rw [hsent, hstart]

/-- After a full queue the items start a new batch. -/
theorem holds_push_of_full {xs : List α} {q : Queue α} (hpos : 0 < capacity)
    (hfull : q.pending.length = capacity) (hne : xs ≠ []) (hlen : xs.length ≤ capacity) :
    (q.run capacity (xs.map .push)).Holds q.contents xs := by
  have hflush : q.run capacity (xs.map .push) = q.flush.run capacity (xs.map .push) := by
    cases xs with
    | nil => exact absurd rfl hne
    | cons x xs => exact congrArg (run capacity · (xs.map .push)) (push_of_full hpos hfull x)
  rw [hflush, ← contents_flush]
  refine holds_push_of_fits ?_
  rw [flush, List.length_nil, Nat.zero_add]
  exact hlen

/-- Items for which there is no room fill a batch up first. -/
theorem endsAfter_push {xs : List α} {q : Queue α} (hle : q.pending.length ≤ capacity)
    (hlen : capacity < q.pending.length + xs.length) :
    EndsAfter (q.run capacity (xs.map .push)).sent (q.sent.flatten.length + capacity) := by
  induction xs generalizing q with
  | nil =>
    rw [List.length_nil] at hlen
    omega
  | cons x xs ih =>
    change EndsAfter ((q.push capacity x).run capacity (xs.map .push)).sent _
    rw [List.length_cons] at hlen
    by_cases hroom : q.pending.length < capacity
    · have hpush : q.push capacity x = ⟨q.sent, q.pending ++ [x]⟩ := if_pos hroom
      rw [hpush]
      refine ih (q := ⟨q.sent, q.pending ++ [x]⟩) ?_ ?_
      · rw [List.length_append, List.length_singleton]
        exact hroom
      · rw [List.length_append, List.length_singleton]
        omega
    · have hpush : q.push capacity x = ⟨q.sent ++ [q.pending], [x]⟩ := if_neg hroom
      rw [hpush]
      refine endsAfter_run ⟨q.sent ++ [q.pending], [], (List.append_nil _).symm, ?_⟩ _
      rw [List.flatten_append, List.length_append, List.flatten_singleton]
      omega

/-- **Items pushed one after the other are sent in one batch** if there is room for all of them or
the queue is full. -/
theorem inOneBatch_push {xs : List α} {q : Queue α} (hpos : 0 < capacity) (hne : xs ≠ [])
    (hlen : xs.length ≤ capacity)
    (h : q.pending.length + xs.length ≤ capacity ∨ q.pending.length = capacity)
    (rest : List (Action α)) :
    InOneBatch ((q.run capacity (xs.map .push)).run capacity rest).flush.sent q.contents xs := by
  have hholds : (q.run capacity (xs.map .push)).Holds q.contents xs := by
    rcases h with hfits | hfull
    · exact holds_push_of_fits hfits
    · exact holds_push_of_full hpos hfull hne hlen
  exact (hholds.run rest).inOneBatch_flush

/-- Without room for all of them a batch ends where it is full. -/
theorem endsAfter_push_run {xs : List α} {q : Queue α} (hle : q.pending.length ≤ capacity)
    (hlen : capacity < q.pending.length + xs.length) (rest : List (Action α)) :
    EndsAfter ((q.run capacity (xs.map .push)).run capacity rest).flush.sent
      (q.sent.flatten.length + capacity) :=
  endsAfter_flush (endsAfter_run (endsAfter_push hle hlen) rest)

end Queue

/-! ## Why a batch was sent -/

/-- A batch that was sent, by a flush or because the queue was full. -/
structure Sending (α : Type) where
  batch : List α
  flushed : Bool

def Action.isFlush : Action α → Bool
  | .push _ => false
  | .flush => true

/-- What one action sends. -/
def Queue.sends (capacity : Nat) (q : Queue α) : Action α → List (Sending α)
  | .push _ => if q.pending.length < capacity then [] else [⟨q.pending, false⟩]
  | .flush => [⟨q.pending, true⟩]

/-- What the actions send, oldest first. -/
def Queue.sendings (capacity : Nat) : Queue α → List (Action α) → List (Sending α)
  | _, [] => []
  | q, action :: actions =>
    q.sends capacity action ++ (q.step capacity action).sendings capacity actions

namespace Queue

theorem sendings_append (q : Queue α) (actions rest : List (Action α)) :
    q.sendings capacity (actions ++ rest) =
      q.sendings capacity actions ++ (q.run capacity actions).sendings capacity rest := by
  induction actions generalizing q with
  | nil => rfl
  | cons action actions ih =>
    rw [List.cons_append, sendings, ih, sendings, List.append_assoc]
    rfl

theorem sent_step (q : Queue α) (action : Action α) :
    (q.step capacity action).sent =
      q.sent ++ (q.sends capacity action).map Sending.batch := by
  cases action with
  | flush => rfl
  | push x =>
    simp only [step, push, sends]
    split
    · exact (List.append_nil _).symm
    · rfl

/-- **The batches** are those of the sendings. -/
theorem sent_run (q : Queue α) (actions : List (Action α)) :
    (q.run capacity actions).sent =
      q.sent ++ (q.sendings capacity actions).map Sending.batch := by
  induction actions generalizing q with
  | nil => exact (List.append_nil _).symm
  | cons action actions ih =>
    have hrest := ih (q.step capacity action)
    rw [sent_step, List.append_assoc, ← List.map_append] at hrest
    exact hrest

/-- **A batch that no flush sent is full.** -/
theorem full_of_mem_sendings {q : Queue α} (h : q.Bounded capacity) (hpos : 0 < capacity)
    (actions : List (Action α)) :
    ∀ s ∈ q.sendings capacity actions, s.flushed = false → s.batch.length = capacity := by
  induction actions generalizing q with
  | nil => exact fun s hs => nomatch hs
  | cons action actions ih =>
    intro s hs hforced
    rcases List.mem_append.mp hs with hnow | hlater
    · cases action with
      | flush =>
        rw [List.mem_singleton.mp hnow] at hforced
        cases hforced
      | push x =>
        simp only [sends] at hnow
        split at hnow
        · cases hnow
        · next hfull =>
          rw [List.mem_singleton.mp hnow]
          exact Nat.le_antisymm h.pending (Nat.le_of_not_lt hfull)
    · cases action with
      | flush => exact ih h.flush s hlater hforced
      | push x => exact ih (h.push hpos x) s hlater hforced

theorem sends_flushed (q : Queue α) (action : Action α) :
    (q.sends capacity action).countP Sending.flushed = [action].countP Action.isFlush := by
  cases action with
  | flush => rfl
  | push x =>
    simp only [sends]
    split <;> rfl

/-- Every flush sends one batch. -/
theorem countP_sendings (q : Queue α) (actions : List (Action α)) :
    (q.sendings capacity actions).countP Sending.flushed = actions.countP Action.isFlush := by
  induction actions generalizing q with
  | nil => rfl
  | cons action actions ih =>
    rw [sendings, List.countP_append, sends_flushed, ih, ← List.countP_append,
      List.singleton_append]

end Queue

end Batching
