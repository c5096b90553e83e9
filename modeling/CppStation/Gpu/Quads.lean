import CppStation.Gpu.Batching

/-!
# Quads and batches

`pushQuad` reserves room for four vertices and pushes six: when the buffer has
room for exactly four more, the second triangle forces a draw after the first.
-/

namespace CppStation

open Fallible Batching

/-! ## Batches of vertices -/

theorem inOneBatch_verticesOf {batches : List (List Triangle)} {before ts : List Triangle}
    (h : InOneBatch batches before ts) :
    InOneBatch (batches.map verticesOf) (verticesOf before) (verticesOf ts) := by
  obtain ⟨earlier, pre, post, later, rfl, rfl⟩ := h
  refine ⟨earlier.map verticesOf, verticesOf pre, verticesOf post, later.map verticesOf, ?_, ?_⟩
  · rw [List.map_append, List.map_cons, verticesOf_append, verticesOf_append]
  · rw [verticesOf_append, verticesOf_flatten]

theorem endsAfter_verticesOf {batches : List (List Triangle)} {n : Nat}
    (h : EndsAfter batches n) : EndsAfter (batches.map verticesOf) (3 * n) := by
  obtain ⟨earlier, later, rfl, rfl⟩ := h
  refine ⟨earlier.map verticesOf, later.map verticesOf, List.map_append, ?_⟩
  rw [← verticesOf_flatten, length_verticesOf]

namespace Renderer

/-- When the last `display` has drawn what was queued, the six vertices of the quad pushed after
`history` are in one batch, after those that the history pushed. -/
def QuadWhole (history : List Call) (v1 v2 v3 v4 : Vertex) (rest : List Call) : Prop :=
  ∃ r, new.run (history ++ .push (.quad v1 v2 v3 v4) :: (rest ++ [.display])) = .ok r ∧
    InOneBatch r.canvas.batches (verticesOf (history.flatMap Call.triangles))
      (verticesOf (Primitive.quad v1 v2 v3 v4).triangles)

/-- Every quad of the run is drawn whole. -/
def QuadsWhole (calls : List Call) : Prop :=
  ∀ history v1 v2 v3 v4 rest, calls = history ++ .push (.quad v1 v2 v3 v4) :: rest →
    QuadWhole history v1 v2 v3 v4 rest

/-- No quad of the run is pushed to a buffer with room for exactly four vertices. -/
def QuadsAvoidMargin (calls : List Call) : Prop :=
  ∀ history v1 v2 v3 v4 rest, calls = history ++ .push (.quad v1 v2 v3 v4) :: rest →
    ∀ r, new.run history = .ok r → r.mVerticesNum.toNat + 4 ≠ vertexBufferLen

/-- The number of triangles that the calls push after the last `display`, when `n` were pushed
before. -/
def sinceDisplay (n : Nat) : List Call → Nat
  | [] => n
  | .push p :: calls => sinceDisplay (n + p.triangles.length) calls
  | .display :: calls => sinceDisplay 0 calls

theorem sinceFlush_actions (n : Nat) (calls : List Call) :
    sinceFlush n (calls.flatMap Call.actions) = sinceDisplay n calls := by
  induction calls generalizing n with
  | nil => rfl
  | cons c calls ih =>
    rw [List.flatMap_cons, sinceFlush_append]
    cases c with
    | push p =>
      rw [Call.actions, sinceFlush_push, ih]
      rfl
    | display => exact ih 0

/-- The queue after the triangles of a history. -/
theorem refines_history (history : List Call) :
    ∃ r q, new.run history = .ok r ∧ r.Refines q ∧
      q.contents = history.flatMap Call.triangles ∧
      ∀ actions, Queue.empty.run triangleCapacity (history.flatMap Call.actions ++ actions) =
        q.run triangleCapacity actions := by
  obtain ⟨r, hrun, href⟩ := refines_new.run history
  refine ⟨r, _, hrun, href, ?_, fun actions => Queue.run_append _ _ actions⟩
  rw [Queue.contents_run, pushed_actions]
  rfl

/-- The batches of the whole run, from the queue in front of the quad. -/
theorem quadWhole_iff_inOneBatch {history : List Call} {q : Queue Triangle}
    (hcontents : q.contents = history.flatMap Call.triangles)
    (hq : ∀ actions, Queue.empty.run triangleCapacity (history.flatMap Call.actions ++ actions) =
      q.run triangleCapacity actions) (v1 v2 v3 v4 : Vertex) (rest : List Call) :
    QuadWhole history v1 v2 v3 v4 rest ↔
      InOneBatch ((((q.run triangleCapacity
        ((Primitive.quad v1 v2 v3 v4).triangles.map .push)).run triangleCapacity
          (rest.flatMap Call.actions)).flush.sent).map verticesOf)
        (verticesOf q.contents) (verticesOf (Primitive.quad v1 v2 v3 v4).triangles) := by
  obtain ⟨r, hrun, href⟩ :=
    refines_new.run (history ++ .push (.quad v1 v2 v3 v4) :: (rest ++ [.display]))
  rw [List.flatMap_append, hq, List.flatMap_cons, List.flatMap_append, Queue.run_append,
    Queue.run_append] at href
  have hbatches := href.batches
  rw [hcontents]
  constructor
  · rintro ⟨r', hrun', hone⟩
    obtain rfl : r' = r := Except.ok.inj (hrun'.symm.trans hrun)
    rw [hbatches] at hone
    exact hone
  · intro hone
    refine ⟨r, hrun, ?_⟩
    rw [hbatches]
    exact hone

/-- Room for exactly four vertices is room for exactly one triangle. -/
theorem Refines.margin_iff {r : Renderer} {q : Queue Triangle} (h : r.Refines q) :
    r.mVerticesNum.toNat + 4 = vertexBufferLen ↔ q.pending.length + 1 = triangleCapacity := by
  rw [h.toNat_num]
  simp only [triangleCapacity, vertexBufferLen]
  omega

/-- **The condition on the buffer** is one on the calls: no quad is pushed when the triangles since
the last `display` are one less than a whole number of full buffers. -/
theorem quadsAvoidMargin_iff (calls : List Call) :
    QuadsAvoidMargin calls ↔
      ∀ history v1 v2 v3 v4 rest, calls = history ++ .push (.quad v1 v2 v3 v4) :: rest →
        (sinceDisplay 0 history + 1) % triangleCapacity ≠ 0 := by
  have hcalls : ∀ history, (∀ r, new.run history = .ok r →
      r.mVerticesNum.toNat + 4 ≠ vertexBufferLen) ↔
        (sinceDisplay 0 history + 1) % triangleCapacity ≠ 0 := by
    intro history
    obtain ⟨r, hrun, href⟩ := refines_new.run history
    have hcount := Queue.bounded_empty.pending_modEq (by decide : 0 < triangleCapacity)
      (Nat.ModEq.refl 0) (history.flatMap Call.actions)
    rw [sinceFlush_actions] at hcount
    have hnext := hcount.add_right 1
    have hbound := href.bounded.pending
    rw [Nat.ModEq] at hnext
    rw [← hnext]
    constructor
    · intro hr
      have hroom := mt href.margin_iff.mpr (hr r hrun)
      simp only [triangleCapacity, vertexBufferLen] at hroom hbound ⊢
      omega
    · intro hrest r' hrun'
      cases hrun.symm.trans hrun'
      refine mt href.margin_iff.mp fun hroom => hrest ?_
      rw [hroom]
      exact Nat.mod_self _
  constructor
  · intro h history v1 v2 v3 v4 rest hsplit
    exact (hcalls history).mp (h history v1 v2 v3 v4 rest hsplit)
  · intro h history v1 v2 v3 v4 rest hsplit
    exact (hcalls history).mpr (h history v1 v2 v3 v4 rest hsplit)

/-- **A quad is drawn whole exactly when** there was not room for exactly four vertices. -/
theorem quadWhole_iff {history : List Call} {r : Renderer} (hrun : new.run history = .ok r)
    (v1 v2 v3 v4 : Vertex) (rest : List Call) :
    QuadWhole history v1 v2 v3 v4 rest ↔ r.mVerticesNum.toNat + 4 ≠ vertexBufferLen := by
  obtain ⟨r', q, hrun', href, hcontents, hq⟩ := refines_history history
  obtain rfl : r' = r := Except.ok.inj (hrun'.symm.trans hrun)
  have hbound := href.bounded.pending
  have hlen : (Primitive.quad v1 v2 v3 v4).triangles.length = 2 := rfl
  rw [quadWhole_iff_inOneBatch hcontents hq, ne_eq, href.margin_iff]
  constructor
  · intro hone hmargin
    -- the first triangle fits and the second does not
    have hover : triangleCapacity <
        q.pending.length + (Primitive.quad v1 v2 v3 v4).triangles.length := by omega
    have hends := Queue.endsAfter_push_run hbound hover (rest.flatMap Call.actions)
    refine (endsAfter_verticesOf hends).not_inOneBatch ?_ ?_ hone
    · rw [length_verticesOf, Queue.contents, List.length_append]
      omega
    · rw [length_verticesOf, length_verticesOf, Queue.contents, List.length_append, hlen]
      omega
  · intro hmargin
    have hroom : q.pending.length + (Primitive.quad v1 v2 v3 v4).triangles.length ≤
        triangleCapacity ∨ q.pending.length = triangleCapacity := by omega
    have hsmall : (Primitive.quad v1 v2 v3 v4).triangles.length ≤ triangleCapacity := by
      rw [hlen]
      decide
    exact inOneBatch_verticesOf (Queue.inOneBatch_push (by decide) (List.cons_ne_nil _ _) hsmall
      hroom (rest.flatMap Call.actions))

/-- **Quads are drawn whole exactly in the runs** that push none to a buffer with room for exactly
four vertices. -/
theorem quadsWhole_iff (calls : List Call) : QuadsWhole calls ↔ QuadsAvoidMargin calls := by
  constructor
  · intro h history v1 v2 v3 v4 rest hcalls r hrun
    exact (quadWhole_iff hrun v1 v2 v3 v4 rest).mp (h history v1 v2 v3 v4 rest hcalls)
  · intro h history v1 v2 v3 v4 rest hcalls
    obtain ⟨r, hrun, -⟩ := refines_new.run history
    exact (quadWhole_iff hrun v1 v2 v3 v4 rest).mpr (h history v1 v2 v3 v4 rest hcalls r hrun)

/-- 5460 triangles leave room for four vertices. -/
theorem not_forall_quadsWhole : ¬ ∀ calls, QuadsWhole calls := by
  intro h
  let v : Vertex := ⟨⟨0, 0⟩, ⟨0, 0, 0⟩⟩
  let frame : List Primitive := List.replicate 5460 (.triangle v v v)
  have hwhole := h (frame.map .push ++ .push (.quad v v v v) :: []) (frame.map .push) v v v v [] rfl
  obtain ⟨r, hrun, href⟩ := refines_new.run (frame.map .push)
  have hlen : (frame.flatMap Primitive.triangles).length = 5460 :=
    length_replicate_triangles 5460 v v v
  have hfits : (Queue.empty : Queue Triangle).pending.length +
      (frame.flatMap Primitive.triangles).length ≤ triangleCapacity := by
    rw [hlen]
    decide
  rw [actions_of_push, Queue.run_push_of_fits hfits] at href
  have hnum := href.toNat_num
  rw [List.length_append, hlen] at hnum
  refine (quadWhole_iff hrun v v v v []).mp hwhole ?_
  rw [hnum]
  decide

end Renderer

end CppStation
