import CppStation.Gpu.Reachable
import CppStation.Lib.Batching

/-!
# Batches of triangles and displayed frames

The renderer is a batching queue of triangles: the vertex buffer has room for
5461 of them and one more vertex.  `Canvas` is what the recorded calls do to
OpenGL: `glClear` erases the back buffer, `glDrawArraysInstanced` draws the
triangles of the uploaded vertices over it.
-/

namespace CppStation

open Fallible Batching

/-! ## OpenGL -/

abbrev Triangle := Vertex × Vertex × Vertex

def Triangle.vertices : Triangle → List Vertex
  | (v1, v2, v3) => [v1, v2, v3]

/-- The primitives that `GL_TRIANGLES` assembles from an array of vertices. -/
def assemble : List Vertex → List Triangle
  | v1 :: v2 :: v3 :: rest => (v1, v2, v3) :: assemble rest
  | _ => []

/-- The vertices of a list of triangles. -/
def verticesOf (ts : List Triangle) : List Vertex := ts.flatMap Triangle.vertices

theorem assemble_verticesOf (ts : List Triangle) : assemble (verticesOf ts) = ts := by
  induction ts with
  | nil => rfl
  | cons t ts ih => exact congrArg (t :: ·) ih

theorem length_verticesOf (ts : List Triangle) : (verticesOf ts).length = 3 * ts.length := by
  induction ts with
  | nil => rfl
  | cons t ts ih =>
    have hcons : (verticesOf (t :: ts)).length = (verticesOf ts).length + 3 := rfl
    rw [hcons, ih, List.length_cons]
    omega

theorem verticesOf_append (ts us : List Triangle) :
    verticesOf (ts ++ us) = verticesOf ts ++ verticesOf us :=
  List.flatMap_append

theorem verticesOf_flatten (batches : List (List Triangle)) :
    verticesOf batches.flatten = (batches.map verticesOf).flatten := by
  induction batches with
  | nil => rfl
  | cons batch batches ih =>
    rw [List.flatten_cons, verticesOf_append, ih]
    rfl

structure Canvas where
  /-- The uploaded vertex buffer. -/
  buffer : List Vertex
  /-- The vertices of each draw call, oldest first. -/
  batches : List (List Vertex)
  /-- The content of the back buffer, in drawing order. -/
  back : List Triangle
  /-- The pictures that were swapped to the front, oldest first. -/
  shown : List (List Triangle)

namespace Canvas

def new : Canvas := ⟨[], [], [], []⟩

def exec (c : Canvas) : GlCall → Canvas
  | .clear => { c with back := [] }
  | .bufferSubData vertices => { c with buffer := vertices ++ c.buffer.drop vertices.length }
  | .drawArraysInstanced count =>
    { c with
      batches := c.batches ++ [c.buffer.take count]
      back := c.back ++ assemble (c.buffer.take count) }
  | .swapBuffers => { c with shown := c.shown ++ [c.back] }
  | .pollEvents => c

def run (c : Canvas) (calls : List GlCall) : Canvas := calls.foldl exec c

end Canvas

namespace Renderer

/-- The vertices that wait in the buffer. -/
def queued (r : Renderer) : List Vertex := (List.range r.mVerticesNum.toNat).map r.mVertexBuf

def canvas (r : Renderer) : Canvas := Canvas.new.run r.glCalls

theorem length_queued (r : Renderer) : r.queued.length = r.mVerticesNum.toNat := by
  simp [queued]

/-! ## One vertex, one draw -/

/-- The state after `v` is stored. -/
def added (r : Renderer) (v : Vertex) : Renderer :=
  { r with
    mVertexBuf := Function.update r.mVertexBuf r.mVerticesNum.toNat v
    mVerticesNum := r.mVerticesNum + 1 }

theorem reserve_of_room {r : Renderer} {count : Word}
    (h : r.mVerticesNum.toNat + count.toNat ≤ vertexBufferLen) : r.reserve count = r := by
  refine if_neg (BitVec.not_lt.mpr ?_)
  rw [BitVec.le_def, BitVec.toNat_add, BitVec.toNat_ofNat]
  exact Nat.le_trans (Nat.mod_le _ _) h

theorem reserve_of_full {r : Renderer} {count : Word} (hfits : r.Fits)
    (hcount : count.toNat ≤ vertexBufferLen)
    (h : vertexBufferLen < r.mVerticesNum.toNat + count.toNat) : r.reserve count = r.draw := by
  have hsum : r.mVerticesNum.toNat + count.toNat < 2 ^ 32 :=
    Nat.lt_of_le_of_lt (Nat.add_le_add hfits hcount) (by decide)
  refine if_pos ?_
  rw [BitVec.lt_def, BitVec.toNat_add, Nat.mod_eq_of_lt hsum]
  exact h

theorem toNat_added {r : Renderer} (h : r.mVerticesNum.toNat < vertexBufferLen) (v : Vertex) :
    (r.added v).mVerticesNum.toNat = r.mVerticesNum.toNat + 1 := by
  have hlen : vertexBufferLen < 2 ^ 32 := by decide
  change (r.mVerticesNum + 1#32).toNat = _
  rw [BitVec.toNat_add]
  exact Nat.mod_eq_of_lt (Nat.lt_of_le_of_lt h hlen)

theorem queued_added {r : Renderer} (h : r.mVerticesNum.toNat < vertexBufferLen) (v : Vertex) :
    (r.added v).queued = r.queued ++ [v] := by
  rw [queued, toNat_added h, List.range_succ, List.map_append]
  congr 1
  · refine List.map_congr_left fun i hi => ?_
    exact Function.update_of_ne (Nat.ne_of_lt (List.mem_range.mp hi)) v r.mVertexBuf
  · simp [added]

theorem pushVertex_of_room {r : Renderer} (h : r.mVerticesNum.toNat < vertexBufferLen)
    (v : Vertex) : r.pushVertex v = .ok (r.added v) := by
  have hreserve : r.reserve 1 = r := reserve_of_room h
  simp only [pushVertex, hreserve]
  exact if_pos h

/-- The calls of `draw`. -/
def drawCalls (vertices : List Vertex) : List GlCall :=
  [.clear, .bufferSubData vertices, .drawArraysInstanced vertices.length]

theorem glCalls_draw (r : Renderer) : r.draw.glCalls = r.glCalls ++ drawCalls r.queued := by
  rw [drawCalls, length_queued]
  rfl

theorem canvas_draw (r : Renderer) :
    r.draw.canvas = { r.canvas with
      buffer := r.queued ++ r.canvas.buffer.drop r.queued.length
      batches := r.canvas.batches ++ [r.queued]
      back := assemble r.queued } := by
  rw [canvas, Canvas.run, glCalls_draw, List.foldl_append]
  simp [drawCalls, Canvas.exec, canvas, Canvas.run]

theorem canvas_display (r : Renderer) :
    r.display.canvas = { r.draw.canvas with
      shown := r.draw.canvas.shown ++ [r.draw.canvas.back] } := by
  simp [display, canvas, Canvas.run, Canvas.exec]

/-! ## The calls of the GPU -/

inductive Primitive
  | triangle (v1 v2 v3 : Vertex)
  | quad (v1 v2 v3 v4 : Vertex)

inductive Call
  | push (p : Primitive)
  | display

def call (r : Renderer) : Call → Result Renderer
  | .push (.triangle v1 v2 v3) => r.pushTriangle v1 v2 v3
  | .push (.quad v1 v2 v3 v4) => r.pushQuad v1 v2 v3 v4
  | .display => .ok r.display

def run (r : Renderer) (calls : List Call) : Result Renderer := calls.foldlM call r

/-- The triangles of a primitive; a quad counts as two. -/
def Primitive.triangles : Primitive → List Triangle
  | .triangle v1 v2 v3 => [(v1, v2, v3)]
  | .quad v1 v2 v3 v4 => [(v1, v2, v3), (v2, v3, v4)]

/-- The triangles that a call pushes. -/
def Call.triangles : Call → List Triangle
  | .push p => p.triangles
  | .display => []

/-! ## The renderer as a queue of triangles -/

/-- The number of triangles that fit in the vertex buffer. -/
def triangleCapacity : Nat := vertexBufferLen / 3

structure Refines (r : Renderer) (q : Queue Triangle) : Prop where
  bounded : q.Bounded triangleCapacity
  queued : r.queued = verticesOf q.pending
  batches : r.canvas.batches = q.sent.map verticesOf
  draws : ∀ count, .drawArraysInstanced count ∈ r.glCalls →
    count % 3 = 0 ∧ count ≤ vertexBufferLen

theorem refines_new : new.Refines Queue.empty :=
  ⟨Queue.bounded_empty, rfl, rfl, fun _ hmem => nomatch hmem⟩

theorem Refines.toNat_num {r : Renderer} {q : Queue Triangle} (h : r.Refines q) :
    r.mVerticesNum.toNat = 3 * q.pending.length := by
  rw [← length_queued, h.queued, length_verticesOf]

theorem Refines.fits {r : Renderer} {q : Queue Triangle} (h : r.Refines q) : r.Fits := by
  have hlen := h.bounded.pending
  rw [Fits, h.toNat_num]
  simp only [triangleCapacity, vertexBufferLen] at hlen ⊢
  omega

/-- A draw sends the pending triangles. -/
theorem Refines.draw {r : Renderer} {q : Queue Triangle} (h : r.Refines q) :
    r.draw.Refines q.flush where
  bounded := h.bounded.flush
  queued := rfl
  batches := by
    rw [canvas_draw, h.queued]
    simp [h.batches, Queue.flush]
  draws count hmem := by
    rw [glCalls_draw, List.mem_append] at hmem
    rcases hmem with hold | hnew
    · exact h.draws count hold
    · have hcount : count = r.queued.length := by simpa [drawCalls] using hnew
      rw [hcount, length_queued]
      refine ⟨?_, h.fits⟩
      rw [h.toNat_num]
      exact Nat.mul_mod_right 3 _

theorem Refines.display {r : Renderer} {q : Queue Triangle} (h : r.Refines q) :
    r.display.Refines q.flush where
  bounded := h.draw.bounded
  queued := h.draw.queued
  batches := by
    rw [canvas_display]
    exact h.draw.batches
  draws count hmem := h.draw.draws count (by simpa [Renderer.display] using hmem)

/-- Three vertices for which there is room. -/
theorem Refines.added {r : Renderer} {q : Queue Triangle} (h : r.Refines q)
    (hroom : q.pending.length < triangleCapacity) (v1 v2 v3 : Vertex) :
    ∃ r', (do
      let r ← r.pushVertex v1
      let r ← r.pushVertex v2
      r.pushVertex v3) = .ok r' ∧ r'.Refines ⟨q.sent, q.pending ++ [(v1, v2, v3)]⟩ := by
  have hnum := h.toNat_num
  have hlt : r.mVerticesNum.toNat + 2 < vertexBufferLen := by
    simp only [triangleCapacity, vertexBufferLen] at hroom ⊢
    omega
  have h1 : r.mVerticesNum.toNat < vertexBufferLen := by omega
  have h2 : (r.added v1).mVerticesNum.toNat < vertexBufferLen := by
    rw [toNat_added h1]
    omega
  have h3 : ((r.added v1).added v2).mVerticesNum.toNat < vertexBufferLen := by
    rw [toNat_added h2, toNat_added h1]
    exact hlt
  refine ⟨((r.added v1).added v2).added v3, ?_, ⟨?_, ?_, h.batches, h.draws⟩⟩
  · simp only [pushVertex_of_room h1, pushVertex_of_room h2, pushVertex_of_room h3, ok_bind]
  · refine ⟨?_, h.bounded.sent⟩
    rw [List.length_append, List.length_singleton]
    exact hroom
  · rw [queued_added h3, queued_added h2, queued_added h1, h.queued]
    simp [verticesOf, Triangle.vertices]

/-- With a whole number of triangles in the buffer there is room for four vertices exactly when
there is room for three. -/
theorem Refines.reserve {r : Renderer} {q : Queue Triangle} (h : r.Refines q) {count : Word}
    (hcount : count.toNat = 3 ∨ count.toNat = 4) :
    r.reserve count = if q.pending.length < triangleCapacity then r else r.draw := by
  have hnum := h.toNat_num
  split
  · next hroom =>
    refine reserve_of_room ?_
    simp only [triangleCapacity, vertexBufferLen] at hroom ⊢
    omega
  · next hroom =>
    simp only [triangleCapacity, vertexBufferLen] at hroom
    refine reserve_of_full h.fits ?_ ?_
    · simp only [vertexBufferLen]
      omega
    · simp only [vertexBufferLen]
      omega

/-- **A triangle** is one push. -/
theorem Refines.pushTriangle {r : Renderer} {q : Queue Triangle} (h : r.Refines q)
    (v1 v2 v3 : Vertex) :
    ∃ r', r.pushTriangle v1 v2 v3 = .ok r' ∧ r'.Refines (q.push triangleCapacity (v1, v2, v3)) := by
  rw [Renderer.pushTriangle, h.reserve (.inl rfl), Queue.push]
  by_cases hroom : q.pending.length < triangleCapacity
  · rw [if_pos hroom, if_pos hroom]
    exact h.added hroom v1 v2 v3
  · rw [if_neg hroom, if_neg hroom]
    exact h.draw.added (by decide : 0 < triangleCapacity) v1 v2 v3

/-- **A quad** is two pushes. -/
theorem Refines.pushQuad {r : Renderer} {q : Queue Triangle} (h : r.Refines q)
    (v1 v2 v3 v4 : Vertex) :
    ∃ r', r.pushQuad v1 v2 v3 v4 = .ok r' ∧
      r'.Refines ((q.push triangleCapacity (v1, v2, v3)).push triangleCapacity (v2, v3, v4)) := by
  have hfirst : ∃ r1, (r.reserve 4).pushTriangle v1 v2 v3 = .ok r1 ∧
      r1.Refines (q.push triangleCapacity (v1, v2, v3)) := by
    rw [h.reserve (.inr rfl)]
    by_cases hroom : q.pending.length < triangleCapacity
    · rw [if_pos hroom]
      exact h.pushTriangle v1 v2 v3
    · rw [if_neg hroom, Queue.push, if_neg hroom]
      exact h.draw.pushTriangle v1 v2 v3
  obtain ⟨r1, hr1, href1⟩ := hfirst
  obtain ⟨r2, hr2, href2⟩ := href1.pushTriangle v2 v3 v4
  exact ⟨r2, by simp only [Renderer.pushQuad, hr1, hr2, ok_bind], href2⟩

/-- What a call does to the queue. -/
def Call.actions : Call → List (Action Triangle)
  | .push p => p.triangles.map .push
  | .display => [.flush]

theorem Refines.call {r : Renderer} {q : Queue Triangle} (h : r.Refines q) (c : Call) :
    ∃ r', r.call c = .ok r' ∧ r'.Refines (q.run triangleCapacity c.actions) := by
  cases c with
  | push p =>
    cases p with
    | triangle v1 v2 v3 => exact h.pushTriangle v1 v2 v3
    | quad v1 v2 v3 v4 => exact h.pushQuad v1 v2 v3 v4
  | display => exact ⟨r.display, rfl, h.display⟩

/-- **Refinement.**  No sequence of calls fails, and each runs the queue. -/
theorem Refines.run {r : Renderer} {q : Queue Triangle} (h : r.Refines q) (calls : List Call) :
    ∃ r', r.run calls = .ok r' ∧
      r'.Refines (q.run triangleCapacity (calls.flatMap Call.actions)) := by
  induction calls generalizing r q with
  | nil => exact ⟨r, rfl, h⟩
  | cons c calls ih =>
    obtain ⟨r1, hr1, href1⟩ := h.call c
    obtain ⟨r', hr', href'⟩ := ih href1
    refine ⟨r', ?_, ?_⟩
    · rw [Renderer.run, List.foldlM_cons, hr1]
      exact hr'
    · rw [List.flatMap_cons, Queue.run, List.foldl_append]
      exact href'

theorem pushed_actions (calls : List Call) :
    pushed (calls.flatMap Call.actions) = calls.flatMap Call.triangles := by
  have hpushes : ∀ ts : List Triangle, pushed (ts.map Action.push) = ts := by
    intro ts
    induction ts with
    | nil => rfl
    | cons t ts ih => exact congrArg (t :: ·) ih
  induction calls with
  | nil => rfl
  | cons c calls ih =>
    rw [List.flatMap_cons, List.flatMap_cons, pushed_append, ih]
    congr 1
    cases c with
    | push p => exact hpushes p.triangles
    | display => rfl

/-! ## Batches -/

/-- **Batching loses and splits nothing**: no store leaves the vertex buffer, every draw submits
whole triangles, and the batches followed by the queued vertices are the triangles pushed. -/
theorem batches_of_run (calls : List Call) :
    ∃ r, new.run calls = .ok r ∧ r.mVerticesNum.toNat % 3 = 0 ∧
      r.mVerticesNum.toNat ≤ vertexBufferLen ∧
      (∀ count, .drawArraysInstanced count ∈ r.glCalls →
        count % 3 = 0 ∧ count ≤ vertexBufferLen) ∧
      r.canvas.batches.flatten ++ r.queued = verticesOf (calls.flatMap Call.triangles) := by
  obtain ⟨r, hrun, href⟩ := refines_new.run calls
  refine ⟨r, hrun, ?_, href.fits, href.draws, ?_⟩
  · rw [href.toNat_num]
    exact Nat.mul_mod_right 3 _
  · have hcontents : (Queue.empty.run triangleCapacity (calls.flatMap Call.actions)).contents = _ :=
      Queue.contents_run Queue.empty (calls.flatMap Call.actions)
    rw [pushed_actions] at hcontents
    rw [href.batches, href.queued, ← verticesOf_flatten, ← verticesOf_append]
    exact congrArg verticesOf hcontents

/-! ## Frames -/

/-- After a history that ends with `display`, the picture that the next `display` swaps to the
front contains the triangles of the primitives pushed in between, in order. -/
def FrameComplete (history : List Call) (frame : List Primitive) : Prop :=
  ∃ r picture, new.run (history ++ .display :: (frame.map .push ++ [.display])) = .ok r ∧
    r.canvas.shown.getLast? = some picture ∧ (frame.flatMap Primitive.triangles).Sublist picture

theorem actions_of_push (frame : List Primitive) :
    (frame.map Call.push).flatMap Call.actions =
      (frame.flatMap Primitive.triangles).map .push := by
  induction frame with
  | nil => rfl
  | cons p frame ih =>
    rw [List.map_cons, List.flatMap_cons, ih, List.flatMap_cons, List.map_append]
    rfl

/-- A draw erases what earlier draws left: the picture is the last batch. -/
theorem shown_display {r : Renderer} {q : Queue Triangle} (h : r.Refines q) :
    r.display.canvas.shown.getLast? = some q.pending := by
  rw [canvas_display, canvas_draw, List.getLast?_concat, h.queued, assemble_verticesOf]

/-- The picture of a frame is what was still pending in the queue. -/
theorem shown_frame (history : List Call) (frame : List Primitive) :
    ∃ r q, new.run (history ++ .display :: (frame.map .push ++ [.display])) = .ok r ∧
      Queue.Bounded triangleCapacity q ∧ q.pending = [] ∧ r.canvas.shown.getLast? =
        some (q.run triangleCapacity ((frame.flatMap Primitive.triangles).map .push)).pending := by
  obtain ⟨r0, hr0, href0⟩ := refines_new.run history
  have href1 := href0.display
  obtain ⟨r2, hr2, href2⟩ := href1.run (frame.map .push)
  rw [actions_of_push] at href2
  refine ⟨r2.display, _, ?_, href1.bounded, rfl, shown_display href2⟩
  rw [Renderer.run] at hr0 hr2
  rw [Renderer.run, List.foldlM_append, hr0, ok_bind, List.foldlM_cons]
  change List.foldlM call r0.display _ = _
  rw [List.foldlM_append, hr2]
  rfl

/-- A complete frame fits in the vertex buffer. -/
theorem FrameComplete.length_le {history : List Call} {frame : List Primitive}
    (h : FrameComplete history frame) :
    (frame.flatMap Primitive.triangles).length ≤ triangleCapacity := by
  obtain ⟨r, q, hrun, hbounded, -, hshown⟩ := shown_frame history frame
  obtain ⟨r', picture, hrun', hlast, hcontains⟩ := h
  cases hrun.symm.trans hrun'
  have hpicture := Option.some.inj (hshown.symm.trans hlast)
  have hbound :=
    (hbounded.run (by decide) ((frame.flatMap Primitive.triangles).map .push)).pending
  rw [hpicture] at hbound
  exact Nat.le_trans hcontains.length_le hbound

/-- **A displayed frame is complete** exactly when its triangles fit in the vertex buffer: each
forced draw is erased by the `glClear` of the next one. -/
theorem frameComplete_iff (history : List Call) (frame : List Primitive) :
    FrameComplete history frame ↔
      3 * (frame.flatMap Primitive.triangles).length ≤ vertexBufferLen := by
  obtain ⟨r, q, hrun, hbounded, hnone, hshown⟩ := shown_frame history frame
  have hcapacity : 3 * (frame.flatMap Primitive.triangles).length ≤ vertexBufferLen ↔
      (frame.flatMap Primitive.triangles).length ≤ triangleCapacity := by
    simp only [triangleCapacity, vertexBufferLen]
    omega
  rw [hcapacity]
  constructor
  · exact FrameComplete.length_le
  · intro hfits
    have hroom : q.pending.length + (frame.flatMap Primitive.triangles).length ≤
        triangleCapacity := by
      rwa [hnone, List.length_nil, Nat.zero_add]
    rw [(Queue.pending_run_push_iff hbounded (by decide) _).mpr hroom, hnone] at hshown
    exact ⟨r, _, hrun, hshown, List.Sublist.refl _⟩

theorem length_replicate_triangles (n : Nat) (v1 v2 v3 : Vertex) :
    ((List.replicate n (Primitive.triangle v1 v2 v3)).flatMap Primitive.triangles).length = n := by
  induction n with
  | zero => rfl
  | succ n ih =>
    rw [List.replicate_succ, List.flatMap_cons, List.length_append, ih]
    exact Nat.add_comm 1 n

/-- A frame of 5462 triangles loses the first of them. -/
theorem not_forall_frameComplete : ¬ ∀ history frame, FrameComplete history frame := by
  intro h
  let v : Vertex := ⟨⟨0, 0⟩, ⟨0, 0, 0⟩⟩
  let w : Vertex := ⟨⟨1, 1⟩, ⟨0, 0, 0⟩⟩
  let frame : List Primitive := .triangle v v v :: List.replicate 5461 (.triangle w w w)
  have hle := (h [] frame).length_le
  rw [List.flatMap_cons, List.length_append, length_replicate_triangles] at hle
  exact absurd hle (by decide)

end Renderer

end CppStation
