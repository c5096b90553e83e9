import CppStation.Gpu.Batching
import CppStation.Gpu.Parser

/-!
# From commands to the calls of OpenGL

A GP0 command stands for calls of the renderer, and the renderer for draws.  In
every reachable state the renderer is the one that the executed commands drive,
and its calls of OpenGL are one draw for each batch of the queue of triangles.
-/

namespace CppStation

open Fallible Batching

namespace Renderer

/-! ## The calls of OpenGL -/

/-- The calls of one draw, and of the swap after a draw that `display` makes. -/
def sendingCalls (s : Sending Triangle) : List GlCall :=
  drawCalls (verticesOf s.batch) ++ if s.flushed then [.swapBuffers, .pollEvents] else []

theorem Refines.glCalls_draw {r : Renderer} {q : Queue Triangle} (h : r.Refines q) :
    r.draw.glCalls = r.glCalls ++ drawCalls (verticesOf q.pending) := by
  rw [Renderer.glCalls_draw, h.queued]

/-- Three vertices for which there is room are only stored. -/
theorem glCalls_pushTriangle_of_room {r r' : Renderer} {v1 v2 v3 : Vertex}
    (hroom : r.mVerticesNum.toNat + 3 ≤ vertexBufferLen) (h : r.pushTriangle v1 v2 v3 = .ok r') :
    r'.glCalls = r.glCalls := by
  have h1 : r.mVerticesNum.toNat < vertexBufferLen := by omega
  have h2 : (r.added v1).mVerticesNum.toNat < vertexBufferLen := by
    rw [toNat_added h1]
    omega
  have h3 : ((r.added v1).added v2).mVerticesNum.toNat < vertexBufferLen := by
    rw [toNat_added h2, toNat_added h1]
    omega
  have hreserve : r.reserve 3 = r := reserve_of_room hroom
  simp only [pushTriangle, hreserve, pushVertex_of_room h1, pushVertex_of_room h2,
    pushVertex_of_room h3, ok_bind] at h
  cases h
  rfl

theorem Refines.room {r : Renderer} {q : Queue Triangle} (h : r.Refines q)
    (hroom : q.pending.length < triangleCapacity) : r.mVerticesNum.toNat + 3 ≤ vertexBufferLen := by
  rw [h.toNat_num]
  simp only [triangleCapacity, vertexBufferLen] at hroom ⊢
  omega

/-- After a draw there is room. -/
theorem room_draw (r : Renderer) : r.draw.mVerticesNum.toNat + 3 ≤ vertexBufferLen :=
  (by decide : 0 + 3 ≤ vertexBufferLen)

/-- A triangle that meets a full buffer is drawn after the rest. -/
theorem Refines.pushTriangle_of_full {r : Renderer} {q : Queue Triangle} (h : r.Refines q)
    (hfull : ¬ q.pending.length < triangleCapacity) (v1 v2 v3 : Vertex) :
    r.pushTriangle v1 v2 v3 = r.draw.pushTriangle v1 v2 v3 := by
  have hreserve : r.draw.reserve 3 = r.draw := reserve_of_room r.room_draw
  rw [Renderer.pushTriangle, h.reserve (.inl rfl), if_neg hfull, Renderer.pushTriangle, hreserve]

theorem Refines.glCalls_pushTriangle {r r' : Renderer} {q : Queue Triangle} (h : r.Refines q)
    {v1 v2 v3 : Vertex} (hpush : r.pushTriangle v1 v2 v3 = .ok r') :
    r'.glCalls = r.glCalls ++
      (q.sends triangleCapacity (.push (v1, v2, v3))).flatMap sendingCalls := by
  by_cases hroom : q.pending.length < triangleCapacity
  · rw [Queue.sends, if_pos hroom, glCalls_pushTriangle_of_room (h.room hroom) hpush]
    exact (List.append_nil _).symm
  · rw [h.pushTriangle_of_full hroom] at hpush
    rw [Queue.sends, if_neg hroom, glCalls_pushTriangle_of_room r.room_draw hpush, h.glCalls_draw]
    rfl

/-- The test for four vertices only makes the draw that the test for three would make. -/
theorem Refines.reserve_pushTriangle {r : Renderer} {q : Queue Triangle} (h : r.Refines q)
    (v1 v2 v3 : Vertex) : (r.reserve 4).pushTriangle v1 v2 v3 = r.pushTriangle v1 v2 v3 := by
  rw [h.reserve (.inr rfl)]
  split
  · rfl
  · next hfull => exact (h.pushTriangle_of_full hfull v1 v2 v3).symm

theorem Refines.glCalls_call {r r' : Renderer} {q : Queue Triangle} (h : r.Refines q) {c : Call}
    (hcall : r.call c = .ok r') :
    r'.glCalls = r.glCalls ++ (q.sendings triangleCapacity c.actions).flatMap sendingCalls := by
  cases c with
  | display =>
    cases hcall
    change r.draw.glCalls ++ _ = _
    rw [h.glCalls_draw, List.append_assoc]
    rfl
  | push p =>
    cases p with
    | triangle v1 v2 v3 =>
      have hone : q.sendings triangleCapacity (Call.push (.triangle v1 v2 v3)).actions =
          q.sends triangleCapacity (.push (v1, v2, v3)) := List.append_nil _
      rw [hone]
      exact h.glCalls_pushTriangle hcall
    | quad v1 v2 v3 v4 =>
      obtain ⟨r1, hfirst, href⟩ := h.pushTriangle v1 v2 v3
      have hsecond : r1.pushTriangle v2 v3 v4 = .ok r' := by
        rw [← hcall]
        simp only [Renderer.call, Renderer.pushQuad, h.reserve_pushTriangle, hfirst, ok_bind]
      have htwo : q.sendings triangleCapacity (Call.push (.quad v1 v2 v3 v4)).actions =
          q.sends triangleCapacity (.push (v1, v2, v3)) ++
            (q.push triangleCapacity (v1, v2, v3)).sends triangleCapacity (.push (v2, v3, v4)) :=
        congrArg _ (List.append_nil _)
      rw [htwo, href.glCalls_pushTriangle hsecond, h.glCalls_pushTriangle hfirst,
        List.flatMap_append, List.append_assoc]

/-- **The calls of OpenGL** over a run are those of the batches that the queue sends. -/
theorem Refines.glCalls_run {calls : List Call} {r r' : Renderer} {q : Queue Triangle}
    (h : r.Refines q) (hrun : r.run calls = .ok r') :
    r'.glCalls = r.glCalls ++
      (q.sendings triangleCapacity (calls.flatMap Call.actions)).flatMap sendingCalls := by
  induction calls generalizing r q with
  | nil =>
    cases hrun
    exact (List.append_nil _).symm
  | cons c calls ih =>
    rw [Renderer.run, List.foldlM_cons] at hrun
    obtain ⟨r1, hcall, hrest⟩ := bind_eq_ok.mp hrun
    obtain ⟨r2, hcall', href⟩ := h.call c
    obtain rfl : r2 = r1 := Except.ok.inj (hcall'.symm.trans hcall)
    rw [ih href hrest, h.glCalls_call hcall, List.flatMap_cons, Queue.sendings_append,
      List.flatMap_append, List.append_assoc]

/-! ## What was drawn -/

def Call.isDisplay : Call → Bool
  | .push _ => false
  | .display => true

theorem countP_actions (calls : List Call) :
    (calls.flatMap Call.actions).countP Action.isFlush = calls.countP Call.isDisplay := by
  have hpushes : ∀ ts : List Triangle, (ts.map Action.push).countP Action.isFlush = 0 := by
    intro ts
    rw [List.countP_map]
    exact congrFun List.countP_false ts
  induction calls with
  | nil => rfl
  | cons c calls ih =>
    rw [List.flatMap_cons, List.countP_append, ih, List.countP_cons, Nat.add_comm]
    congr 1
    cases c with
    | push p => exact hpushes p.triangles
    | display => rfl

/-- The renderer after `calls` has made the draws `sendings`: the calls of OpenGL are theirs, a
draw that `display` did not make is full, none is larger, every `display` swapped once, and the
vertices drawn and those still in the buffer are the vertices pushed. -/
structure Draws (r : Renderer) (calls : List Call) (sendings : List (Sending Triangle)) : Prop where
  log : r.glCalls = sendings.flatMap sendingCalls
  forced : ∀ s ∈ sendings, s.flushed = false → s.batch.length = triangleCapacity
  bounded : ∀ s ∈ sendings, s.batch.length ≤ triangleCapacity
  swaps : sendings.countP Sending.flushed = calls.countP Call.isDisplay
  conserved : verticesOf (sendings.map Sending.batch).flatten ++ r.queued =
    verticesOf (calls.flatMap Call.triangles)

theorem draws_of_run {calls : List Call} {r : Renderer} (hrun : new.run calls = .ok r) :
    ∃ sendings, r.Draws calls sendings := by
  obtain ⟨r', hrun', href⟩ := refines_new.run calls
  obtain rfl : r' = r := Except.ok.inj (hrun'.symm.trans hrun)
  have hempty : (Queue.empty : Queue Triangle).Bounded triangleCapacity := Queue.bounded_empty
  have hsent := @Queue.sent_run _ triangleCapacity Queue.empty (calls.flatMap Call.actions)
  refine ⟨Queue.empty.sendings triangleCapacity (calls.flatMap Call.actions),
    refines_new.glCalls_run hrun, Queue.full_of_mem_sendings hempty (by decide) _, ?_, ?_, ?_⟩
  · intro s hs
    refine href.bounded.sent s.batch ?_
    rw [hsent]
    exact List.mem_append_right _ (List.mem_map_of_mem hs)
  · rw [Queue.countP_sendings, countP_actions]
  · have hcontents :=
      @Queue.contents_run _ triangleCapacity Queue.empty (calls.flatMap Call.actions)
    rw [pushed_actions, Queue.contents, hsent] at hcontents
    rw [href.queued, ← verticesOf_append]
    exact congrArg verticesOf hcontents

end Renderer

namespace Gpu

/-! ## What a command draws -/

/-- Word `i` of a command. -/
def wordAt (cmd : List Word) (i : Fin 12) : Word := cmd.getD i 0

/-- The vertex whose position is in word `i` and whose color is in word `j`. -/
def vertexAt (cmd : List Word) (i j : Fin 12) : Vertex :=
  ⟨.fromPacked (wordAt cmd i), .fromPacked (wordAt cmd j)⟩

/-- The red vertex whose position is in word `i`. -/
def redVertexAt (cmd : List Word) (i : Fin 12) : Vertex :=
  ⟨.fromPacked (wordAt cmd i), ⟨255, 0, 0⟩⟩

/-- The calls of the renderer that a command stands for. -/
def drawing : Gp0Method → List Word → List Renderer.Call
  | .gp0QuadMonoOpaque, cmd =>
    [.push (.quad (vertexAt cmd 1 0) (vertexAt cmd 2 0) (vertexAt cmd 3 0) (vertexAt cmd 4 0))]
  -- Textures are not supported
  | .gp0QuadTextureBlendOpaque, cmd =>
    [.push (.quad (redVertexAt cmd 1) (redVertexAt cmd 3) (redVertexAt cmd 5) (redVertexAt cmd 7))]
  | .gp0TriangleShadedOpaque, cmd =>
    [.push (.triangle (vertexAt cmd 1 0) (vertexAt cmd 3 2) (vertexAt cmd 5 4))]
  | .gp0QuadShadedOpaque, cmd =>
    [.push (.quad (vertexAt cmd 1 0) (vertexAt cmd 3 2) (vertexAt cmd 5 4) (vertexAt cmd 7 6))]
  -- The program displays when the offset changes
  | .gp0DrawingOffset, _ => [.display]
  | _, _ => []

/-- The calls of a sequence of commands. -/
def drawings (cmds : List (Gp0Method × List Word)) : List Renderer.Call :=
  cmds.flatMap fun c => drawing c.1 c.2

theorem drawings_concat (cmds : List (Gp0Method × List Word)) (k : Gp0Method) (cmd : List Word) :
    drawings (cmds ++ [(k, cmd)]) = drawings cmds ++ drawing k cmd := by
  rw [drawings, List.flatMap_append, List.flatMap_singleton]
  rfl

/-! ## The handlers -/

/-- The words of the command are those that the handler finds in the buffer. -/
theorem wordAt_eq {d : Gpu} {k : Gp0Method} {cmd : List Word} (hholds : d.mGp0Command.Holds cmd)
    (hfull : FullLength k cmd) : ∀ i ∈ reads k, wordAt cmd i = d.mGp0Command.get i := by
  intro i hi
  rw [wordAt, List.getD_eq_getElem?_getD, hholds.get (reads_lt_length hfull i hi)]
  rfl

theorem run_push {r r' : Renderer} {p : Renderer.Primitive} (h : r.call (.push p) = .ok r') :
    r.run [.push p] = .ok r' := by
  rw [Renderer.run, List.foldlM_cons, h]
  rfl

/-- **A handler** makes the calls of its command. -/
theorem call_drawing {d g : Gpu} {k : Gp0Method} {cmd : List Word}
    (hholds : d.mGp0Command.Holds cmd) (hfull : FullLength k cmd) (hcall : d.call k = .ok g) :
    d.mRenderer.run (drawing k cmd) = .ok g.mRenderer := by
  have hword := wordAt_eq hholds hfull
  have hvertex : ∀ i j, i ∈ reads k → j ∈ reads k →
      vertexAt cmd i j = ⟨d.position i, d.color j⟩ := by
    intro i j hi hj
    rw [vertexAt, hword i hi, hword j hj]
    rfl
  cases k
  case gp0QuadMonoOpaque =>
    obtain ⟨r, hr, hret⟩ := bind_eq_ok.mp hcall
    cases hret
    refine run_push (Eq.trans ?_ hr)
    rw [hvertex 1 0 (by decide) (by decide), hvertex 2 0 (by decide) (by decide),
      hvertex 3 0 (by decide) (by decide), hvertex 4 0 (by decide) (by decide)]
    rfl
  case gp0QuadTextureBlendOpaque =>
    obtain ⟨r, hr, hret⟩ := bind_eq_ok.mp hcall
    cases hret
    refine run_push (Eq.trans ?_ hr)
    simp only [redVertexAt, hword 1 (by decide), hword 3 (by decide), hword 5 (by decide),
      hword 7 (by decide)]
    rfl
  case gp0TriangleShadedOpaque =>
    obtain ⟨r, hr, hret⟩ := bind_eq_ok.mp hcall
    cases hret
    refine run_push (Eq.trans ?_ hr)
    rw [hvertex 1 0 (by decide) (by decide), hvertex 3 2 (by decide) (by decide),
      hvertex 5 4 (by decide) (by decide)]
    rfl
  case gp0QuadShadedOpaque =>
    obtain ⟨r, hr, hret⟩ := bind_eq_ok.mp hcall
    cases hret
    refine run_push (Eq.trans ?_ hr)
    rw [hvertex 1 0 (by decide) (by decide), hvertex 3 2 (by decide) (by decide),
      hvertex 5 4 (by decide) (by decide), hvertex 7 6 (by decide) (by decide)]
    rfl
  case gp0DrawMode =>
    rw [call, gp0DrawMode_eq] at hcall
    obtain ⟨depth, -, hret⟩ := bind_eq_ok.mp hcall
    cases hret
    rfl
  all_goals
    cases hcall
    rfl

/-! ## Reachable states -/

/-- The executed commands drive the renderer from its start to its present state. -/
def Rendered (g : Gpu) : Prop := Renderer.new.run (drawings g.handled) = .ok g.mRenderer

/-- **Step lemma.** -/
theorem Rendered.gp0 {g g' : Gpu} {p : Parser} {val : Word} (h : g.Rendered) (hp : g.Parses p)
    (hport : g.gp0 val = .ok g') : g'.Rendered := by
  obtain ⟨s, ⟨rfl, hsame⟩ | ⟨hd, hmore⟩⟩ := gp0_step hport
  · unfold Rendered
    rw [show (g.withPort s).handled = g.handled from hsame]
    exact h
  · obtain ⟨cmd, hfull, hholds, -⟩ := hp.dispatches hd
    have hcall : (g.withPort s).call s.mGp0CommandMethod = .ok g' := hd.gp0_eq_call.symm.trans hport
    have hsame := (called_of_call (g := g.withPort s) hp.fits hcall).handled
    have hhandled : g'.handled = g.handled ++ [(s.mGp0CommandMethod, cmd)] := by
      rw [hsame, ← hholds.words]
      exact hmore
    have hrun := call_drawing hholds hfull hcall
    unfold Rendered
    rw [hhandled, drawings_concat, Renderer.run, List.foldlM_append]
    exact bind_eq_ok.mpr ⟨g.mRenderer, h, hrun⟩

theorem Rendered.gp1 {g g' : Gpu} {p : Parser} {val : Word} (h : g.Rendered) (hp : g.Parses p)
    (hport : g.gp1 val = .ok g') : g'.Rendered := by
  unfold Rendered
  rw [(hp.gp1 hport).2, gp1_renderer hport]
  exact h

/-- **Run lemma.** -/
theorem Reachable.rendered {g : Gpu} (h : Reachable g) : g.Rendered := by
  induction h with
  | new => rfl
  | gp0 hreach hport ih =>
    obtain ⟨p, hp⟩ := hreach.parses
    exact ih.gp0 hp hport
  | gp1 hreach hport ih =>
    obtain ⟨p, hp⟩ := hreach.parses
    exact ih.gp1 hp hport

theorem Reachable.draws {g : Gpu} (h : Reachable g) :
    ∃ sendings, g.mRenderer.Draws (drawings g.handled) sendings :=
  Renderer.draws_of_run h.rendered

end Gpu

end CppStation
