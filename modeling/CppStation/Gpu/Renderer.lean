import CppStation.Basic
import Mathlib.Logic.Function.Basic

/-!
# The renderer (`gpu/opengl/renderer.hpp`, `gpu/opengl/renderer.cpp`)

OpenGL and the window are outside the program; `glCalls` records the calls
made to them, oldest first.
-/

namespace CppStation

/-- Maximum number of vertices that can be stored in the attribute buffer. -/
def vertexBufferLen : Nat := 16 * 1024

structure Position where
  x : Half
  y : Half
  deriving DecidableEq, Repr

namespace Position

def fromPacked (val : Word) : Position := ⟨val.setWidth 16, (val >>> 16).setWidth 16⟩

end Position

/-- A component `n` stands for the float `n / 255.0f`, the only floats that the
program gives to a color. -/
structure Color where
  r : Byte
  g : Byte
  b : Byte
  deriving DecidableEq, Repr

namespace Color

def fromPacked (val : Word) : Color :=
  ⟨val.setWidth 8, (val >>> 8).setWidth 8, (val >>> 16).setWidth 8⟩

end Color

structure Vertex where
  pos : Position
  color : Color
  deriving DecidableEq, Repr

/-- The calls made to OpenGL and to the window. -/
inductive GlCall
  | clear
  | bufferSubData (data : List Vertex)
  | drawArraysInstanced (count : Nat)
  | swapBuffers
  | pollEvents
  deriving DecidableEq, Repr

structure Renderer where
  mVertexBuf : Nat → Vertex
  mVerticesNum : Word
  glCalls : List GlCall

namespace Renderer

/-- The vertex buffer is not initialised by the constructor; no vertex is read
before it is written. -/
def new : Renderer where
  mVertexBuf := fun _ => ⟨⟨0, 0⟩, ⟨0, 0, 0⟩⟩
  mVerticesNum := 0
  glCalls := []

def draw (r : Renderer) : Renderer :=
  let data := (List.range r.mVerticesNum.toNat).map r.mVertexBuf
  { r with
    glCalls := r.glCalls ++
      [.clear, .bufferSubData data, .drawArraysInstanced r.mVerticesNum.toNat]
    mVerticesNum := 0 }

def display (r : Renderer) : Renderer :=
  let r := r.draw
  { r with glCalls := r.glCalls ++ [.swapBuffers, .pollEvents] }

/-- The test before each push: draw if `count` more vertices do not fit. -/
def reserve (r : Renderer) (count : Word) : Renderer :=
  if BitVec.ofNat 32 vertexBufferLen < r.mVerticesNum + count then r.draw else r

def pushVertex (r : Renderer) (v : Vertex) : Result Renderer :=
  let r := r.reserve 1
  if r.mVerticesNum.toNat < vertexBufferLen then
    .ok { r with
      mVertexBuf := Function.update r.mVertexBuf r.mVerticesNum.toNat v
      mVerticesNum := r.mVerticesNum + 1 }
  else
    .error (.outOfBounds .vertexBuf r.mVerticesNum.toNat)

def pushTriangle (r : Renderer) (v1 v2 v3 : Vertex) : Result Renderer := do
  let r := r.reserve 3
  let r ← r.pushVertex v1
  let r ← r.pushVertex v2
  r.pushVertex v3

def pushQuad (r : Renderer) (v1 v2 v3 v4 : Vertex) : Result Renderer := do
  let r := r.reserve 4
  let r ← r.pushTriangle v1 v2 v3
  r.pushTriangle v2 v3 v4

end Renderer

end CppStation
