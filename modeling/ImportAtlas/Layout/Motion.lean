-- SUMMARY: The simulation: how a layout changes from tick to tick and under the pointer.
import ImportAtlas.Layout.Basic
import ImportAtlas.Layout.Quadtree

/-! # Motion

A tick cools the simulation a little, lets springs and charges change the velocities and moves the
bodies. Bodies that are pinned or held keep their place. -/

namespace ImportAtlas

namespace Body

/-- Move a body by a velocity, which friction has lessened. A fixed body rests. -/
def advance (b : Body) (velocity : Point) : Body :=
  if b.isFixed then { b with vel := .zero }
  else
    let vel := velocity.scale (1.0 - 0.4)
    { b with vel, pos := b.pos + vel }

/-- Shift a body unless it is fixed. -/
def shift (b : Body) (offset : Point) : Body := if b.isFixed then b else { b with pos := b.pos - offset }

end Body

namespace Layout

/-- Below this warmth nothing moves. -/
def coldest : Float32 := 0.001

/-- How fast the warmth tends to its target: from 1 to the coldest in about 300 ticks. -/
def cooling : Float32 := 0.02276397

/-- The target while a node is dragged. -/
def dragTarget : Float32 := 0.3

/-- How small for its distance a square must be to act as one charge. -/
def theta : Float32 := 0.9

/-- The velocities after springs and charges have acted. -/
def velocities (l : Layout) : Array Point :=
  let places := l.bodies.map (·.pos)
  let spring : Spring := ⟨l.config.linkDistance, l.config.linkStrength, l.alpha⟩
  let sprung := spring.actAll l.edges places.toArray (Edge.degrees l.edges l.bodies.length)
    (l.bodies.map (·.vel)).toArray
  match Quadtree.build places with
  | none => sprung
  | some tree =>
    let forces := (Quadtree.particlesOf places).toArray.map fun p =>
      tree.force p l.config.repulsion theta
    sprung.zipWith (fun v f => v + f.scale l.alpha) forces

/-- Move every body. -/
def advance (l : Layout) : Layout :=
  let vs := l.velocities
  { l with bodies := l.bodies.mapIdx fun i b => b.advance (vs.getD i .zero) }

/-- The mean of the places. -/
def centroid (l : Layout) : Point :=
  (l.bodies.foldl (fun sum b => sum + b.pos) (.zero : Point)).shrink (Float32.ofNat l.bodies.length)

/-- Draw the layout to the origin. -/
def recenter (l : Layout) : Layout :=
  if l.config.centerStrength ≤ 0.0 then l
  else
    let offset := l.centroid.scale l.config.centerStrength
    { l with bodies := l.bodies.map (·.shift offset) }

/-- Let the simulation cool by one tick. -/
def cool (l : Layout) : Layout := { l with alpha := l.alpha + (l.target - l.alpha) * cooling }

/-- One tick. The answer says whether anything could move. -/
def step (l : Layout) : Layout × Bool :=
  let l := l.cool
  if l.alpha < coldest || l.bodies.isEmpty then (l, false) else (l.advance.recenter, true)

def isSettled (l : Layout) : Bool := l.alpha < coldest && l.target < coldest

@[simp] theorem edges_advance (l : Layout) : l.advance.edges = l.edges := rfl

@[simp] theorem edges_recenter (l : Layout) : l.recenter.edges = l.edges := by
  unfold recenter; split <;> rfl

/-- A tick moves bodies and keeps the edges between them. -/
@[simp] theorem edges_step (l : Layout) : l.step.1.edges = l.edges := by
  simp only [step]
  split <;> simp [cool]

/-- A tick in which nothing could move changes no body. -/
theorem bodies_step {l : Layout} (h : l.step.2 = false) : l.step.1.bodies = l.bodies := by
  simp only [step] at h ⊢
  split at h
  · rename_i hc
    rw [if_pos hc]
    rfl
  · simp at h

/-! ## Under the pointer -/

/-- Hold a body in place and keep the simulation warm. -/
def hold (l : Layout) (i : Nat) : Layout :=
  if i < l.bodies.length then
    { l with
      bodies := l.bodies.modify i fun b => { b with held := true, vel := .zero }
      target := dragTarget
      alpha := Single.max l.alpha coldest }
  else l

/-- Move a body that is held. -/
def moveHeld (l : Layout) (i : Nat) (p : Point) : Layout :=
  { l with bodies := l.bodies.modify i fun b => if b.held then { b with pos := p } else b }

/-- Let go of a body and let the simulation cool down. -/
def release (l : Layout) (i : Nat) : Layout :=
  { l with bodies := l.bodies.modify i fun b => { b with held := false }, target := 0.0 }

end Layout

end ImportAtlas
