-- SUMMARY: The two forces of the simulation: charges between nodes and springs along edges.
import ImportAtlas.Geometry.Single
import ImportAtlas.Geometry.Vec

/-! # Forces

Nodes act on each other like charges, and an edge acts on its two ends like a spring. Points that
coincide have no direction between them; they are pushed apart along a direction that depends on a
number only, so that a simulation can be repeated. -/

namespace ImportAtlas

/-- A full turn. -/
def turn : Float32 := 6.2831855

/-- A short vector whose direction depends on a number. Successive numbers point far apart. -/
def nudge (index : Nat) : Point :=
  let angle := (Float32.ofNat index * 0.618034 + 0.37) * turn
  (⟨angle.cos, angle.sin⟩ : Point).scale 0.001

/-- A vector, or a nudge if the vector has next to no length. -/
def directed (delta : Point) (index : Nat) : Point :=
  if delta.lengthSq ≤ Single.epsilon then nudge index else delta

/-- The force on a point by a charge at another point. It falls off with the distance, but not below a
distance of 1. -/
def charge (point other : Point) (strength : Float32) (index : Nat) : Point :=
  let delta := directed (other - point) index
  delta.scale (strength / Single.max delta.lengthSq 1.0)

/-- An edge between two numbered nodes. -/
structure Edge where
  source : Nat
  target : Nat
  grouped : Bool := false
  deriving DecidableEq, Repr

namespace Edge

/-- The number of ends that edges have at a node. -/
def degree (edges : List Edge) (i : Nat) : Nat :=
  edges.countP (·.source == i) + edges.countP (·.target == i)

/-- The degrees of the first `n` nodes. -/
def degrees (edges : List Edge) (n : Nat) : Array Nat := ((List.range n).map (degree edges)).toArray

end Edge

/-- What the springs need to know. -/
structure Spring where
  /-- the length at rest -/
  distance : Float32
  strength : Float32
  /-- how warm the simulation is -/
  alpha : Float32

namespace Spring

/-- The velocities after one spring has acted on its two ends. The end with fewer edges moves more. -/
def act (s : Spring) (positions : Array Point) (degrees : Array Nat) (velocities : Array Point)
    (index : Nat) (e : Edge) : Array Point :=
  let ahead (i : Nat) : Point := positions.getD i .zero + velocities.getD i .zero
  let delta := directed (ahead e.target - ahead e.source) index
  let length := Point.length delta
  let pull := delta.scale ((length - s.distance) / length * s.alpha * s.strength)
  let weight (i : Nat) : Float32 := Float32.ofNat (Nat.max (degrees.getD i 0) 1)
  let bias := weight e.source / (weight e.source + weight e.target)
  (velocities.modify e.target (· - pull.scale bias)).modify e.source (· + pull.scale (1.0 - bias))

/-- The velocities after all springs have acted, one after the other. -/
def actAll (s : Spring) (edges : List Edge) (positions : Array Point) (degrees : Array Nat)
    (velocities : Array Point) : Array Point :=
  edges.zipIdx.foldl (fun vs (e, i) => s.act positions degrees vs i e) velocities

@[simp] theorem size_act (s : Spring) (positions : Array Point) (degrees : Array Nat)
    (velocities : Array Point) (index : Nat) (e : Edge) :
    (s.act positions degrees velocities index e).size = velocities.size := by
  simp [act]

/-- Springs change velocities and keep their number. -/
@[simp] theorem size_actAll (s : Spring) (edges : List Edge) (positions : Array Point)
    (degrees : Array Nat) (velocities : Array Point) :
    (s.actAll edges positions degrees velocities).size = velocities.size := by
  unfold actAll
  induction edges.zipIdx generalizing velocities with
  | nil => rfl
  | cons e es ih => simp [ih]

end Spring

end ImportAtlas
