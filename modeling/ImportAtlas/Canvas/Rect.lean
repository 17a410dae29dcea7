-- SUMMARY: Rectangles, and which circles and edges can be seen in one.
import ImportAtlas.Geometry.Single
import ImportAtlas.Geometry.Vec

/-! # Rectangles and culling

What lies outside the rectangle of the canvas is not drawn. The tests use addition, subtraction,
multiplication and comparison only, so they are stated over any number type that has these: over
single-precision numbers they run, over the rationals they are exact. -/

namespace ImportAtlas

/-- The smaller and the larger of two numbers. -/
class Extremes (α : Type) where
  least : α → α → α
  greatest : α → α → α

instance : Extremes Float32 := ⟨Single.min, Single.max⟩

/-- A rectangle with its sides along the axes; the vertical axis points down. -/
structure Rect (α : Type) where
  left : α
  top : α
  right : α
  bottom : α
  deriving DecidableEq, Repr

namespace Rect

section
variable {α : Type} [LE α] [DecidableLE α]

/-- Whether a point lies in a rectangle; the border belongs to it. -/
def contains (r : Rect α) (p : Vec α) : Bool :=
  r.left ≤ p.x && p.x ≤ r.right && r.top ≤ p.y && p.y ≤ r.bottom

theorem contains_iff {r : Rect α} {p : Vec α} :
    r.contains p ↔ (r.left ≤ p.x ∧ p.x ≤ r.right) ∧ r.top ≤ p.y ∧ p.y ≤ r.bottom := by
  simp [contains, and_assoc]

end

section
variable {α : Type}

def leftTop (r : Rect α) : Vec α := ⟨r.left, r.top⟩

def rightTop (r : Rect α) : Vec α := ⟨r.right, r.top⟩

def leftBottom (r : Rect α) : Vec α := ⟨r.left, r.bottom⟩

def rightBottom (r : Rect α) : Vec α := ⟨r.right, r.bottom⟩

end

/-- The middle of a rectangle. -/
def center (r : Rect Float32) : Point := ⟨(r.left + r.right) / 2.0, (r.top + r.bottom) / 2.0⟩

end Rect

section
variable {α : Type} [Add α] [Sub α] [LT α] [DecidableLT α]

/-- Whether the box around a circle meets a rectangle. -/
def circleVisible (r : Rect α) (p : Vec α) (radius : α) : Bool :=
  !(p.x + radius < r.left || r.right < p.x - radius || p.y + radius < r.top ||
    r.bottom < p.y - radius)

end

section
variable {α : Type} [Sub α] [Mul α]

/-- On which side of the line from `o` to `a` the point `b` lies: the sign tells. -/
def cross (o a b : Vec α) : α :=
  let oa := a - o
  let ob := b - o
  oa.x * ob.y - oa.y * ob.x

end

section
variable {α : Type} [Add α] [Sub α] [Mul α] [OfNat α 0] [LE α] [LT α] [DecidableLE α]
  [DecidableLT α] [Extremes α]

open Extremes

/-- Whether two numbers do not lie strictly on one side of zero. -/
def straddles (c d : α) : Bool := (c ≤ 0 && 0 ≤ d) || (0 ≤ c && d ≤ 0)

omit [Add α] [Sub α] [Mul α] [LT α] [DecidableLT α] [Extremes α] in
theorem straddles_iff {c d : α} : straddles c d ↔ (c ≤ 0 ∧ 0 ≤ d) ∨ (0 ≤ c ∧ d ≤ 0) := by
  simp [straddles]

/-- Whether the segments from `a₁` to `a₂` and from `b₁` to `b₂` have a point in common. -/
def segmentsMeet (a₁ a₂ b₁ b₂ : Vec α) : Bool :=
  if greatest a₁.x a₂.x < least b₁.x b₂.x || greatest b₁.x b₂.x < least a₁.x a₂.x ||
      greatest a₁.y a₂.y < least b₁.y b₂.y || greatest b₁.y b₂.y < least a₁.y a₂.y then false
  else
    straddles (cross a₁ a₂ b₁) (cross a₁ a₂ b₂) && straddles (cross b₁ b₂ a₁) (cross b₁ b₂ a₂)

/-- Whether an edge can be seen in a rectangle. The padding widens the quick test by the box around
the edge. -/
def edgeVisible (r : Rect α) (start stop : Vec α) (padding : α) : Bool :=
  let minX := least start.x stop.x - padding
  let maxX := greatest start.x stop.x + padding
  let minY := least start.y stop.y - padding
  let maxY := greatest start.y stop.y + padding
  if maxX < r.left || r.right < minX || maxY < r.top || r.bottom < minY then false
  else if r.contains start || r.contains stop then true
  else
    segmentsMeet start stop r.leftTop r.rightTop ||
    segmentsMeet start stop r.rightTop r.rightBottom ||
    segmentsMeet start stop r.rightBottom r.leftBottom ||
    segmentsMeet start stop r.leftBottom r.leftTop

end

/-! ## From the world to the screen and back -/

/-- Where a point of the world is on the screen. -/
def toScreen (r : Rect Float32) (pan : Point) (zoom : Float32) (p : Point) : Point :=
  r.center + pan + p.scale zoom

/-- Which point of the world is at a point of the screen. -/
def toWorld (r : Rect Float32) (pan : Point) (zoom : Float32) (p : Point) : Point :=
  (p - r.center - pan).shrink zoom

end ImportAtlas
