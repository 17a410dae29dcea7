-- SUMMARY: Points and vectors of the plane over any number type, and their length in single precision.

/-! # Vectors

Points and vectors are pairs of coordinates. The arithmetic is that of the coordinates, so a
construction that only adds, subtracts, multiplies and compares can be read over single-precision
numbers, where it runs, and over the rationals, where it is exact. -/

namespace ImportAtlas

/-- A point or a vector of the plane. -/
structure Vec (α : Type) where
  x : α
  y : α
  deriving DecidableEq, Repr

namespace Vec

variable {α : Type}

instance [Add α] : Add (Vec α) := ⟨fun a b => ⟨a.x + b.x, a.y + b.y⟩⟩

instance [Sub α] : Sub (Vec α) := ⟨fun a b => ⟨a.x - b.x, a.y - b.y⟩⟩

/-- Both coordinates times a number. -/
def scale [Mul α] (a : Vec α) (k : α) : Vec α := ⟨a.x * k, a.y * k⟩

/-- Both coordinates divided by a number. -/
def shrink [Div α] (a : Vec α) (k : α) : Vec α := ⟨a.x / k, a.y / k⟩

/-- The square of the length. -/
def lengthSq [Add α] [Mul α] (a : Vec α) : α := a.x * a.x + a.y * a.y

/-- The vector with both coordinates zero. -/
def zero [OfNat α 0] : Vec α := ⟨0, 0⟩

end Vec

/-- A point or a vector with single-precision coordinates. -/
abbrev Point := Vec Float32

namespace Point

/-- The length, computed in double precision and rounded once. A vector with an infinite coordinate is
infinitely long, whatever its other coordinate is. -/
def length (a : Point) : Float32 :=
  if a.x.isInf || a.y.isInf then 1.0 / 0.0
  else
    let x := a.x.toFloat
    let y := a.y.toFloat
    (x * x + y * y).sqrt.toFloat32

def distance (a b : Point) : Float32 := length (a - b)

end Point

end ImportAtlas
