-- SUMMARY: What is painted on the canvas: shapes, the background grid and links with arrow heads.
import ImportAtlas.Canvas.Color
import ImportAtlas.Canvas.Rect

/-! # Painting

A picture is a list of shapes in drawing order. -/

namespace ImportAtlas

inductive Shape where
  | rect (min max : Point) (fill : Color)
  | line (p q : Point) (stroke : Stroke)
  /-- a circle with a fill, an outline, or both -/
  | circle (center : Point) (radius : Float32) (fill : Color) (outline : Stroke)
  | polygon (points : List Point) (fill : Color)
  | text (s : String)

namespace Shape

/-- A line of no width. -/
def noStroke : Stroke := ⟨0.0, Color.transparent⟩

def disc (center : Point) (radius : Float32) (fill : Color) : Shape :=
  circle center radius fill noStroke

def ring (center : Point) (radius : Float32) (stroke : Stroke) : Shape :=
  circle center radius Color.transparent stroke

end Shape

/-- The number of steps of a width that a length has room for, with some to spare. -/
def stepBound (length width : Float32) : Nat := 2 * (length / width).toUInt64.toNat + 16

/-- The numbers `x`, `x + step`, … below a limit, at most so many. -/
def ticks (step limit : Float32) : Nat → Float32 → List Float32
  | 0, _ => []
  | n + 1, x => if x < limit then x :: ticks step limit n (x + step) else []

/-- The background: a fill and a grid that moves and grows with the view. -/
def background (r : Rect Float32) (pan : Point) (zoom : Float32) : List Shape :=
  let step := Single.max (56.0 * Single.clamp zoom 0.6 1.8) 20.0
  let origin := r.center + pan
  let stroke : Stroke := ⟨1.0, Color.ofUnmultiplied 60 70 80 70⟩
  let columns := ticks step r.right (stepBound r.right step) (Single.remEuclid origin.x step)
  let rows := ticks step r.bottom (stepBound r.bottom step) (Single.remEuclid origin.y step)
  [.rect r.leftTop r.rightBottom ⟨19, 23, 29, 255⟩] ++
    columns.map (fun x => .line ⟨x, r.top⟩ ⟨x, r.bottom⟩ stroke) ++
    rows.map (fun y => .line ⟨r.left, y⟩ ⟨r.right, y⟩ stroke)

/-- The dashes from `p` on, where the last dash or gap ended `pos` along the way. `pen` is where the
dash being drawn began. -/
def dashesFrom (p q : Point) (length dash : Float32) : Nat → Float32 → Option Point →
    List (Point × Point)
  | 0, _, _ => []
  | n + 1, pos, pen =>
    if pos < length then
      let here := p + (q - p).scale (pos / length)
      match pen with
      | some start => (start, here) :: dashesFrom p q length dash n (pos + dash) none
      | none => dashesFrom p q length dash n (pos + dash) (some here)
    else
      match pen with
      | some start => [(start, q)]
      | none => []

/-- The dashes of a line; gaps are as long as dashes. -/
def dashes (p q : Point) (dash : Float32) : List (Point × Point) :=
  let length := Point.length (q - p)
  dashesFrom p q length dash (stepBound length dash) 0.0 none

/-- A link from the rim of one node to the rim of another, with an arrow head that touches the
target. Nodes that nearly touch have no link drawn between them. -/
def linkShapes (start stop : Point) (sourceRadius targetRadius : Float32) (stroke : Stroke)
    (dashed : Bool) : List Shape :=
  let delta := stop - start
  let length := Point.length delta
  if length ≤ sourceRadius + targetRadius + 1.0 then []
  else
    let direction := delta.shrink length
    let rim := start + direction.scale sourceRadius
    let tip := stop - direction.scale targetRadius
    let head := Single.clamp (stroke.width * 3.0) 6.0 14.0
    let base := tip - direction.scale head
    let shaft :=
      if dashed then
        (dashes rim base (Single.max (stroke.width * 1.7) 3.0)).map fun (p, q) => .line p q stroke
      else [.line rim base stroke]
    let normal := (⟨-direction.y, direction.x⟩ : Point).scale (head * 0.5)
    shaft ++ [.polygon [tip, base + normal, base - normal] stroke.color]

end ImportAtlas
