-- SUMMARY: The pointer over the canvas: from moves and buttons to hovering, dragging and clicking.
import ImportAtlas.Geometry.Vec

/-! # The pointer

In every frame at most one thing happens to the pointer. What it means for the canvas is a gesture: a
button that goes down and up nearly in place is a click, and one that moves on the way is a drag. -/

namespace ImportAtlas

inductive Button where
  | primary | secondary | middle
  deriving DecidableEq, Repr

/-- What happens to the pointer in a frame. -/
inductive PointerInput where
  | idle
  | move (p : Point)
  | press (b : Button)
  | release (b : Button)
  | scroll (dy : Float32)
  | leave

/-- A button that is down. -/
structure Press where
  button : Button
  /-- where it went down -/
  origin : Point
  dragging : Bool := false

/-- The pointer between frames. -/
structure Pointer where
  pos : Option Point := none
  press : Option Press := none
  /-- whether there was a frame before; the canvas cannot be hovered in the first one -/
  settled : Bool := false

/-- What a frame means for the canvas. -/
structure Gesture where
  hovered : Bool := false
  /-- where the pointer is -/
  pos : Option Point := none
  scroll : Float32 := 0.0
  /-- the button whose drag begins in this frame -/
  started : Option Button := none
  /-- the button of the drag that is under way -/
  dragged : Option Button := none
  /-- how far the pointer moved in this frame -/
  delta : Point := .zero
  /-- whether a drag ends in this frame -/
  stopped : Bool := false
  clicked : Option Button := none

namespace Pointer

/-- How far a pressed pointer may move before it drags. -/
def slack : Float32 := 6.0

/-- The pointer at another place. A pressed one begins to drag when it is far enough from where it went
down. -/
def move (p : Pointer) (q : Point) : Pointer :=
  { p with
    pos := some q
    press := p.press.map fun d =>
      { d with dragging := d.dragging || slack < Point.distance q d.origin } }

/-- The drag that is under way. -/
def drag? (p : Pointer) : Option Button := do
  let d ← p.press
  if d.dragging then some d.button else none

/-- What is the same in every kind of frame. -/
def rest (p : Pointer) : Gesture where
  hovered := p.settled && p.pos.isSome
  pos := p.pos
  dragged := p.drag?

/-- The pointer after a frame, and what the frame meant. -/
def feed (p : Pointer) (input : PointerInput) : Pointer × Gesture :=
  let old := p
  let p := { p with settled := true }
  match input with
  | .idle => (p, old.rest)
  | .move q =>
    let moved := p.move q
    let delta := match p.pos with
      | some o => q - o
      | none => .zero
    let started := if p.drag?.isNone then moved.drag? else none
    (moved, { { moved with settled := old.settled }.rest with delta, started })
  | .press b =>
    match p.press, p.pos with
    | none, some origin => ({ p with press := some { button := b, origin } }, old.rest)
    | _, _ => (p, old.rest)
  | .release b =>
    match p.press with
    | none => (p, old.rest)
    | some d =>
      if d.button ≠ b then (p, old.rest)
      else
        let clicked := if d.dragging then none else some b
        ({ p with press := none }, { old.rest with dragged := none, stopped := d.dragging, clicked })
  | .scroll dy => (p, { old.rest with scroll := dy })
  | .leave =>
    let gone := { p with pos := none }
    (gone, { gone with settled := old.settled }.rest)

end Pointer

end ImportAtlas
