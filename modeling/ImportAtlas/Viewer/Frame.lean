-- SUMMARY: One frame of the viewer: gestures act, the simulation ticks and a picture is drawn.
import ImportAtlas.Viewer.Basic
import ImportAtlas.Viewer.Pointer
import ImportAtlas.Viewer.Scene

/-! # Frames

A frame first lets the gesture zoom, drag and pan, then lets the simulation tick, then draws, and at
last acts on a click. What is under the pointer is found before anything moves. -/

namespace ImportAtlas

/-- What a frame shows. -/
structure Picture where
  /-- what is painted on the canvas -/
  shapes : List Shape := []
  /-- a line below the canvas -/
  note : Option String := none
  /-- whether the pointer shows a hand -/
  hand : Bool := false

namespace Viewer

/-- The layout as it appears in a rectangle of the screen. -/
def scene (v : Viewer) (r : Rect Float32) : Scene := .of r v.pan v.zoom v.layout

/-- Zoom about the pointer by a scroll over the canvas. -/
def zoomBy (v : Viewer) (r : Rect Float32) (g : Gesture) : Viewer :=
  if !g.hovered || g.scroll.abs ≤ Single.epsilon then v
  else
    let pointer := g.pos.getD r.center
    let world := toWorld r v.pan v.zoom pointer
    let factor := Single.clamp (1.0 + g.scroll * 0.0018) 0.85 1.15
    let zoom := Single.clamp (v.zoom * factor) 0.05 6.0
    { v with zoom, pan := pointer - r.center - world.scale zoom }

/-- Tell the session which point is in the middle of the view. -/
def updateCenter (v : Viewer) (r : Rect Float32) : Viewer :=
  { v with session := v.session.setCenter (toWorld r v.pan v.zoom r.center) }

/-- Begin to drag the node under the pointer. -/
def beginDrag (v : Viewer) (g : Gesture) (hovered : Option Nat) : Viewer :=
  match g.started, hovered with
  | some .primary, some i =>
    { v.mapLayout (·.hold i) with dragging := v.layout.bodies[i]?.map (·.id) }
  | _, _ => v

/-- Go on with a drag: the node follows the pointer and is let go at the end. A node that is gone is
not dragged any more. -/
def continueDrag (v : Viewer) (r : Rect Float32) (g : Gesture) : Viewer :=
  match v.dragging with
  | none => v
  | some id =>
    match v.layout.index? id with
    | none => { v with dragging := none }
    | some i =>
      let v := match g.dragged, g.pos with
        | some .primary, some p => v.mapLayout (·.moveHeld i (toWorld r v.pan v.zoom p))
        | _, _ => v
      if g.stopped then { v.mapLayout (·.release i) with dragging := none } else v

/-- Drag the node under the pointer. -/
def dragNode (v : Viewer) (r : Rect Float32) (g : Gesture) (hovered : Option Nat) : Viewer :=
  (v.beginDrag g hovered).continueDrag r g

/-- Move the view by a drag: with the primary button unless it drags a node, with the others
always. -/
def panBy (v : Viewer) (g : Gesture) : Viewer :=
  match g.dragged with
  | none => v
  | some .primary => if v.dragging.isSome then v else { v with pan := v.pan + g.delta }
  | some _ => { v with pan := v.pan + g.delta }

/-- Let the simulation tick if it is live. -/
def tick (v : Viewer) : Viewer := if v.live then v.mapLayout (·.step.1) else v

/-- What a picture puts forward. -/
def focus (v : Viewer) (hovered : Option Nat) (found : Option (List Nat)) : Focus where
  selected := v.selected.bind v.layout.index?
  hovered := hovered
  found := found.getD []

/-- Act on a click at a node or at nothing. -/
def clickAt (v : Viewer) (g : Gesture) (hovered : Option Nat) : Logged Viewer :=
  if g.clicked = some .primary then
    v.click (hovered.bind fun i => v.layout.bodies[i]?.map (·.id))
  else return v

/-- Draw the viewer in a rectangle of the screen. -/
def draw (v : Viewer) (r : Rect Float32) (g : Gesture) : Logged (Viewer × Picture) := do
  let ground := background r v.pan v.zoom
  let v := (v.zoomBy r g).updateCenter r
  if v.graph.nodes.isEmpty then
    return (v, { shapes := ground, note := some "The graph has no nodes." })
  let hovered := g.pos.bind (v.scene r).nodeAt
  let v := ((v.dragNode r g hovered).panBy g).tick
  let (v, found) := v.matching
  let scene := v.scene r
  let picture : Picture :=
    { shapes := ground ++ scene.shapes (v.focus hovered found), hand := hovered.isSome }
  let v := { v with nodesInView := scene.visible.length, edgesInView := scene.visibleEdges.length }
  return (← v.clickAt g hovered, picture)

def beginFrame (v : Viewer) : Viewer := { v with session := v.session.beginFrame }

/-- One frame. -/
def frame (v : Viewer) (r : Rect Float32) (g : Gesture) : Logged (Viewer × Picture) :=
  v.beginFrame.draw r g

end Viewer

end ImportAtlas
