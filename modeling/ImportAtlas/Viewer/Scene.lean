-- SUMMARY: A layout on the screen: where its nodes are and the picture of it.
import ImportAtlas.Canvas.Paint
import ImportAtlas.Layout.Basic

/-! # Scenes

A scene is a layout as it appears in a rectangle of the screen. Its picture shows the edges below the
nodes and puts forward what is selected, under the pointer or found by a search. -/

namespace ImportAtlas

/-- A node on the screen. -/
structure Disc where
  pos : Point
  radius : Float32

namespace Disc

/-- The positions of the discs that can be seen. -/
def visible (r : Rect Float32) (ds : Array Disc) : List Nat :=
  (ds.toList.zipIdx.filter fun (d, _) => circleVisible r d.pos d.radius).map (·.2)

end Disc

/-- A layout in a rectangle of the screen. -/
structure Scene where
  rect : Rect Float32
  zoom : Float32
  layout : Layout
  /-- where the bodies of the layout are on the screen, in order -/
  discs : Array Disc
  /-- the positions of those that can be seen -/
  visible : List Nat

namespace Scene

/-- The scene of a layout, seen with a pan and a zoom. -/
def of (r : Rect Float32) (pan : Point) (zoom : Float32) (l : Layout) : Scene :=
  let discs := l.bodies.toArray.map fun b =>
    { pos := toScreen r pan zoom b.pos
      radius := Single.clamp (b.kind.radius * zoom.sqrt) 2.5 40.0 : Disc }
  { rect := r, zoom, layout := l, discs, visible := Disc.visible r discs }

def disc (s : Scene) (i : Nat) : Disc := s.discs.getD i ⟨.zero, 0.0⟩

/-- The nearer of two candidates; the first one if they are equally near. -/
def nearer (best : Option (Nat × Float32)) (c : Nat × Float32) : Option (Nat × Float32) :=
  match best with
  | none => some c
  | some b => if c.2 < b.2 then some c else some b

/-- The node at a point: of those whose disc holds it, the one with the nearest centre. -/
def nodeAt (s : Scene) (p : Point) : Option Nat :=
  let near := s.visible.filterMap fun i =>
    let d := s.disc i
    let distance := Point.distance d.pos p
    if distance ≤ d.radius then some (i, distance) else none
  (near.foldl nearer none).map (·.1)

/-- Whether an edge can be seen. -/
def showsEdge (s : Scene) (e : Edge) : Bool :=
  s.visible.contains e.source || s.visible.contains e.target ||
    edgeVisible s.rect (s.disc e.source).pos (s.disc e.target).pos 2.5

/-- The edges that can be seen. -/
def visibleEdges (s : Scene) : List Edge := s.layout.edges.filter s.showsEdge

end Scene

/-! ## What is put forward -/

/-- The nodes that a picture puts forward. -/
structure Focus where
  selected : Option Nat := none
  hovered : Option Nat := none
  /-- the nodes that a search found -/
  found : List Nat := []

namespace Focus

/-- Whether what is not put forward is dimmed. -/
def isActive (f : Focus) : Bool := f.selected.isSome || !f.found.isEmpty

/-- Whether an edge ends at the selected node. -/
def touches (f : Focus) (e : Edge) : Bool :=
  f.selected == some e.source || f.selected == some e.target

/-- Whether a node is joined to the selected one. -/
def isNeighbour (f : Focus) (edges : List Edge) (i : Nat) : Bool :=
  edges.any fun e =>
    (f.selected == some e.source && e.target == i) || (f.selected == some e.target && e.source == i)

/-- Whether a node is put forward. -/
def holds (f : Focus) (edges : List Edge) (i : Nat) : Bool :=
  f.selected == some i || f.hovered == some i || f.found.contains i || f.isNeighbour edges i

end Focus

/-! ## Pictures -/

namespace Color

def gold : Color := ⟨245, 206, 93, 255⟩

def sky : Color := ⟨103, 196, 255, 255⟩

end Color

namespace Scene

def edgeShapes (s : Scene) (f : Focus) (e : Edge) : List Shape :=
  let base := linkStroke e.grouped s.zoom
  let color :=
    if f.touches e then Color.gold
    else if f.isActive then base.color.dim 0.5
    else base.color
  let a := s.disc e.source
  let b := s.disc e.target
  linkShapes a.pos b.pos a.radius b.radius ⟨base.width, color⟩ e.grouped

def nodeShapes (s : Scene) (f : Focus) (i : Nat) : List Shape :=
  match s.layout.bodies[i]? with
  | none => []
  | some b =>
    let d := s.disc i
    let forward := f.holds s.layout.edges i
    let color := if !forward && f.isActive then b.kind.color.dim 0.45 else b.kind.color
    let halo : List Shape :=
      if f.selected == some i then [.ring d.pos (d.radius + 3.0) ⟨1.6, Color.gold⟩]
      else if f.found.contains i then [.ring d.pos (d.radius + 3.0) ⟨1.6, Color.sky⟩]
      else []
    let label : List Shape :=
      if forward || b.kind == .group || 0.6 < s.zoom then [.text b.label] else []
    [.disc d.pos d.radius color, .ring d.pos d.radius ⟨1.0, Color.black⟩] ++ halo ++ label

/-- What is written about the node under the pointer. -/
def hint (b : Body) : String :=
  b.label ++ "  |  " ++ (if b.kind == .group then "click to expand" else b.kind.label)

def hintShapes (s : Scene) (f : Focus) : List Shape :=
  match f.hovered.bind (s.layout.bodies[·]?) with
  | some b => [.text (hint b)]
  | none => []

/-- The picture of a scene. -/
def shapes (s : Scene) (f : Focus) : List Shape :=
  s.visibleEdges.flatMap (s.edgeShapes f) ++ s.visible.flatMap (s.nodeShapes f) ++ s.hintShapes f

end Scene

end ImportAtlas
