-- SUMMARY: Layouts: where the nodes of a graph are, how they move, and which graph they show.
import ImportAtlas.Distinct
import ImportAtlas.Hash.Scatter
import ImportAtlas.Layout.Force
import ImportAtlas.Session.Engine

/-! # Layouts

A layout holds a body for every node of the graph it shows and an edge for every link that joins two
different bodies. When it shows another graph, the bodies that stay keep their place. -/

namespace ImportAtlas

/-- A node in motion. -/
structure Body where
  id : String
  label : String
  kind : NodeKind
  pos : Point
  vel : Point := .zero
  /-- whether the node keeps its place until the next frame -/
  pinned : Bool := false
  /-- whether the node is under the pointer -/
  held : Bool := false

namespace Body

/-- A node that appears. -/
def ofNode (n : Node) : Body where
  id := n.id
  label := n.name
  kind := n.kind
  pos := (scatter n.id).scale 100.0

/-- The body of a node, which keeps its place if it was there before. -/
def carry (old : List Body) (n : Node) : Body :=
  match old.find? (·.id == n.id) with
  | some b => { b with label := n.name, kind := n.kind }
  | none => ofNode n

/-- Whether a body keeps its place in the simulation. -/
def isFixed (b : Body) : Bool := b.pinned || b.held

end Body

structure Layout where
  bodies : List Body := []
  edges : List Edge := []
  config : SimConfig := {}
  /-- how warm the simulation is -/
  alpha : Float32 := 0.0
  /-- the warmth it tends to -/
  target : Float32 := 0.0
  /-- counts the graphs shown -/
  revision : UInt64 := 0

namespace Layout

/-- The position of the body with an id. -/
def index? (l : Layout) (id : String) : Option Nat := l.bodies.findIdx? (·.id == id)

/-- The edge of a link, if it joins two different bodies. -/
def edge? (bodies : List Body) (k : Link) : Option Edge := do
  let source ← bodies.findIdx? (·.id == k.source)
  let target ← bodies.findIdx? (·.id == k.target)
  if source = target then none else some { source, target, grouped := k.grouped }

/-- The edges of some links: one for each pair of bodies and direction. -/
def edgesOf (bodies : List Body) (links : List Link) : List Edge :=
  distinctBy (fun e => (e.source, e.target)) (links.filterMap (edge? bodies))

/-- Show a graph. -/
def render (l : Layout) (g : Graph) : Layout :=
  let bodies := (distinctBy (·.id) g.nodes).map (Body.carry l.bodies)
  { l with bodies, edges := edgesOf bodies g.links, revision := l.revision + 1 }

/-- Start the simulation anew. -/
def start (l : Layout) (config : SimConfig) : Layout := { l with config, alpha := 1.0 }

/-- Move a body to a point, where it rests. -/
def place (l : Layout) (id : String) (p : Point) : Layout :=
  { l with bodies := l.bodies.map fun b => if b.id = id then { b with pos := p, vel := .zero } else b }

def pin (l : Layout) (ids : List String) : Layout :=
  { l with bodies := l.bodies.map fun b => if b.id ∈ ids then { b with pinned := true } else b }

def unpinAll (l : Layout) : Layout :=
  { l with bodies := l.bodies.map fun b => { b with pinned := false } }

instance : Engine Layout where
  render l g := do
    let l := l.render g
    Logged.tell
      { level := .debug, message := "layout graph rebuilt"
        fields := [("nodes", .count l.bodies.length), ("edges", .count l.edges.length)] }
    return l
  start l g config := do
    Logged.tell
      { level := .debug, message := "simulation restarted"
        fields := [("nodes", .count g.nodes.length), ("link_distance", .number config.linkDistance),
          ("repulsion", .number config.repulsion)] }
    return l.start config
  place := place
  pin := pin
  unpinAll := unpinAll

/-- The layout of a new session: nothing is shown and nothing moves. -/
def empty : Layout := {}

end Layout

end ImportAtlas
