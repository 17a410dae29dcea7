-- SUMMARY: A viewing session: the graph shown, its grouping, and the engine that lays it out.
import ImportAtlas.Graph.Grouping
import ImportAtlas.Hash.Scatter
import ImportAtlas.Session.Engine

/-! # Sessions

A session owns the graph that is shown. An intent of the user becomes a transition to another graph:
the engine renders it, nodes that were not there before are seeded around the centre of the view and
pinned until the next frame, and the simulation starts anew. -/

namespace ImportAtlas

structure Session (ε : Type) where
  grouping : Grouping := {}
  graph : Graph
  config : SimConfig := {}
  engine : ε
  /-- the point of the graph that lies in the middle of the view -/
  center : Point := .zero
  /-- whether nodes were pinned since the last frame -/
  pinned : Bool := false

namespace Session

variable {ε : Type} [Engine ε]

/-- Half the side of the square around the centre in which nodes are seeded. -/
def seedSpread : Float32 := 100.0

/-- Where a node is seeded. -/
def seedPoint (s : Session ε) (id : String) : Point := s.center + (scatter id).scale seedSpread

def isGrouped (s : Session ε) : Bool := s.grouping.active

/-- Place and pin the seeded nodes. -/
def seed (s : Session ε) (ids : List String) : Session ε :=
  let engine := ids.foldl (fun e id => Engine.place e id (s.seedPoint id)) s.engine
  if ids.isEmpty then { s with engine }
  else { s with engine := Engine.pin engine ids, pinned := true }

/-- Show the graph of the session, with nodes seeded. -/
def transition (s : Session ε) (seeded : List String) : Logged (Session ε) := do
  let engine ← Engine.render s.engine s.graph
  let s := { s with engine }.seed seeded
  let engine ← Engine.start s.engine s.graph s.config
  return { s with engine }

/-- A session that shows a graph. -/
def ofGraph (graph : Graph) (engine : ε) (config : SimConfig) : Logged (Session ε) :=
  transition { graph, engine, config } graph.ids

/-- Show another graph. Only nodes whose id is new are seeded. -/
def replace (s : Session ε) (next : Graph) : Logged (Session ε) :=
  let old := s.graph.ids
  transition { s with graph := next } (next.ids.filter fun id => !old.contains id)

/-- Group the graph, or restore the loaded one. Every node is seeded. The answer says whether the
graph is grouped now. -/
def toggleGrouping (s : Session ε) : Logged (Session ε × Bool) := do
  let (grouping, graph) ←
    if s.isGrouped then pure (s.grouping.revert s.graph) else s.grouping.apply s.graph
  let s ← transition { s with grouping, graph } graph.ids
  Logged.tell
    { level := .info, message := "toggled grouping"
      fields := [("grouped", .flag s.isGrouped), ("nodes", .count s.graph.nodes.length),
        ("links", .count s.graph.links.length)] }
  return (s, s.isGrouped)

/-- Fold or unfold a group node. A click on anything else does nothing, which the answer says. -/
def click (s : Session ε) (id : String) : Logged (Session ε × Bool) := do
  if !((s.graph.node? id).map Node.isGroup).getD false then return (s, false)
  let (grouping, next) ← s.grouping.toggle s.graph id
  let s ← { s with grouping }.replace next
  Logged.tell
    { level := .debug, message := "group node clicked"
      fields := [("id", .text id), ("nodes", .count s.graph.nodes.length)] }
  return (s, true)

/-- Fold every group again. The answer says whether the graph is grouped at all. -/
def collapse (s : Session ε) : Logged (Session ε × Bool) := do
  if !s.isGrouped then return (s, false)
  let (grouping, next) ← s.grouping.collapseAll
  let s ← { s with grouping }.replace next
  Logged.tell
    { level := .debug, message := "collapsed all groups"
      fields := [("nodes", .count s.graph.nodes.length)] }
  return (s, true)

/-- Tune the simulation, which starts anew. -/
def setConfig (s : Session ε) (config : SimConfig) : Logged (Session ε) := do
  let engine ← Engine.start s.engine s.graph config
  return { s with config, engine }

def setCenter (s : Session ε) (center : Point) : Session ε := { s with center }

/-- Let go of the nodes that were pinned since the last frame. -/
def beginFrame (s : Session ε) : Session ε :=
  if s.pinned then { s with engine := Engine.unpinAll s.engine, pinned := false } else s

end Session

end ImportAtlas
