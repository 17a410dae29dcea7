-- SUMMARY: What a session asks of the layout it drives, and a record of what was asked.
import ImportAtlas.Geometry.Vec
import ImportAtlas.Graph.Basic
import ImportAtlas.Log

/-! # Engines

A session decides which graph is shown; an engine decides where its nodes are. The session tells the
engine five things and asks nothing back. `Transcript` is the engine that only writes down what it was
told. -/

namespace ImportAtlas

/-- The tuning of the simulation. -/
structure SimConfig where
  /-- the length that a link wants to have -/
  linkDistance : Float32 := 100.0
  linkStrength : Float32 := 0.5
  /-- the charge of every node; a negative one pushes others away -/
  repulsion : Float32 := -1500.0
  /-- how strongly the graph is drawn to the origin -/
  centerStrength : Float32 := 0.02

class Engine (ε : Type) where
  /-- show another graph -/
  render : ε → Graph → Logged ε
  /-- start the simulation anew -/
  start : ε → Graph → SimConfig → Logged ε
  /-- move a node to a point -/
  place : ε → String → Point → ε
  /-- keep nodes where they are -/
  pin : ε → List String → ε
  /-- let all nodes move again -/
  unpinAll : ε → ε

/-- One thing that an engine was told. -/
inductive Call where
  | render (ids : List String) (links : Nat)
  | place (id : String) (point : Point)
  | pin (ids : List String)
  | start (nodes : Nat) (config : SimConfig)
  | unpinAll

/-- The engine that writes down what it was told. -/
structure Transcript where
  calls : List Call := []

namespace Transcript

def add (t : Transcript) (c : Call) : Transcript := ⟨t.calls ++ [c]⟩

instance : Engine Transcript where
  render t g := pure (t.add (.render g.ids g.links.length))
  start t g config := pure (t.add (.start g.nodes.length config))
  place t id p := t.add (.place id p)
  pin t ids := t.add (.pin ids)
  unpinAll t := t.add .unpinAll

end Transcript

end ImportAtlas
