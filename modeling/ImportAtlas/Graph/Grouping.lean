-- SUMMARY: Folding a graph by folder, unfolding single groups and restoring the loaded graph.
import ImportAtlas.Log
import ImportAtlas.Graph.Folder

/-! # Grouping

A `Grouping` remembers the graph it was first applied to and derives every later view from it:

* the folded view, where each group is one node and the links across its border run to that node;
* views in which single groups are unfolded again;
* the loaded graph itself.

An operation takes the view shown now and returns the next one. Folding one group folds all of them,
because the folded view is always built anew from the loaded graph. -/

namespace ImportAtlas

namespace Graph

/-- The stand-in for the link of a crossing, when both its ends are among `present`. -/
def standIn? (present : List String) (G : NodeGroup) (c : Crossing) : Option Link :=
  let inside := G.nodeId
  let outside := (c.outsideFolder.map Node.groupId).getD c.outside
  let (source, target) := if c.link.source = c.member then (inside, outside) else (outside, inside)
  if source ∈ present ∧ target ∈ present then some (Link.standIn source target c.link) else none

/-- The nodes that lie in no group, then one node per group. -/
def foldedNodes (g : Graph) (Gs : Groups) : List Node :=
  g.nodes.filter (fun n => !Gs.contains n.folder) ++ Gs.map NodeGroup.foldedNode

/-- The links between nodes that lie in no group. -/
def openLinks (g : Graph) (Gs : Groups) : List Link :=
  g.spans.filterMap fun k =>
    if !Gs.contains k.sourceFolder && !Gs.contains k.targetFolder then some k.link.detached else none

/-- Every crossing of every group, one for each pair of ends: a link between two groups crosses both
borders and is drawn once. -/
def borderCrossings (Gs : Groups) : List (NodeGroup × Crossing) :=
  distinctBy (fun p => p.2.link.ends) (Gs.flatMap fun G => G.crossings.map (G, ·))

/-- The view in which every group is folded. -/
def folded (g : Graph) (Gs : Groups) : Graph :=
  let nodes := g.foldedNodes Gs
  let present := nodes.map (·.id)
  { nodes
    links := g.openLinks Gs ++ (borderCrossings Gs).filterMap fun (G, c) => standIn? present G c }

/-- The links of `g` that come back into sight when `G` unfolds among the nodes `present`: those
inside the group, and those that reach a visible node. -/
def unfoldedLinks (g : Graph) (G : NodeGroup) (present : List String) : List Link :=
  g.spans.filterMap fun k =>
    let sourceIn := k.sourceFolder = G.folder
    let targetIn := k.targetFolder = G.folder
    if sourceIn ∧ targetIn then some k.link.detached
    else if sourceIn then if k.link.target ∈ present then some k.link.detached else none
    else if targetIn then if k.link.source ∈ present then some k.link.detached else none
    else none

/-- The view `current` of the loaded graph `g` with the group node `id` replaced by the members of
`G`. -/
def unfold (g current : Graph) (id : String) (G : NodeGroup) : Graph :=
  let nodes := current.nodes.eraseP (·.id == id) ++ G.members
  { nodes
    links := current.links.filter (fun l => !l.touches id) ++
      g.unfoldedLinks G (nodes.map (·.id)) }

end Graph

/-- The graph a grouping works on: captured once and kept. -/
structure Store where
  captured : Option Graph := none
  deriving DecidableEq, Repr

namespace Store

def isCaptured (s : Store) : Bool := s.captured.isSome

/-- The captured graph; the empty graph before the first capture. -/
def graph (s : Store) : Graph := s.captured.getD {}

/-- Keep a graph, unless one is kept already. The answer says whether it was kept. -/
def capture (s : Store) (g : Graph) : Logged (Store × Bool) :=
  match s.captured with
  | some _ => pure (s, false)
  | none => do
    Logged.tell
      { level := .debug, message := "captured original graph"
        fields := [("nodes", .count g.nodes.length), ("links", .count g.links.length)] }
    return (⟨some g.detached⟩, true)

end Store

structure Grouping where
  store : Store := {}
  groups : Groups := []
  /-- whether the view is one of the grouped ones -/
  active : Bool := false

namespace Grouping

/-- Find the groups of the loaded graph and fold them all. -/
def collapseAll (t : Grouping) : Logged (Grouping × Graph) := do
  let g := t.store.graph
  let Gs := g.groups
  let view := g.folded Gs
  Logged.tell
    { level := .debug, message := "built grouped snapshot"
      fields := [("groups", .count Gs.length), ("nodes", .count view.nodes.length),
        ("links", .count view.links.length)] }
  return ({ t with groups := Gs }, view)

/-- Fold the group of one folder, which folds every other group too. -/
def collapse (t : Grouping) (folder : String) : Logged (Grouping × Graph) := do
  Logged.tell
    { level := .debug, message := "collapsing group rebuilds every group"
      fields := [("prefix", .text folder)] }
  t.collapseAll

/-- Go over to the folded view. The first use captures the graph shown; a grouped view stays. -/
def apply (t : Grouping) (current : Graph) : Logged (Grouping × Graph) := do
  if t.active then return (t, current)
  let (store, _) ← t.store.capture current
  let (t, view) ← { t with store }.collapseAll
  return ({ t with active := true }, view)

/-- Replace the group node `n` of the view by the members of `G`. -/
def expand (t : Grouping) (current : Graph) (n : Node) (G : NodeGroup) : Logged Graph := do
  Logged.tell
    { level := .debug, message := "expanded group"
      fields := [("group", .text n.id), ("members", .count G.members.length)] }
  return t.store.graph.unfold current n.id G

/-- Unfold the group node with an id, or fold it when it is marked as unfolded. An id that no group
node carries changes nothing, nor does a group node whose folder is no group. -/
def toggle (t : Grouping) (current : Graph) (id : String) : Logged (Grouping × Graph) :=
  match current.node? id with
  | none => pure (t, current)
  | some n =>
    match n.fold with
    | none => pure (t, current)
    | some f =>
      if f.expanded then t.collapse f.folder
      else match t.groups.get? f.folder with
        | none => do
          Logged.tell
            { level := .warn, message := "no group recorded for group node"
              fields := [("group_id", .text id)] }
          return (t, current)
        | some G => do
          let view ← t.expand current n G
          return (t, view)

/-- Return to the loaded graph. A view that is not grouped stays. -/
def revert (t : Grouping) (current : Graph) : Grouping × Graph :=
  if t.active then ({ t with active := false }, t.store.graph.detached) else (t, current)

end Grouping

/-- A group node with its mark set to unfolded. -/
def Node.expanded (n : Node) : Node := { n with fold := n.fold.map ({ · with expanded := true }) }

end ImportAtlas
