-- SUMMARY: The panels around the canvas: what they say and what a click on them means.
import ImportAtlas.Viewer.Basic
import ImportAtlas.Window.Knob

/-! # Panels

A panel is a list of widgets from top to bottom. A widget has a text and, if something happens when it
is clicked, the intent that the click means. -/

namespace ImportAtlas

/-- What the user wants. -/
inductive Intent where
  | reload
  | retry
  | toggleGrouping
  | collapse
  | resetView
  | toggleLive
  | turn (knob : Knob) (value : Float32)
  | select (id : String)
  | unfold (id : String)
  /-- open or close what is below a header -/
  | flip (header : String)
  deriving DecidableEq

structure Widget where
  text : String
  intent : Option Intent := none
  /-- the knob that the text belongs to -/
  knob : Option Knob := none

namespace Widget

def label (text : String) : Widget := { text }

def button (text : String) (intent : Intent) (enabled : Bool := true) : Widget where
  text := text
  intent := if enabled then some intent else none

/-- A header, and below it what it can hide. -/
def hideable (header : String) (isOpen : Bool) (content : List Widget) : List Widget :=
  button header (.flip header) :: (if isOpen then content else [])

end Widget

namespace Panel

open Widget

/-- The name under which a folder is shown. -/
def folderLabel (folder : String) : String := if folder.isEmpty then "(top level)" else folder

/-! ## Above -/

def topBar (v : Viewer) (source : String) (reloading : Bool) : List Widget :=
  [label "depmap", label ("source: " ++ source), label ("nodes: " ++ toString v.graph.nodes.length),
    label ("links: " ++ toString v.graph.links.length)] ++
  (if v.isGrouped then [label ("groups: " ++ toString v.session.grouping.groups.length)] else []) ++
  [button "Reload graph" .reload !reloading,
    label ("in view: " ++ toString v.nodesInView ++ " nodes, " ++ toString v.edgesInView ++ " links")]

/-! ## On the left -/

/-- One line for each group. A click selects the group's node while it is folded. -/
def groupList (v : Viewer) : List Widget :=
  v.session.grouping.groups.flatMap fun G =>
    [button (folderLabel G.folder) (.select G.nodeId) (v.graph.contains G.nodeId),
      label (toString G.members.length ++ " members")]

/-- The controls. `isOpen` tells, for a header and how it is at first, how it is now. -/
def controls (v : Viewer) (isOpen : String → Bool → Bool) : List Widget :=
  let knobs := Knob.all.map fun k => { text := k.label, knob := some k : Widget }
  let groups := "Groups (" ++ toString v.session.grouping.groups.length ++ ")"
  [label "Graph Controls", label "Search", label v.search,
    button (if v.isGrouped then "Ungroup nodes" else "Group nodes") .toggleGrouping,
    button "Collapse groups" .collapse v.isGrouped, button "Reset view" .resetView,
    button "Live physics simulation" .toggleLive] ++
  hideable "Simulation" (isOpen "Simulation" true) knobs ++
  label "Legend" :: NodeKind.all.map (fun k => label k.label) ++
  (if v.isGrouped then hideable groups (isOpen groups false) (groupList v) else [])

/-! ## On the right -/

/-- A neighbour of the selected node. -/
structure Relation where
  id : String
  name : String
  grouped : Bool

namespace Relation

def of (g : Graph) (id : String) (grouped : Bool) : Relation :=
  ⟨id, ((g.node? id).map (·.name)).getD id, grouped⟩

/-- Relations by name; those of one name stay in order. -/
def sort (rs : List Relation) : List Relation := rs.mergeSort fun a b => !(b.name < a.name)

def text (r : Relation) : String := if r.grouped then r.name ++ "  (via group)" else r.name

end Relation

/-- What the selected node depends on. -/
def dependencies (g : Graph) (id : String) : List Relation :=
  Relation.sort ((g.outgoing id).map fun k => .of g k.target k.grouped)

/-- What depends on the selected node. -/
def dependents (g : Graph) (id : String) : List Relation :=
  Relation.sort ((g.incoming id).map fun k => .of g k.source k.grouped)

def relations (title : String) (rs : List Relation) : List Widget :=
  label (title ++ " (" ++ toString rs.length ++ ")") ::
    (if rs.isEmpty then [label "None in the current view."]
    else rs.map fun r => button r.text (.select r.id))

/-- What is said of a group node. -/
def foldDetails (id : String) (f : Fold) (isOpen : String → Bool → Bool) : List Widget :=
  [label ("Prefix: " ++ folderLabel f.folder), label ("Members: " ++ toString f.members.length),
    button "Expand group" (.unfold id)] ++
  hideable "Members" (isOpen "Members" false) (f.members.map label)

def nodeDetails (g : Graph) (id : String) (n : Node) (isOpen : String → Bool → Bool) : List Widget :=
  [label n.name, label id, label ("Type: " ++ n.kind.label)] ++
  (match n.fold with
    | some f => foldDetails id f isOpen
    | none => []) ++
  relations "Dependencies" (dependencies g id) ++ relations "Dependents" (dependents g id)

/-- What is said of the selected node. -/
def details (v : Viewer) (isOpen : String → Bool → Bool) : List Widget :=
  label "Selection Details" ::
    match v.selected with
    | none => [label "Click a node to inspect it. Clicking a group node expands it."]
    | some id =>
      match v.graph.node? id with
      | none => [label "Selected node is not part of the current graph."]
      | some n => nodeDetails v.graph id n isOpen

end Panel

end ImportAtlas
