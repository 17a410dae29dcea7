-- SUMMARY: Dependency graphs: nodes, links and the queries on a graph.

/-! # Graphs

A graph is a list of nodes and a list of links between node ids, in the order in which they were
found. Neither list has to be tidy: an id may occur twice and a link may name an id that no node
carries. Where an id has to be looked up, the first node that carries it is meant. -/

namespace ImportAtlas

/-- What a node stands for. -/
inductive NodeKind where
  /-- the module the graph was started from -/
  | root
  /-- a module of the project -/
  | project
  /-- a package from outside the project -/
  | thirdParty
  /-- a folded group of nodes -/
  | group
  deriving DecidableEq, Repr

namespace NodeKind

/-- The word for a kind, in files and on the screen. -/
def label : NodeKind → String
  | root => "root"
  | project => "local"
  | thirdParty => "third_party"
  | group => "group"

def all : List NodeKind := [root, project, thirdParty, group]

/-- The kind that a word names. -/
def ofLabel? (word : String) : Option NodeKind := all.find? (·.label == word)

theorem ofLabel?_label (k : NodeKind) : ofLabel? k.label = some k := by
  cases k <;> decide

end NodeKind

/-- What only a group node carries: the folder it stands for and the ids of its members. -/
structure Fold where
  expanded : Bool := false
  folder : String
  members : List String
  deriving DecidableEq, Repr

structure Node where
  id : String
  name : String
  kind : NodeKind
  fold : Option Fold := none
  deriving DecidableEq, Repr

namespace Node

def isGroup (n : Node) : Bool := n.fold.isSome

/-- The id of the node that stands for a folded group. -/
def groupId (folder : String) : String := "group_" ++ folder

/-- The folded group node of a folder. -/
def ofGroup (folder : String) (members : List String) : Node where
  id := groupId folder
  name := folder ++ "... (" ++ toString members.length ++ ")"
  kind := .group
  fold := some { folder, members }

end Node

/-- An arrow between two ids. `grouped` marks an arrow that stands for another one. -/
structure Arrow where
  source : String
  target : String
  grouped : Bool := false
  deriving DecidableEq, Repr

/-- A directed dependency: an arrow, and the chain of arrows it stands for, nearest first. -/
structure Link extends Arrow where
  standsFor : List Arrow := []
  deriving DecidableEq, Repr

namespace Link

/-- A plain link between two ids. -/
def between (source target : String) : Link := { source, target }

/-- The link with nothing but its two ends. -/
def detached (l : Link) : Link := between l.source l.target

/-- The link that a link directly stands for. -/
def stoodFor? (l : Link) : Option Link :=
  match l.standsFor with
  | [] => none
  | a :: as => some ⟨a, as⟩

/-- A link between two representatives, standing for `l`. -/
def standIn (source target : String) (l : Link) : Link where
  source := source
  target := target
  grouped := true
  standsFor := [l.detached.toArrow]

def touches (l : Link) (id : String) : Bool := l.source == id || l.target == id

/-- The two ends of a link. -/
def ends (l : Link) : String × String := (l.source, l.target)

@[simp] theorem ends_detached (l : Link) : l.detached.ends = l.ends := rfl

@[simp] theorem detached_detached (l : Link) : l.detached.detached = l.detached := rfl

end Link

structure Graph where
  nodes : List Node := []
  links : List Link := []
  deriving DecidableEq, Repr

namespace Graph

/-- The first node that carries an id. -/
def node? (g : Graph) (id : String) : Option Node := g.nodes.find? (·.id == id)

def contains (g : Graph) (id : String) : Bool := g.nodes.any (·.id == id)

def ids (g : Graph) : List String := g.nodes.map (·.id)

def groupNodes (g : Graph) : List Node := g.nodes.filter (·.isGroup)

def outgoing (g : Graph) (id : String) : List Link := g.links.filter (·.source == id)

def incoming (g : Graph) (id : String) : List Link := g.links.filter (·.target == id)

/-- The nodes at the two ends of a link, when both ends are nodes of the graph. -/
def resolve? (g : Graph) (l : Link) : Option (Node × Node) := do
  let source ← g.node? l.source
  let target ← g.node? l.target
  return (source, target)

/-- The same nodes, and links with nothing but their ends. -/
def detached (g : Graph) : Graph where
  nodes := g.nodes
  links := g.links.map Link.detached

@[simp] theorem detached_detached (g : Graph) : g.detached.detached = g.detached := by
  simp [detached]

theorem node?_id {g : Graph} {id : String} {n : Node} (h : g.node? id = some n) : n.id = id := by
  simpa using List.find?_some h

end Graph

end ImportAtlas
