-- SUMMARY: Folders of node names, the groups of nodes that share one, and the links that cross a group's border.
import ImportAtlas.Distinct
import ImportAtlas.Graph.Basic

/-! # Folders and groups

The folder of a name is the text before its last `/`; a name without one lies in the folder with the
empty name. Nodes are grouped by folder, and a folder that only one node lies in is no group. A group
knows its members and its crossings, the links with exactly one end inside. -/

namespace ImportAtlas

/-- The characters before the last `/`, none if there is no `/`. -/
def folderChars (name : List Char) : List Char :=
  (name.reverse.dropWhile (· != '/')).tail.reverse

/-- The text before the last `/` of a name. -/
def folderOf (name : String) : String := String.ofList (folderChars name.toList)

def Node.folder (n : Node) : String := folderOf n.name

/-- A link across the border of a group, seen from inside. -/
structure Crossing where
  /-- the id of the end inside the group -/
  member : String
  /-- the id of the other end -/
  outside : String
  /-- the folder of the other end, when that is a group too -/
  outsideFolder : Option String
  link : Link
  deriving DecidableEq, Repr

/-- The nodes of one folder and the links that cross its border. -/
structure NodeGroup where
  folder : String
  members : List Node
  crossings : List Crossing
  deriving DecidableEq, Repr

namespace NodeGroup

def nodeId (G : NodeGroup) : String := Node.groupId G.folder

def memberIds (G : NodeGroup) : List String := G.members.map (·.id)

/-- The node that stands for all members while the group is folded. -/
def foldedNode (G : NodeGroup) : Node := Node.ofGroup G.folder G.memberIds

end NodeGroup

/-- The groups of a graph, in the order in which their folders were first seen. -/
abbrev Groups := List NodeGroup

namespace Groups

def get? (Gs : Groups) (folder : String) : Option NodeGroup := Gs.find? (·.folder == folder)

def contains (Gs : Groups) (folder : String) : Bool := Gs.any (·.folder == folder)

def folders (Gs : Groups) : List String := Gs.map (·.folder)

end Groups

/-- A link with both ends in the graph: the nodes at its ends and the folders that these lie in. -/
structure Span where
  link : Link
  source : Node
  target : Node
  sourceFolder : String
  targetFolder : String
  deriving DecidableEq, Repr

namespace Span

def of (link : Link) (source target : Node) : Span :=
  ⟨link, source, target, source.folder, target.folder⟩

/-- The crossing that a link makes on the border of a folder, where `shared` are the folders that form
groups. -/
def crossing? (shared : List String) (folder : String) (k : Span) : Option Crossing :=
  if k.sourceFolder = folder ∧ k.targetFolder ≠ folder then
    some ⟨k.source.id, k.target.id,
      if k.targetFolder ∈ shared then some k.targetFolder else none, k.link⟩
  else if k.targetFolder = folder ∧ k.sourceFolder ≠ folder then
    some ⟨k.target.id, k.source.id,
      if k.sourceFolder ∈ shared then some k.sourceFolder else none, k.link⟩
  else none

end Span

namespace Graph

/-- The nodes that lie in a folder. -/
def inFolder (g : Graph) (folder : String) : List Node := g.nodes.filter (·.folder == folder)

/-- The folders that at least two nodes share, in the order in which they were first seen. -/
def sharedFolders (g : Graph) : List String :=
  let folders := g.nodes.map (·.folder)
  (distinctBy id folders).filter fun f => 2 ≤ folders.count f

/-- The links with both ends in the graph. -/
def spans (g : Graph) : List Span :=
  g.links.filterMap fun l => (g.resolve? l).map fun (s, t) => Span.of l s t

/-- The group that a folder forms among the shared folders. -/
def groupOf (g : Graph) (shared : List String) (spans : List Span) (folder : String) : NodeGroup where
  folder := folder
  members := g.inFolder folder
  crossings := spans.filterMap (Span.crossing? shared folder)

/-- All groups of a graph. -/
def groups (g : Graph) : Groups :=
  let shared := g.sharedFolders
  let spans := g.spans
  shared.map (g.groupOf shared spans)

@[simp] theorem folders_groups (g : Graph) : g.groups.folders = g.sharedFolders := by
  simp [groups, Groups.folders, groupOf, Function.comp_def]

end Graph

end ImportAtlas
