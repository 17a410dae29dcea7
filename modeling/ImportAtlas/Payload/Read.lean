-- SUMMARY: Reading a graph from JSON text in one pass.
import ImportAtlas.Graph.Basic
import ImportAtlas.Json.Scalar
import ImportAtlas.Log

/-! # Reading payloads

A payload is a JSON text that holds a graph: `nodes`, each with `id`, `name`, `type` and the marks of
a group node, and `links`, each with `source`, `target` and the marks of a stand-in. The text is read
in one pass, so the first problem in reading order is the one reported. A record may also be written
as an array of its fields in order; fields that nobody asked for are passed over. -/

namespace ImportAtlas.Payload

open Json Json.Reader

/-- How many brackets may be open at once. -/
def maxDepth : Nat := 127

/-! ## Nodes -/

/-- The fields of a node as far as they have been read. -/
structure NodeFields where
  id : Option String := none
  name : Option String := none
  kind : Option NodeKind := none
  isGroup : Option Bool := none
  expanded : Option Bool := none
  folder : Option (Option String) := none
  members : Option (List String) := none

/-- A node with its required fields; the marks of a group count only when it is one. -/
def NodeFields.toNode (f : NodeFields) (id name : String) (kind : NodeKind) : Node where
  id := id
  name := name
  kind := kind
  fold :=
    if f.isGroup.getD false then
      some { expanded := f.expanded.getD false, folder := (f.folder.getD none).getD ""
             members := f.members.getD [] }
    else none

/-- The word for a kind of node. -/
def variant : Reader NodeKind := do
  let word ← text "variant identifier"
  match NodeKind.ofLabel? word with
  | some k => return k
  | none => fail (.unknownVariant word (NodeKind.all.map (·.label)))

/-- The word for a kind of node as the key of an object. -/
def variantKey : Reader NodeKind := do
  match ← token with
  | none => refuse .endInValue
  | some '"' => variant
  | some '}' => refuse .expectedValue
  | some _ => refuse .keyNotText

/-- A kind of node: its word, or an object whose only key is the word, with the value null. -/
def kind (room : Nat) : Reader NodeKind := do
  match ← token with
  | none => refuse .endInValue
  | some '{' => enter (within room fun _ => do
      let k ← variantKey
      colon
      null
      match ← token with
      | none => fail .endInObject
      | some '}' => do
        advance
        return k
      | some _ => fail .expectedValue)
  | some '"' => variant
  | some _ => refuse .expectedValue

def plainText : Reader String := text "a string"

def members (room : Nat) : Reader (List String) := list room fun _ => plainText

def nodeShape : String := "struct RawNode with 7 elements"

/-- The fields of a node in order. -/
def nodeCells (room : Nat) : Reader Node := do
  let id ← required 0 nodeShape (← firstCell plainText)
  let name ← required 1 nodeShape (← nextCell plainText)
  let k ← required 2 nodeShape (← nextCell (kind room))
  let isGroup ← nextCell flag
  let expanded ← nextCell flag
  let folder ← nextCell (nullable plainText)
  let members ← nextCell (members room)
  return { isGroup, expanded, folder, members : NodeFields }.toNode id name k

/-- One entry of a node in object form. -/
def nodeEntry (room : Nat) (f : NodeFields) : Reader NodeFields := do
  match ← key with
  | "id" => return { f with id := some (← once "id" f.id plainText) }
  | "name" => return { f with name := some (← once "name" f.name plainText) }
  | "type" => return { f with kind := some (← once "type" f.kind (kind room)) }
  | "isGroup" => return { f with isGroup := some (← once "isGroup" f.isGroup flag) }
  | "expandedState" => return { f with expanded := some (← once "expandedState" f.expanded flag) }
  | "prefix" => return { f with folder := some (← once "prefix" f.folder (nullable plainText)) }
  | "members" => return { f with members := some (← once "members" f.members (members room)) }
  | _ => do
    unknown
    return f

def nodeEntries (room : Nat) : Reader Node := do
  let f ← entries (nodeEntry room) {}
  let id ← present "id" f.id
  let name ← present "name" f.name
  let k ← present "type" f.kind
  return f.toNode id name k

def node (room : Nat) : Reader Node :=
  record "struct RawNode" (match room with
    | 0 => none
    | room + 1 => some (nodeCells room, nodeEntries room))

/-! ## Links -/

/-- The entries of an object with a given key. -/
def valuesAt (name : String) (es : List (List Piece × Tree)) : List Tree :=
  es.filterMap fun (k, t) => if Piece.text? k = some name then some t else none

/-- The id that a value names as the end of a link: a string, or an object with one string `id`. -/
def endpointOf? : Tree → Option String
  | .string ps => Piece.text? ps
  | .object es =>
    match valuesAt "id" es with
    | [.string ps] => Piece.text? ps
    | _ => none
  | _ => none

/-- The end of a link. The value is read to its end before it is looked at. -/
def endpoint (room : Nat) : Reader String := do
  match endpointOf? (← tree (.strict room)) with
  | some id => return id
  | none => fail .noEndpoint

/-- The fields of a link as far as they have been read. -/
structure LinkFields where
  source : Option String := none
  target : Option String := none
  grouped : Option Bool := none
  stoodFor : Option (Option Link) := none

/-- A link with its required fields. -/
def LinkFields.toLink (f : LinkFields) (source target : String) : Link where
  source := source
  target := target
  grouped := f.grouped.getD false
  standsFor :=
    match f.stoodFor.getD none with
    | none => []
    | some l => l.toArrow :: l.standsFor

def linkShape : String := "struct RawLink with 4 elements"

/-- The fields of a link in order, where `inner` reads the link it stands for. -/
def linkCells (room : Nat) (inner : Reader Link) : Reader Link := do
  let source ← required 0 linkShape (← firstCell (endpoint room))
  let target ← required 1 linkShape (← nextCell (endpoint room))
  let grouped ← nextCell flag
  let stoodFor ← nextCell (nullable inner)
  return { grouped, stoodFor : LinkFields }.toLink source target

/-- One entry of a link in object form. -/
def linkEntry (room : Nat) (inner : Reader Link) (f : LinkFields) : Reader LinkFields := do
  match ← key with
  | "source" => return { f with source := some (← once "source" f.source (endpoint room)) }
  | "target" => return { f with target := some (← once "target" f.target (endpoint room)) }
  | "isGroupLink" => return { f with grouped := some (← once "isGroupLink" f.grouped flag) }
  | "originalLink" =>
    return { f with stoodFor := some (← once "originalLink" f.stoodFor (nullable inner)) }
  | _ => do
    unknown
    return f

def linkEntries (room : Nat) (inner : Reader Link) : Reader Link := do
  let f ← entries (linkEntry room inner) {}
  let source ← present "source" f.source
  let target ← present "target" f.target
  return f.toLink source target

/-- A link; each link that it stands for takes one more bracket of the room. -/
def link : Nat → Reader Link
  | 0 => record "struct RawLink" none
  | room + 1 =>
    record "struct RawLink" (some (linkCells room (link room), linkEntries room (link room)))

/-! ## Graphs -/

structure GraphFields where
  nodes : Option (List Node) := none
  links : Option (List Link) := none

def GraphFields.toGraph (f : GraphFields) : Graph where
  nodes := f.nodes.getD []
  links := f.links.getD []

def graphCells (room : Nat) : Reader Graph := do
  let nodes ← firstCell (list room node)
  let links ← nextCell (list room link)
  return { nodes, links : GraphFields }.toGraph

/-- One entry of a graph in object form. -/
def graphEntry (room : Nat) (f : GraphFields) : Reader GraphFields := do
  match ← key with
  | "nodes" => return { f with nodes := some (← once "nodes" f.nodes (list room node)) }
  | "links" => return { f with links := some (← once "links" f.links (list room link)) }
  | _ => do
    unknown
    return f

def graphEntries (room : Nat) : Reader Graph := do
  return (← entries (graphEntry room) {}).toGraph

def graph (room : Nat) : Reader Graph :=
  record "struct RawGraph" (match room with
    | 0 => none
    | room + 1 => some (graphCells room, graphEntries room))

/-- The graph that a text holds, or the first problem with it. -/
def read (raw : String) : Except Problem Graph := (graph maxDepth).run raw

/-- Read a graph and report its size. A text that holds none is not reported here. -/
def parse (raw : String) : Logged (Except Problem Graph) :=
  match read raw with
  | .error p => pure (.error p)
  | .ok g => do
    Logged.tell
      { level := .debug, message := "parsed graph payload"
        fields := [("nodes", .count g.nodes.length), ("links", .count g.links.length)] }
    return .ok g

end ImportAtlas.Payload
