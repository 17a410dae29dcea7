-- SUMMARY: The format of payloads: which trees hold a graph, and which graph.
import ImportAtlas.Payload.Read
import ImportAtlas.Proofs.Json.Trees
import ImportAtlas.Proofs.Json.Decoding

/-! # The payload schema

Which graph a tree holds. This is the format without any text: a payload is a document whose tree
decodes here. `room` counts the brackets that may still be opened. Values of fields that nobody asks
for are not looked at. -/

namespace ImportAtlas.Payload

open Json

/-- A kind of node: its word, or an object whose only entry has the word as key and null as value. -/
def kind? (room : Nat) : Tree → Option NodeKind
  | .string ps => (Piece.text? ps).bind NodeKind.ofLabel?
  | .object [(k, .null)] => if room = 0 then none else (Piece.text? k).bind NodeKind.ofLabel?
  | _ => none

def nodeNames : List String := ["id", "name", "type", "isGroup", "expandedState", "prefix", "members"]

/-- The node with these fields. The marks of a group count only on a node that is one. -/
def nodeOf? (room : Nat) (fs : List (String × Tree)) : Option Node := do
  let id ← (← fs.lookup "id").text?
  let name ← (← fs.lookup "name").text?
  let kind ← kind? room (← fs.lookup "type")
  let isGroup ← (fs.lookup "isGroup").mapM Tree.flag?
  let expanded ← (fs.lookup "expandedState").mapM Tree.flag?
  let folder ← (fs.lookup "prefix").mapM (Tree.nullable? Tree.text?)
  let members ← (fs.lookup "members").mapM (Tree.list? room fun _ => Tree.text?)
  let fold : Fold :=
    { expanded := expanded.getD false, folder := folder.join.getD "", members := members.getD [] }
  return { id, name, kind, fold := if isGroup = some true then some fold else none }

def node? : Nat → Tree → Option Node
  | 0, _ => none
  | room + 1, t => (t.fields? nodeNames).bind (nodeOf? room)

/-- The end of a link: a string, or an object with one `id` that is a string. The value is kept as a
whole, so all of it has to nest within the room, pair its surrogates and have numbers that fit. -/
def endpoint? (room : Nat) (t : Tree) : Option String := do
  let t ← t.keep? (.strict room)
  match t with
  | .string ps => Piece.text? ps
  | .object _ => (← (← t.fields? ["id"]).lookup "id").text?
  | _ => none

def linkNames : List String := ["source", "target", "isGroupLink", "originalLink"]

/-- The chain of arrows behind a link, given the link that it directly stands for. -/
def arrowsOf : Option Link → List Arrow
  | none => []
  | some l => l.toArrow :: l.standsFor

/-- The link with these fields, where `inner` decodes the link it stands for. -/
def linkOf? (room : Nat) (inner : Tree → Option Link) (fs : List (String × Tree)) : Option Link := do
  let source ← endpoint? room (← fs.lookup "source")
  let target ← endpoint? room (← fs.lookup "target")
  let grouped ← (fs.lookup "isGroupLink").mapM Tree.flag?
  let stoodFor ← (fs.lookup "originalLink").mapM (Tree.nullable? inner)
  return { source, target, grouped := grouped.getD false, standsFor := arrowsOf stoodFor.join }

def link? : Nat → Tree → Option Link
  | 0, _ => none
  | room + 1, t => (t.fields? linkNames).bind (linkOf? room (link? room))

def graphNames : List String := ["nodes", "links"]

def graphOf? (room : Nat) (fs : List (String × Tree)) : Option Graph := do
  let nodes ← (fs.lookup "nodes").mapM (Tree.list? room node?)
  let links ← (fs.lookup "links").mapM (Tree.list? room link?)
  return { nodes := nodes.getD [], links := links.getD [] }

/-- The graph that a tree holds. -/
def graph? : Nat → Tree → Option Graph
  | 0, _ => none
  | room + 1, t => (t.fields? graphNames).bind (graphOf? room)

end ImportAtlas.Payload
