-- SUMMARY: The viewer: a session with a search, a selection and a view of the plane.
import ImportAtlas.Layout.Motion
import ImportAtlas.Session.Basic
import ImportAtlas.Text.Blank

/-! # The viewer

A viewer adds to a session what belongs to looking at it: the part of the plane that is seen, the
selected node, a search and the node being dragged. -/

namespace ImportAtlas

/-- The result of a search, and what it is the result of. -/
structure SearchResult where
  query : String
  /-- the graph that was searched, by its number in the layout -/
  revision : UInt64
  /-- the positions of the nodes found, in order -/
  found : List Nat

structure Viewer where
  session : Session Layout
  search : String := ""
  selected : Option String := none
  pan : Point := .zero
  zoom : Float32 := 1.0
  /-- whether the simulation goes on while viewing -/
  live : Bool := true
  /-- the node under a drag -/
  dragging : Option String := none
  /-- the last search -/
  cache : Option SearchResult := none
  /-- how many nodes the last picture showed -/
  nodesInView : Nat := 0
  /-- how many edges the last picture showed -/
  edgesInView : Nat := 0

namespace Viewer

/-- A viewer of a graph. -/
def ofGraph (g : Graph) (config : SimConfig) : Logged Viewer := do
  return { session := ← Session.ofGraph g Layout.empty config }

def graph (v : Viewer) : Graph := v.session.graph

def layout (v : Viewer) : Layout := v.session.engine

def config (v : Viewer) : SimConfig := v.session.config

def isGrouped (v : Viewer) : Bool := v.session.isGrouped

/-- Change the layout in place. -/
def mapLayout (v : Viewer) (f : Layout → Layout) : Viewer :=
  { v with session := { v.session with engine := f v.session.engine } }

def select (v : Viewer) (id : Option String) : Viewer := { v with selected := id }

/-- Drop a selection that is no longer in the graph. -/
def syncSelection (v : Viewer) : Viewer :=
  match v.selected with
  | some id => if v.graph.contains id then v else v.select none
  | none => v

/-! ## Intents -/

def toggleGrouping (v : Viewer) : Logged Viewer := do
  let (session, _) ← v.session.toggleGrouping
  return { v with session }.syncSelection

def collapse (v : Viewer) : Logged Viewer := do
  let (session, _) ← v.session.collapse
  return { v with session }.syncSelection

def setConfig (v : Viewer) (config : SimConfig) : Logged Viewer := do
  return { v with session := ← v.session.setConfig config }

/-- A click on a node, or on nothing. A group node is unfolded and any other is selected. -/
def click (v : Viewer) : Option String → Logged Viewer
  | none => return v.select none
  | some id => do
    let (session, changed) ← v.session.click id
    return { v with session }.select (if changed then none else some id)

/-- Look at the middle of the plane again. -/
def resetView (v : Viewer) : Viewer := { v with pan := .zero, zoom := 1.0 }

/-! ## Search -/

/-- A text with ASCII letters in lower case. -/
def foldCase (s : String) : List Char := s.toList.map Char.toLower

/-- Whether the characters of a query occur in a name in order, in any case. -/
def isMatch (query name : String) : Bool := (foldCase query).isSublist (foldCase name)

/-- The positions of the bodies whose label matches a query. -/
def searchIn (l : Layout) (query : String) : List Nat :=
  (l.bodies.zipIdx.filter fun (b, _) => isMatch query b.label).map (·.2)

/-- The search text without blanks around it. -/
def query (v : Viewer) : String := Text.trim v.search

/-- Whether the last search still answers a query on the graph shown. -/
def isCurrent (v : Viewer) (r : SearchResult) : Bool :=
  r.revision == v.layout.revision && r.query == v.query

/-- The nodes that match the search; there is none if the search is blank. The last search is kept. -/
def matching (v : Viewer) : Viewer × Option (List Nat) :=
  if v.query.isEmpty then (v, none)
  else
    match v.cache.filter v.isCurrent with
    | some r => (v, some r.found)
    | none =>
      let found := searchIn v.layout v.query
      ({ v with cache := some ⟨v.query, v.layout.revision, found⟩ }, some found)

/-- Nothing is looked for exactly if the search is blank. -/
theorem matching_eq_none_iff (v : Viewer) : v.matching.2 = none ↔ v.query.isEmpty := by
  unfold matching
  split
  · simp_all
  · split <;> simp_all

end Viewer

end ImportAtlas
