-- SUMMARY: The window: loading a graph in the background, showing it, and acting on intents.
import ImportAtlas.Origin
import ImportAtlas.Viewer.Frame
import ImportAtlas.Window.Panel

/-! # The window

A window shows one of three pages: it loads, it shows a viewer, or it reports that loading failed. A
load runs in the background and reports its end over a channel of its own. A window that loads waits at
the channel of that load; one that shows a viewer may wait at the channel of another load. What it finds
there alone decides the next page. A new viewer starts with the tuning that the last one had. -/

namespace ImportAtlas

/-- How a load ends. -/
inductive Delivery where
  | graph (g : Graph)
  | failure (message : String)
  /-- the load ended without a result -/
  | lost

/-- The channel over which a load reports its end. -/
inductive Channel where
  | working
  | ended (d : Delivery)
  /-- nobody waits at the channel any more -/
  | closed

/-- A load, by its number among those that a window started. -/
abbrev Ticket := Nat

inductive Page where
  /-- a page to wait on until a load ends -/
  | loading (load : Ticket)
  | ready (viewer : Viewer)
  | failed (message : String)

structure Window where
  origin : Origin
  config : SimConfig
  page : Page
  /-- the load that was started while a viewer is shown -/
  reload : Option Ticket := none
  /-- the channels of all loads that were started, by their numbers -/
  channels : List Channel := []
  /-- the headers that are not as they were at first -/
  flipped : List String := []

namespace Origin

/-- Load the graph, and warn if that fails. -/
def fetch (o : Origin) (d : Disk) : Logged Delivery := do
  match ← o.load d with
  | .ok g => return .graph g
  | .error e =>
    Logged.tell
      { level := .warn, message := "graph load failed: " ++ e.fullMessage
        fields := [("source", .text o.label)] }
    return .failure e.fullMessage

end Origin

namespace Window

/-! ## Loads -/

/-- Start a load, which is told from the others by its number. -/
def spawn (w : Window) : Window × Ticket :=
  ({ w with channels := w.channels ++ [.working] }, w.channels.length)

/-- Show the page on which to wait for a load that is started now. -/
def startLoad (w : Window) : Logged Window := do
  Logged.tell
    { level := .info, message := "loading graph", fields := [("source", .text w.origin.label)] }
  let (w, load) := w.spawn
  return { w with page := .loading load, reload := none }

/-- A window that begins to load. -/
def ofOrigin (origin : Origin) (config : SimConfig) : Logged Window :=
  startLoad { origin, config, page := .failed "" }

/-- A load that is under way ends. -/
def deliver (w : Window) (load : Ticket) (d : Delivery) : Window :=
  match w.channels[load]? with
  | some .working => { w with channels := w.channels.set load (.ended d) }
  | _ => w

/-- Look at the channel of a load. What is found is taken, and the channel is closed then. -/
def poll (w : Window) (load : Ticket) : Window × Option Delivery :=
  match w.channels[load]? with
  | some .working => (w, none)
  | some (.ended d) => ({ w with channels := w.channels.set load .closed }, some d)
  | _ => (w, some .lost)

/-- The load that the window waits for. -/
def awaited? (w : Window) : Option Ticket :=
  match w.page with
  | .loading load => some load
  | .ready _ => w.reload
  | .failed _ => none

/-- The page that the end of a load leads to. -/
def pageOf (config : SimConfig) : Delivery → Logged Page
  | .graph g => return .ready (← Viewer.ofGraph g config)
  | .failure message => return .failed message
  | .lost => return .failed "Background load worker disconnected"

/-- Look for the end of the load that the window waits for. -/
def collect (w : Window) : Logged Window :=
  match w.awaited? with
  | none => return w
  | some load =>
    match w.poll load with
    | (w, none) => return w
    | (w, some d) => do return { w with page := ← pageOf w.config d, reload := none }

/-! ## Intents -/

/-- Unfold a group node, which is no longer selected then. -/
def unfold (v : Viewer) (id : String) : Logged Viewer := do
  let (session, changed) ← v.session.click id
  let v := { v with session }
  return if changed then v.select none else v

/-- Let the viewer do what the user wants. -/
def act (v : Viewer) : Intent → Logged Viewer
  | .toggleGrouping => v.toggleGrouping
  | .collapse => v.collapse
  | .resetView => return v.resetView
  | .toggleLive => return { v with live := !v.live }
  | .turn k x => v.setConfig (k.turn x v.config)
  | .select id => return v.select (some id)
  | .unfold id => unfold v id
  | .reload | .retry | .flip _ => return v

/-- Turn over the header that an intent names. -/
def flip (flipped : List String) : Intent → List String
  | .flip h => if h ∈ flipped then flipped.filter (· != h) else h :: flipped
  | _ => flipped

/-- Show the page and do what the user wants, from top to bottom. -/
def interact (w : Window) (canvas : Rect Float32) (intents : List Intent) (g : Gesture) :
    Logged (Window × Picture) := do
  let w := { w with flipped := intents.foldl flip w.flipped }
  match w.page with
  | .loading _ => return (w, {})
  | .failed _ => return (← if .retry ∈ intents then w.startLoad else pure w, {})
  | .ready v =>
    let v ← intents.foldlM act v.beginFrame
    let (v, picture) ← if w.reload.isSome then pure (v, {}) else v.draw canvas g
    let w := { w with page := .ready v, config := v.config }
    if .reload ∈ intents ∧ w.reload.isNone then
      let (w, load) := w.spawn
      return ({ w with reload := some load }, picture)
    else return (w, picture)

/-- Whether the page looks for the end of a load in its frame. -/
def polls (w : Window) : Bool :=
  match w.page with
  | .failed _ => false
  | _ => true

/-- One frame. Loads may end while it lasts. -/
def frame (w : Window) (canvas : Rect Float32) (intents : List Intent) (g : Gesture)
    (ends : List (Ticket × Delivery)) : Logged (Window × Picture) := do
  let (next, picture) ← w.interact canvas intents g
  let next := ends.foldl (fun w e => w.deliver e.1 e.2) next
  return (← if w.polls then next.collect else pure next, picture)

/-- Let a load that is under way end, and draw the window until it shows everything. -/
def settle (w : Window) (disk : Disk) (canvas : Rect Float32) : Logged (Window × Picture) := do
  let w ← match w.awaited? with
    | some load => do
      let delivery ← w.origin.fetch disk
      let (w, _) ← w.frame canvas [] {} [(load, delivery)]
      pure w
    | none => pure w
  let (w, _) ← w.frame canvas [] {} []
  w.frame canvas [] {} []

/-! ## Widgets -/

/-- Whether what is below a header is shown. -/
def isOpen (w : Window) (header : String) (atFirst : Bool) : Bool :=
  if header ∈ w.flipped then !atFirst else atFirst

/-- The page that reports that loading failed. -/
def errorPage (message : String) : List Widget :=
  [.label "Failed to load dependency graph", .label message, .button "Retry" .retry]

/-- Everything in the window that has a text, the canvas apart. -/
def widgets (w : Window) : List Widget :=
  match w.page with
  | .loading _ => [.label "Loading dependency graph..."]
  | .failed message => errorPage message
  | .ready v =>
    Panel.topBar v w.origin.label w.reload.isSome ++ Panel.controls v w.isOpen ++
      Panel.details v w.isOpen

/-- Change the viewer, if there is one. -/
def mapViewer (w : Window) (f : Viewer → Viewer) : Window :=
  match w.page with
  | .ready v => { w with page := .ready (f v) }
  | _ => w

end Window

end ImportAtlas
