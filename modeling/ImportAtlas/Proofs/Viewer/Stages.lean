-- SUMMARY: The stages that a frame of the viewer consists of, and runs of a viewer.
import ImportAtlas.Proofs.Session.Acts
import ImportAtlas.Viewer.Frame

/-! # Stages

A frame is a sequence of stages: it begins, zooms, centres the session, handles a drag, pans, ticks,
searches, counts what it shows and acts on a click. Outside of frames the user edits the search, selects
a node or makes an intent. What every stage preserves is preserved by every run, and what holds in the
middle of a frame is what holds behind some of its stages. -/

namespace ImportAtlas

namespace Session

variable {ε : Type} [Engine ε]

/-- The session after one intent, and what was written about it. -/
def carryOut (s : Session ε) : Intent → Logged (Session ε)
  | .toggleGrouping => (·.1) <$> s.toggleGrouping
  | .click id => (·.1) <$> s.click id
  | .collapse => (·.1) <$> s.collapse
  | .setConfig config => s.setConfig config
  | .setCenter center => pure (s.setCenter center)
  | .beginFrame => pure s.beginFrame

@[simp] theorem value_carryOut (s : Session ε) (i : Intent) : (s.carryOut i).value = s.perform i := by
  cases i <;> rfl

end Session

namespace Viewer

/-- Something that happens to a viewer in one go. -/
inductive Stage where
  /-- the search is edited -/
  | type (text : String)
  | select (id : Option String)
  | setLive (on : Bool)
  | resetView
  | intent (i : Session.Intent)
  | zoom (r : Rect Float32) (g : Gesture)
  /-- a drag is handled, with the node under the pointer -/
  | drag (r : Rect Float32) (g : Gesture) (hovered : Option Nat)
  | pan (g : Gesture)
  /-- the simulation ticks if it is live -/
  | tick
  /-- the simulation ticks in any case -/
  | step
  | find
  /-- what the picture shows is counted -/
  | tally (r : Rect Float32)

/-- Let the session answer to an intent. -/
def attend (v : Viewer) (i : Session.Intent) : Logged Viewer := do
  return { v with session := ← v.session.carryOut i }

/-- The viewer with the counts of what its picture shows. -/
def tally (v : Viewer) (r : Rect Float32) : Viewer :=
  { v with
    nodesInView := (v.scene r).visible.length
    edgesInView := (v.scene r).visibleEdges.length }

/-- The viewer after a stage. -/
def stage (v : Viewer) : Stage → Logged Viewer
  | .type text => pure { v with search := text }
  | .select id => pure (v.select id)
  | .setLive on => pure { v with live := on }
  | .resetView => pure v.resetView
  | .intent i => v.attend i
  | .zoom r g => pure (v.zoomBy r g)
  | .drag r g hovered => pure (v.dragNode r g hovered)
  | .pan g => pure (v.panBy g)
  | .tick => pure v.tick
  | .step => pure (v.mapLayout (·.step.1))
  | .find => pure v.matching.1
  | .tally r => pure (v.tally r)

/-! ## Frames -/

/-- The viewer in a frame when a drag is handled. -/
def approach (v : Viewer) (r : Rect Float32) (g : Gesture) : Viewer :=
  (v.beginFrame.zoomBy r g).updateCenter r

/-- The node under the pointer in a frame. -/
def underPointer (v : Viewer) (r : Rect Float32) (g : Gesture) : Option Nat :=
  g.pos.bind ((v.approach r g).scene r).nodeAt

/-- The viewer in a frame when a search is made. -/
def pause (v : Viewer) (r : Rect Float32) (g : Gesture) : Viewer :=
  (((v.approach r g).dragNode r g (v.underPointer r g)).panBy g).tick

/-- The viewer in a frame when it acts on a click. -/
def outcome (v : Viewer) (r : Rect Float32) (g : Gesture) : Viewer := (v.pause r g).matching.1.tally r

/-- What a click on a node or on nothing consists of. -/
def clickStages (v : Viewer) : Option String → List Stage
  | none => [.select none]
  | some id => [.intent (.click id), .select (if (v.session.click id).value.2 then none else some id)]

/-- The stages of a frame up to the drag. -/
def openingStages (v : Viewer) (r : Rect Float32) (g : Gesture) : List Stage :=
  [.intent .beginFrame, .zoom r g, .intent (.setCenter (v.approach r g).session.center)]

/-- The stages of a frame. A graph without nodes ends it before the drag. -/
def frameStages (v : Viewer) (r : Rect Float32) (g : Gesture) : List Stage :=
  v.openingStages r g ++
    if (v.approach r g).graph.nodes.isEmpty then []
    else
      let hovered := v.underPointer r g
      let last := v.outcome r g
      [.drag r g hovered, .pan g, .tick, .find, .tally r] ++
        if g.clicked = some .primary then
          last.clickStages (hovered.bind fun i => last.layout.bodies[i]?.map (·.id))
        else []

theorem foldlM_clickStages (v : Viewer) (id : Option String) :
    (v.clickStages id).foldlM stage v = v.click id := by
  cases id with
  | none => rfl
  | some id =>
    simp only [clickStages, stage, attend, click, Session.carryOut, List.foldlM_cons, List.foldlM_nil]
    generalize v.session.click id = x
    obtain ⟨⟨s, changed⟩, events⟩ := x
    simp only [bind_pure_comp, Functor.map_map, bind_pure]
    rfl

/-- The picture that a frame draws. -/
def picture (v : Viewer) (r : Rect Float32) (g : Gesture) : Picture :=
  let ground := background r v.pan v.zoom
  if (v.approach r g).graph.nodes.isEmpty then
    { shapes := ground, note := some "The graph has no nodes." }
  else
    let hovered := v.underPointer r g
    let (last, found) := (v.pause r g).matching
    { shapes := ground ++ (last.scene r).shapes (last.focus hovered found), hand := hovered.isSome }

theorem frame_eq (v : Viewer) (r : Rect Float32) (g : Gesture) :
    v.frame r g =
      if (v.approach r g).graph.nodes.isEmpty then pure (v.approach r g, v.picture r g)
      else (·, v.picture r g) <$> (v.outcome r g).clickAt g (v.underPointer r g) := by
  have hground : background r v.beginFrame.pan v.beginFrame.zoom = background r v.pan v.zoom := rfl
  rw [frame, draw, hground]
  simp only [picture, outcome, tally, pause, underPointer, approach]
  by_cases h : ((v.beginFrame.zoomBy r g).updateCenter r).graph.nodes.isEmpty = true
  · simp only [h, reduceIte]
  · simp only [h, map_eq_pure_bind]
    rfl

theorem picture_frame (v : Viewer) (r : Rect Float32) (g : Gesture) :
    (v.frame r g).value.2 = v.picture r g := by
  rw [frame_eq]
  split <;> rfl

theorem foldlM_openingStages (v : Viewer) (r : Rect Float32) (g : Gesture) :
    (v.openingStages r g).foldlM stage v = pure (v.approach r g) := rfl

/-- The search of a frame is made behind its first stages. -/
theorem foldlM_pause (v : Viewer) (r : Rect Float32) (g : Gesture) :
    (v.openingStages r g ++ [Stage.drag r g (v.underPointer r g), .pan g, .tick]).foldlM stage v =
      pure (v.pause r g) := by
  rw [List.foldlM_append, foldlM_openingStages, pure_bind]
  simp only [List.foldlM_cons, List.foldlM_nil, stage, pure_bind, pause]

/-- A frame is made of its stages. -/
theorem foldlM_frameStages (v : Viewer) (r : Rect Float32) (g : Gesture) :
    (v.frameStages r g).foldlM stage v = (·.1) <$> v.frame r g := by
  rw [frameStages, List.foldlM_append, foldlM_openingStages, pure_bind, frame_eq]
  split
  next => rfl
  next =>
    have hmiddle : [Stage.drag r g (v.underPointer r g), .pan g, .tick, .find, .tally r].foldlM stage
        (v.approach r g) = pure (v.outcome r g) := by
      simp only [List.foldlM_cons, List.foldlM_nil, stage, pure_bind, outcome, pause]
    rw [List.foldlM_append, hmiddle, pure_bind, clickAt]
    split
    next => rw [foldlM_clickStages]; simp
    next => rfl

/-! ## Runs -/

/-- Something that happens to a viewer: a stage of its own, or a whole frame. -/
inductive Act where
  | stage (s : Stage)
  | frame (r : Rect Float32) (g : Gesture)

/-- The viewer after an act. -/
def act (v : Viewer) : Act → Logged Viewer
  | .stage s => v.stage s
  | .frame r g => (·.1) <$> v.frame r g

/-- A viewer that was given a graph and then acts. -/
def play (g : Graph) (config : SimConfig) (acts : List Act) : Logged Viewer := do
  acts.foldlM act (← ofGraph g config)

/-- The stages of an act. -/
def stagesOf (v : Viewer) : Act → List Stage
  | .stage s => [s]
  | .frame r g => v.frameStages r g

theorem foldlM_stagesOf (v : Viewer) (a : Act) : (v.stagesOf a).foldlM stage v = v.act a := by
  cases a with
  | stage s => simp [stagesOf, act]
  | frame r g => exact v.foldlM_frameStages r g

section
variable {I : Viewer → List Event → Prop}
  (hI : ∀ v log s, I v log → I (v.stage s).value (log ++ (v.stage s).events))
include hI

theorem foldlM_stage_induction (stages : List Stage) {v : Viewer} {log : List Event} (h : I v log) :
    I (stages.foldlM stage v).value (log ++ (stages.foldlM stage v).events) := by
  induction stages generalizing v log with
  | nil => simpa using h
  | cons s stages ih =>
    have hnext := ih (hI v log s h)
    rwa [List.append_assoc] at hnext

/-- What holds of a viewer and its log at first, and is preserved by every stage, holds after any
acts. -/
theorem play_induction {g : Graph} {config : SimConfig}
    (h : I (ofGraph g config).value (ofGraph g config).events) (acts : List Act) :
    I (play g config acts).value (play g config acts).events := by
  have hacts (acts : List Act) {v : Viewer} {log : List Event} (hv : I v log) :
      I (acts.foldlM act v).value (log ++ (acts.foldlM act v).events) := by
    induction acts generalizing v log with
    | nil => simpa using hv
    | cons a acts ih =>
      have hstages := foldlM_stage_induction hI (v.stagesOf a) hv
      rw [foldlM_stagesOf] at hstages
      have hnext := ih hstages
      rwa [List.append_assoc] at hnext
  exact hacts acts h

end

end Viewer

end ImportAtlas
