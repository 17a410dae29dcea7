-- SUMMARY: What changes the tuning of the simulation: nothing but the knobs.
import ImportAtlas.Proofs.Viewer.Stages
import ImportAtlas.Window.Basic

/-! # The tuning

A session holds the tuning of the simulation, and the viewer and the window get at it through the
session. Transitions, drags and clicks leave it alone; only a knob that is turned changes it. -/

namespace ImportAtlas

namespace Session

theorem config_seed (s : Session Layout) (ids : List String) : (s.seed ids).config = s.config := by
  rw [seed]
  split <;> rfl

theorem config_transition (s : Session Layout) (seeded : List String) :
    (s.transition seeded).value.config = s.config :=
  config_seed { s with engine := (Engine.render s.engine s.graph).value } seeded

theorem config_ofGraph (g : Graph) (layout : Layout) (config : SimConfig) :
    (ofGraph g layout config).value.config = config :=
  config_transition { graph := g, engine := layout, config } _

/-- Only one intent concerns the tuning. -/
theorem config_perform {s : Session Layout} {i : Intent} (h : ∀ config, i ≠ .setConfig config) :
    (s.perform i).config = s.config := by
  cases hi : i.transits s.shown with
  | true =>
    rw [perform_of_transits hi]
    exact config_transition { s with grouping := _, graph := _ } _
  | false =>
    rw [perform_of_not_transits hi]
    cases i with
    | toggleGrouping => rfl
    | click id => rfl
    | collapse => rfl
    | setConfig config => exact absurd rfl (h config)
    | setCenter center => rfl
    | beginFrame =>
      rw [attend, beginFrame]
      split <;> rfl

theorem config_click (s : Session Layout) (id : String) : (s.click id).value.1.config = s.config :=
  config_perform (i := .click id) (by rintro _ ⟨⟩)

end Session

namespace Viewer

theorem config_syncSelection (v : Viewer) : v.syncSelection.config = v.config := by
  rw [syncSelection]
  split
  next => split <;> rfl
  next => rfl

theorem config_zoomBy (v : Viewer) (r : Rect Float32) (g : Gesture) :
    (v.zoomBy r g).config = v.config := by
  rw [zoomBy]
  split <;> rfl

theorem config_beginDrag (v : Viewer) (g : Gesture) (hovered : Option Nat) :
    (v.beginDrag g hovered).config = v.config := by
  unfold beginDrag
  split <;> rfl

theorem config_continueDrag (v : Viewer) (r : Rect Float32) (g : Gesture) :
    (v.continueDrag r g).config = v.config := by
  rw [continueDrag]
  split
  next => rfl
  next =>
    split
    next => rfl
    next => dsimp only; split <;> split <;> rfl

theorem config_panBy (v : Viewer) (g : Gesture) : (v.panBy g).config = v.config := by
  rw [panBy]
  split
  next => rfl
  next => split <;> rfl
  next => rfl

theorem config_tick (v : Viewer) : v.tick.config = v.config := by
  rw [tick]
  split <;> rfl

theorem config_matching (v : Viewer) : v.matching.1.config = v.config := by
  rw [matching]
  split
  next => rfl
  next => split <;> rfl

theorem config_clickAt (v : Viewer) (g : Gesture) (hovered : Option Nat) :
    (v.clickAt g hovered).value.config = v.config := by
  rw [clickAt]
  split
  next =>
    cases hovered.bind fun i => v.layout.bodies[i]?.map (·.id) with
    | none => rfl
    | some id => exact v.session.config_click id
  next => rfl

/-- What is left of a viewer that was drawn. -/
theorem value_draw (v : Viewer) (r : Rect Float32) (g : Gesture) :
    (v.draw r g).value.1 =
      let u := (v.zoomBy r g).updateCenter r
      let hovered := g.pos.bind (u.scene r).nodeAt
      if u.graph.nodes.isEmpty then u
      else (((((u.dragNode r g hovered).panBy g).tick.matching.1).tally r).clickAt g hovered).value := by
  by_cases hempty : ((v.zoomBy r g).updateCenter r).graph.nodes.isEmpty = true
  · simp only [draw, hempty, reduceIte, Logged.value_pure]
  · simp only [draw, hempty]
    rfl

/-- Drawing leaves the tuning alone. -/
theorem config_draw (v : Viewer) (r : Rect Float32) (g : Gesture) :
    (v.draw r g).value.1.config = v.config := by
  have happroach : ((v.zoomBy r g).updateCenter r).config = v.config := v.config_zoomBy r g
  have htally (u : Viewer) : (u.tally r).config = u.config := rfl
  rw [value_draw]
  dsimp only
  split
  next => exact happroach
  next =>
    rw [config_clickAt, htally, config_matching, config_tick, config_panBy, dragNode,
      config_continueDrag, config_beginDrag]
    exact happroach

end Viewer

namespace Window

/-- The tuning that an intent asks for, where another one is in force. -/
def retune (c : SimConfig) : Intent → SimConfig
  | .turn k x => k.turn x c
  | _ => c

theorem config_act (v : Viewer) (i : Intent) : (act v i).value.config = retune v.config i := by
  cases i with
  | toggleGrouping =>
    exact (Viewer.config_syncSelection _).trans
      (Session.config_perform (s := v.session) (i := .toggleGrouping) (by rintro _ ⟨⟩))
  | collapse =>
    exact (Viewer.config_syncSelection _).trans
      (Session.config_perform (s := v.session) (i := .collapse) (by rintro _ ⟨⟩))
  | unfold id =>
    have hclick := v.session.config_click id
    simp only [act, unfold, Logged.value_bind, Logged.value_pure]
    split <;> exact hclick
  | turn k x => rfl
  | reload => rfl
  | retry => rfl
  | resetView => rfl
  | toggleLive => rfl
  | select id => rfl
  | flip header => rfl

theorem config_foldlM_act (v : Viewer) (intents : List Intent) :
    (intents.foldlM act v).value.config = intents.foldl retune v.config := by
  induction intents generalizing v with
  | nil => rfl
  | cons i intents ih =>
    rw [List.foldlM_cons, Logged.value_bind, ih, config_act, List.foldl_cons]

/-- The viewer after a frame of a window. -/
def viewerAfter (w : Window) (v : Viewer) (canvas : Rect Float32) (intents : List Intent)
    (g : Gesture) : Viewer :=
  let acted := (intents.foldlM act v.beginFrame).value
  if w.reload.isSome then acted else (acted.draw canvas g).value.1

theorem config_viewerAfter (w : Window) (v : Viewer) (canvas : Rect Float32) (intents : List Intent)
    (g : Gesture) : (w.viewerAfter v canvas intents g).config = intents.foldl retune v.config := by
  have hacted : (intents.foldlM act v.beginFrame).value.config = intents.foldl retune v.config := by
    rw [config_foldlM_act]
    congr 1
    exact Session.config_perform (s := v.session) (i := .beginFrame) (by rintro _ ⟨⟩)
  rw [viewerAfter]
  split
  next => exact hacted
  next => rw [Viewer.config_draw, hacted]

end Window

end ImportAtlas
