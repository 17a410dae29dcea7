-- SUMMARY: What an intent does to a session, whatever its engine, and runs of a session over a layout.
import ImportAtlas.Proofs.Layout.Moves
import ImportAtlas.Proofs.Session.Intents

/-! # Acts

An intent either shows another graph, with some of its ids seeded, or leaves the graph as it is. Which
of the two, and which graph and ids, hangs on the grouping and the graph alone; so sessions over
different engines go through the same transitions.

Over a layout a session shares its engine with the simulation and the pointer. A run is then any
interleaving of intents with moves of the layout. -/

namespace ImportAtlas

/-- The ids of the next graph that the one before it does not have. -/
def Graph.newcomers (old next : Graph) : List String := next.ids.filter fun id => !old.ids.contains id

namespace Session

-- ---------------------------------------------------------------------------
-- What an intent does
-- ---------------------------------------------------------------------------

/-- Whether an intent makes a transition. -/
def Intent.transits (p : Grouping × Graph) : Intent → Bool
  | .toggleGrouping => true
  | .click id => ((p.2.node? id).map Node.isGroup).getD false
  | .collapse => p.1.active
  | .setConfig _ | .setCenter _ | .beginFrame => false

/-- The ids that are seeded in the transition. -/
def Intent.seeds (p : Grouping × Graph) (i : Intent) : List String :=
  match i with
  | .toggleGrouping => (i.respond p).2.ids
  | _ => p.2.newcomers (i.respond p).2

/-- An id of the next graph is seeded unless it was there before. -/
theorem Intent.mem_seeds {i : Intent} {p : Grouping × Graph} {id : String}
    (hnext : id ∈ (i.respond p).2.ids) (hold : id ∉ p.2.ids) : id ∈ i.seeds p := by
  have hnew : id ∈ p.2.newcomers (i.respond p).2 := by simp [Graph.newcomers, hnext, hold]
  cases i with
  | toggleGrouping => exact hnext
  | click id' => exact hnew
  | collapse => exact hnew
  | setConfig config => exact hnew
  | setCenter center => exact hnew
  | beginFrame => exact hnew

variable {ε : Type} [Engine ε]

/-- Show another graph, with ids seeded. -/
def advance (s : Session ε) (next : Grouping × Graph) (seeded : List String) : Session ε :=
  ({ s with grouping := next.1, graph := next.2 }.transition seeded).value

/-- What an intent does to a session if it makes no transition. -/
def attend (s : Session ε) : Intent → Session ε
  | .toggleGrouping | .click _ | .collapse => s
  | .setConfig config => (s.setConfig config).value
  | .setCenter center => s.setCenter center
  | .beginFrame => s.beginFrame

theorem perform_of_transits {s : Session ε} {i : Intent} (h : i.transits s.shown = true) :
    s.perform i = s.advance (i.respond s.shown) (i.seeds s.shown) := by
  cases i with
  | toggleGrouping =>
    cases hgrouped : s.grouping.active with
    | true =>
      simp only [perform, toggleGrouping, isGrouped, hgrouped, if_true, Intent.seeds, Intent.respond,
        Intent.request?, shown]
      rfl
    | false =>
      simp only [perform, toggleGrouping, isGrouped, hgrouped, Intent.seeds, Intent.respond,
        Intent.request?, shown]
      rfl
  | click id =>
    have hgroup : ((s.graph.node? id).map Node.isGroup).getD false = true := h
    rw [perform, click, if_neg (by simp [hgroup])]
    rfl
  | collapse =>
    have hgrouped : s.grouping.active = true := h
    rw [perform, collapse, if_neg (by simp [isGrouped, hgrouped])]
    simp only [Intent.seeds, Intent.respond, Intent.request?, shown, hgrouped, if_true]
    rfl
  | setConfig config => simp [Intent.transits] at h
  | setCenter center => simp [Intent.transits] at h
  | beginFrame => simp [Intent.transits] at h

theorem perform_of_not_transits {s : Session ε} {i : Intent} (h : i.transits s.shown = false) :
    s.perform i = s.attend i := by
  cases i with
  | toggleGrouping => simp [Intent.transits] at h
  | click id =>
    have hplain : ((s.graph.node? id).map Node.isGroup).getD false = false := h
    rw [perform, click, if_pos (by simp [hplain])]
    rfl
  | collapse =>
    have hplain : s.grouping.active = false := h
    rw [perform, collapse, if_pos (by simp [isGrouped, hplain])]
    rfl
  | setConfig config => rfl
  | setCenter center => rfl
  | beginFrame => rfl

/-- A click answers whether it makes a transition, and so does folding everything. -/
theorem value_click (s : Session ε) (id : String) :
    (s.click id).value = (s.perform (.click id), (Intent.click id).transits s.shown) := by
  refine Prod.ext rfl ?_
  cases hgroup : ((s.graph.node? id).map Node.isGroup).getD false with
  | true => simp [click, Intent.transits, shown, hgroup]
  | false => simp [click, Intent.transits, shown, hgroup]

theorem value_collapse (s : Session ε) :
    s.collapse.value = (s.perform .collapse, Intent.collapse.transits s.shown) := by
  refine Prod.ext rfl ?_
  cases hgrouped : s.grouping.active with
  | true => simp [collapse, Intent.transits, shown, isGrouped, hgrouped]
  | false => simp [collapse, Intent.transits, shown, isGrouped, hgrouped]

theorem value_toggleGrouping (s : Session ε) :
    s.toggleGrouping.value = (s.perform .toggleGrouping, (s.perform .toggleGrouping).isGrouped) := by
  refine Prod.ext rfl ?_
  cases hgrouped : s.isGrouped with
  | true =>
    simp only [perform, toggleGrouping, hgrouped]
    rfl
  | false =>
    simp only [perform, toggleGrouping, hgrouped]
    rfl

theorem shown_advance (s : Session ε) (next : Grouping × Graph) (seeded : List String) :
    (s.advance next seeded).shown = next :=
  shown_transition { s with grouping := next.1, graph := next.2 } seeded

theorem graph_advance (s : Session ε) (next : Grouping × Graph) (seeded : List String) :
    (s.advance next seeded).graph = next.2 :=
  congrArg Prod.snd (s.shown_advance next seeded)

theorem ofGraph_eq_advance (g : Graph) (engine : ε) (config : SimConfig) :
    (ofGraph g engine config).value =
      advance { graph := g, engine := engine, config := config } ({}, g) g.ids :=
  rfl

theorem shown_attend (s : Session ε) (i : Intent) : (s.attend i).shown = s.shown := by
  cases i with
  | toggleGrouping => rfl
  | click id => rfl
  | collapse => rfl
  | setConfig config => rfl
  | setCenter center => rfl
  | beginFrame => exact s.shown_beginFrame

theorem respond_of_not_transits {s : Session ε} {i : Intent} (h : i.transits s.shown = false) :
    i.respond s.shown = s.shown := by
  rw [← shown_perform, perform_of_not_transits h, shown_attend]

/-- Without a transition nothing is seeded. -/
theorem seeds_of_not_transits {s : Session ε} {i : Intent} (h : i.transits s.shown = false) :
    i.seeds s.shown = [] := by
  have hseeds : i.seeds s.shown = s.graph.newcomers (i.respond s.shown).2 := by
    cases i with
    | toggleGrouping => simp [Intent.transits] at h
    | _ => rfl
  rw [hseeds, respond_of_not_transits h]
  simp [Graph.newcomers, shown]

-- ---------------------------------------------------------------------------
-- Runs over a layout
-- ---------------------------------------------------------------------------

/-- Something that happens to a session over a layout. -/
inductive Act where
  | intent (i : Intent)
  | move (m : Layout.Move)

/-- The session after one act. -/
def act (s : Session Layout) : Act → Session Layout
  | .intent i => s.perform i
  | .move m => { s with engine := s.engine.move m }

/-- A session over a layout that was given a graph and then acts. -/
def play (g : Graph) (layout : Layout) (config : SimConfig) (acts : List Act) : Session Layout :=
  acts.foldl act (ofGraph g layout config).value

theorem play_concat (g : Graph) (layout : Layout) (config : SimConfig) (acts : List Act) (a : Act) :
    play g layout config (acts ++ [a]) = (play g layout config acts).act a :=
  List.foldl_concat ..

/-- A transition shows the graph, places the seeds, pins them and starts the simulation. -/
theorem engine_transition (s : Session Layout) (seeded : List String) :
    (s.transition seeded).value.engine =
      ((seeded.foldl (fun l id => l.place id (s.seedPoint id)) (s.engine.render s.graph)).pin
        seeded).start s.config := by
  cases seeded with
  | nil => simp [transition, seed, Layout.pin]; rfl
  | cons id ids => rfl

end Session

end ImportAtlas
