-- SUMMARY: The intents that reach a session, and what each one asks of its grouping.
import ImportAtlas.Proofs.Grouping.History
import ImportAtlas.Session.Basic

/-! # Intents

A session takes six intents. Three of them concern the grouping, and each of those is one request on
the graph that is shown, or none at all; the others leave grouping and graph alone. So whatever holds
of every history of requests carries over to sessions, and the engine plays no part in it. -/

namespace ImportAtlas

namespace Session

/-- Something that is asked of a session. -/
inductive Intent where
  | toggleGrouping
  | click (id : String)
  | collapse
  | setConfig (config : SimConfig)
  | setCenter (center : Point)
  | beginFrame

/-- The request that an intent makes of the grouping, by whether the graph is grouped. -/
def Intent.request? (grouped : Bool) : Intent → Option Request
  | .toggleGrouping => some (if grouped then .revert else .apply)
  | .click id => some (.toggle id)
  | .collapse => if grouped then some .collapseAll else none
  | .setConfig _ | .setCenter _ | .beginFrame => none

/-- What an intent makes of a grouping and the graph that is shown. -/
def Intent.respond (p : Grouping × Graph) (i : Intent) : Grouping × Graph :=
  ((i.request? p.1.active).map (p.1.answer p.2)).getD p

variable {ε : Type} [Engine ε]

/-- The session after one intent. -/
def perform (s : Session ε) : Intent → Session ε
  | .toggleGrouping => s.toggleGrouping.value.1
  | .click id => (s.click id).value.1
  | .collapse => s.collapse.value.1
  | .setConfig config => (s.setConfig config).value
  | .setCenter center => s.setCenter center
  | .beginFrame => s.beginFrame

/-- A session that was given a graph and then intents. -/
def visit (g : Graph) (engine : ε) (config : SimConfig) (is : List Intent) : Session ε :=
  is.foldl perform (ofGraph g engine config).value

/-- The grouping of a session and the graph that it shows. -/
def shown (s : Session ε) : Grouping × Graph := (s.grouping, s.graph)

-- ---------------------------------------------------------------------------
-- Transitions
-- ---------------------------------------------------------------------------

@[simp] theorem shown_seed (s : Session ε) (ids : List String) : (s.seed ids).shown = s.shown := by
  rw [seed]
  split <;> rfl

@[simp] theorem shown_transition (s : Session ε) (ids : List String) :
    (s.transition ids).value.shown = s.shown :=
  shown_seed { s with engine := (Engine.render s.engine s.graph).value } ids

theorem shown_replace (s : Session ε) (next : Graph) :
    (s.replace next).value.shown = (s.grouping, next) :=
  shown_transition { s with graph := next } _

theorem shown_ofGraph (g : Graph) (engine : ε) (config : SimConfig) :
    (ofGraph g engine config).value.shown = ({}, g) :=
  shown_transition { graph := g, engine, config } _

-- ---------------------------------------------------------------------------
-- One intent
-- ---------------------------------------------------------------------------

theorem shown_toggleGrouping (s : Session ε) :
    s.toggleGrouping.value.1.shown =
      s.grouping.answer s.graph (if s.isGrouped then .revert else .apply) := by
  cases hgrouped : s.isGrouped with
  | true =>
    simp only [toggleGrouping, hgrouped, if_true]
    exact shown_transition { s with grouping := _, graph := _ } _
  | false =>
    simp only [toggleGrouping, hgrouped]
    exact shown_transition { s with grouping := _, graph := _ } _

/-- The test for a group node that a click makes is one that toggling makes again. -/
theorem shown_click (s : Session ε) (id : String) :
    (s.click id).value.1.shown = s.grouping.answer s.graph (.toggle id) := by
  cases hnode : s.graph.node? id with
  | none => simp [click, hnode, shown, Grouping.answer, Grouping.toggle]
  | some n =>
    cases hfold : n.fold with
    | none => simp [click, hnode, Node.isGroup, hfold, shown, Grouping.answer, Grouping.toggle]
    | some f =>
      have hgroup : ((s.graph.node? id).map Node.isGroup).getD false = true := by
        simp [hnode, Node.isGroup, hfold]
      rw [click, if_neg (by simp [hgroup])]
      exact shown_replace { s with grouping := _ } _

theorem shown_collapse (s : Session ε) :
    s.collapse.value.1.shown =
      if s.isGrouped then s.grouping.answer s.graph .collapseAll else s.shown := by
  cases hgrouped : s.isGrouped with
  | true =>
    simp only [collapse, hgrouped]
    exact shown_replace { s with grouping := _ } _
  | false => simp [collapse, hgrouped]

theorem shown_beginFrame (s : Session ε) : s.beginFrame.shown = s.shown := by
  rw [beginFrame]
  split <;> rfl

theorem shown_perform (s : Session ε) (i : Intent) : (s.perform i).shown = i.respond s.shown := by
  cases i with
  | toggleGrouping => exact s.shown_toggleGrouping
  | click id => exact s.shown_click id
  | collapse =>
    rw [perform, shown_collapse]
    cases hgrouped : s.grouping.active <;>
      simp [Intent.respond, Intent.request?, shown, isGrouped, hgrouped]
  | setConfig config => rfl
  | setCenter center => rfl
  | beginFrame => exact s.shown_beginFrame

/-- Grouping and graph go through the same history whatever the engine does. -/
theorem shown_visit (g : Graph) (engine : ε) (config : SimConfig) (is : List Intent) :
    (visit g engine config is).shown = is.foldl Intent.respond ({}, g) := by
  induction is using List.reverseRecOn with
  | nil => exact shown_ofGraph g engine config
  | append_singleton is i ih =>
    rw [visit, List.foldl_concat, ← visit, shown_perform, ih, List.foldl_concat]

end Session

end ImportAtlas
