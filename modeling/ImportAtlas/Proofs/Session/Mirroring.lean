-- SUMMARY: The layout of a session shows the graph of the session, at any time.
import ImportAtlas.Proofs.Layout.Bounds
import ImportAtlas.Proofs.Session.Acts

/-! # The layout mirrors the graph

Every transition renders the graph anew, and nothing else that happens to a session changes which
bodies and edges its layout has. So at any point of a run the layout mirrors the graph that is shown,
whatever the graph is like and however intents and moves follow each other. -/

namespace ImportAtlas

namespace Session

theorem mirrors_transition (s : Session Layout) (seeded : List String) :
    (s.transition seeded).value.engine.Mirrors s.graph := by
  rw [engine_transition]
  refine (Layout.mirrors_render s.engine s.graph).congr ?_ ?_
  · exact (Layout.faces_pin _ seeded).trans
      (Layout.face_of_tags_eq (Layout.tags_foldl_place _ s.seedPoint seeded))
  · exact Layout.edges_foldl_place _ s.seedPoint seeded

theorem mirrors_advance (s : Session Layout) (next : Grouping × Graph) (seeded : List String) :
    (s.advance next seeded).engine.Mirrors (s.advance next seeded).graph := by
  rw [graph_advance]
  exact mirrors_transition { s with grouping := next.1, graph := next.2 } seeded

theorem mirrors_beginFrame {s : Session Layout} (h : s.engine.Mirrors s.graph) :
    s.beginFrame.engine.Mirrors s.beginFrame.graph := by
  unfold beginFrame
  split
  next => exact h.congr (Layout.faces_unpinAll s.engine) rfl
  next => exact h

/-- An intent shows another graph or leaves bodies and edges alone. -/
theorem mirrors_perform {s : Session Layout} (h : s.engine.Mirrors s.graph) (i : Intent) :
    (s.perform i).engine.Mirrors (s.perform i).graph := by
  cases hi : i.transits s.shown with
  | true =>
    rw [perform_of_transits hi]
    exact s.mirrors_advance _ _
  | false =>
    rw [perform_of_not_transits hi]
    cases i with
    | toggleGrouping => exact h
    | click id => exact h
    | collapse => exact h
    | setConfig config => exact h.congr rfl rfl
    | setCenter center => exact h
    | beginFrame => exact mirrors_beginFrame h

theorem mirrors_act {s : Session Layout} (h : s.engine.Mirrors s.graph) (a : Act) :
    (s.act a).engine.Mirrors (s.act a).graph := by
  cases a with
  | intent i => exact mirrors_perform h i
  | move m => exact h.move m

theorem mirrors_play (g : Graph) (layout : Layout) (config : SimConfig) (acts : List Act) :
    (play g layout config acts).engine.Mirrors (play g layout config acts).graph := by
  induction acts using List.reverseRecOn with
  | nil =>
    rw [play, List.foldl_nil, ofGraph_eq_advance]
    exact mirrors_advance _ _ _
  | append_singleton acts a ih =>
    rw [play_concat]
    exact mirrors_act ih a

/-- At any point of a run the layout mirrors the graph. So the index finds every id at its position and no
other id, and no look-up by number can fail. -/
theorem mirrors_and_inBounds_play (g : Graph) (layout : Layout) (config : SimConfig)
    (acts : List Act) :
    (play g layout config acts).engine.Mirrors (play g layout config acts).graph ∧
      (∀ id i, (play g layout config acts).engine.index? id = some i ↔
        (play g layout config acts).graph.ids.eraseDups[i]? = some id) ∧
      (play g layout config acts).engine.InBounds :=
  have hmirrors := mirrors_play g layout config acts
  ⟨hmirrors, fun _ _ => hmirrors.index, hmirrors.inBounds⟩

end Session

end ImportAtlas
