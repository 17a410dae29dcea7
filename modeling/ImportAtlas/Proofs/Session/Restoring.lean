-- SUMMARY: Exactly which graphs a session shows unaltered whenever it is not grouped.
import ImportAtlas.Proofs.Payload.Reload
import ImportAtlas.Proofs.Session.Intents

/-! # What is shown while nothing is grouped

A session that is not grouped should show the graph it was given. Clicks do not care whether the
session is grouped, so a loaded node that is marked as a group can be unfolded, or folded with all
others, also then. Before the first grouping there is no graph to fold, so folding shows the empty
graph; later, unfolding puts members beside members.

So the graph is shown unaltered through every sequence of intents exactly when no click does anything
to it: no id finds a node that is marked as unfolded, or marked as folded for a folder that forms a
group. -/

namespace ImportAtlas

namespace Graph

/-- No id finds a node that a click on the loaded graph would fold or unfold. -/
def Quiet (g : Graph) : Prop :=
  ∀ id n f, g.node? id = some n → n.fold = some f → f.expanded = false ∧ ¬ g.Shared f.folder

end Graph

namespace Grouping

/-- A grouping and a view that come from the graph `g`: nothing was grouped so far, or `g` is what the
grouping holds, and it is the view while the grouping is not active. -/
inductive Restores (g : Graph) : Grouping × Graph → Prop where
  | fresh : Restores g ({}, g)
  | loaded {t : Grouping} {view : Graph} (h : Loaded g.detached t)
      (hview : t.active = false → view = g.detached) : Restores g (t, view)

variable {g view : Graph} {t : Grouping}

theorem Restores.view_eq (h : Restores g (t, view)) (hactive : t.active = false) :
    view.nodes = g.nodes ∧ view.links.map Link.ends = g.links.map Link.ends := by
  cases h with
  | fresh => exact ⟨rfl, rfl⟩
  | loaded _ hview =>
    rw [hview hactive]
    exact ⟨rfl, Graph.ends_links_detached g⟩

theorem toggled_of_quiet (hg : g.Quiet) (id : String) : toggled g g id = g := by
  cases hnode : g.node? id with
  | none => simp [toggled, hnode]
  | some n =>
    cases hfold : n.fold with
    | none => simp [toggled, hnode, hfold]
    | some f =>
      obtain ⟨hexp, hs⟩ := hg id n f hnode hfold
      simp [toggled, hnode, hfold, hexp, hs]

/-- Before anything was grouped there are no groups to unfold. -/
theorem toggle_fresh_of_quiet (hg : g.Quiet) (id : String) :
    ({} : Grouping).answer g (.toggle id) = ({}, g) := by
  cases hnode : g.node? id with
  | none => simp [answer, toggle, hnode]
  | some n =>
    cases hfold : n.fold with
    | none => simp [answer, toggle, hnode, hfold]
    | some f =>
      obtain ⟨hexp, -⟩ := hg id n f hnode hfold
      simp [answer, toggle, hnode, hfold, hexp, Groups.get?]

theorem Restores.respond_fresh (hg : g.Quiet) (i : Session.Intent) :
    Restores g (i.respond ({}, g)) := by
  cases i with
  | toggleGrouping =>
    refine .loaded (loaded_start g) ?_
    rintro ⟨⟩
  | click id =>
    change Restores g (({} : Grouping).answer g (.toggle id))
    rw [toggle_fresh_of_quiet hg]
    exact .fresh
  | collapse => exact .fresh
  | setConfig config => exact .fresh
  | setCenter center => exact .fresh
  | beginFrame => exact .fresh

theorem Restores.respond_loaded (hg : g.Quiet) (h : Loaded g.detached t)
    (hview : t.active = false → view = g.detached) (i : Session.Intent) :
    Restores g (i.respond (t, view)) := by
  cases i with
  | toggleGrouping =>
    cases hactive : t.active with
    | true =>
      simp only [Session.Intent.respond, Session.Intent.request?, hactive, if_true, Option.map_some,
        Option.getD_some, answer, h.revert_eq, Graph.detached_detached]
      exact .loaded (h.setActive false) fun _ => rfl
    | false =>
      simp only [Session.Intent.respond, Session.Intent.request?, hactive, Option.map_some,
        Option.getD_some, answer, h.value_apply, Bool.false_eq_true, if_false]
      refine .loaded (h.setActive true) ?_
      rintro ⟨⟩
  | click id =>
    simp only [Session.Intent.respond, Session.Intent.request?, Option.map_some, Option.getD_some,
      answer, h.value_toggle]
    refine .loaded h ?_
    intro hactive
    rw [hview hactive]
    exact toggled_of_quiet (g := g.detached) hg id
  | collapse =>
    cases hactive : t.active with
    | true =>
      simp only [Session.Intent.respond, Session.Intent.request?, hactive, if_true, Option.map_some,
        Option.getD_some, answer, h.value_collapseAll]
      refine .loaded h ?_
      intro hinactive
      cases hactive.symm.trans hinactive
    | false =>
      simp only [Session.Intent.respond, Session.Intent.request?, hactive, Bool.false_eq_true, if_false,
        Option.map_none, Option.getD_none]
      exact .loaded h hview
  | setConfig config => exact .loaded h hview
  | setCenter center => exact .loaded h hview
  | beginFrame => exact .loaded h hview

theorem Restores.respond {p : Grouping × Graph} (hg : g.Quiet) (h : Restores g p) (i : Session.Intent) :
    Restores g (i.respond p) := by
  cases h with
  | fresh => exact respond_fresh hg i
  | loaded h hview => exact respond_loaded hg h hview i

theorem restores_foldl (hg : g.Quiet) (is : List Session.Intent) :
    Restores g (is.foldl Session.Intent.respond ({}, g)) := by
  induction is using List.reverseRecOn with
  | nil => exact .fresh
  | append_singleton is i ih =>
    rw [List.foldl_concat]
    exact ih.respond hg i

-- ---------------------------------------------------------------------------
-- Clicks that alter the graph
-- ---------------------------------------------------------------------------

/-- Folding before anything was grouped folds the empty graph. -/
theorem answer_toggle_fresh {id : String} {n : Node} {f : Fold} (hnode : g.node? id = some n)
    (hfold : n.fold = some f) (hexp : f.expanded = true) :
    ({} : Grouping).answer g (.toggle id) = ({}, {}) := by
  simp only [answer, toggle, hnode, hfold, hexp, if_true]
  rfl

/-- After grouping and restoring, a click toggles on the loaded graph. -/
theorem foldl_toggle_restored (g : Graph) (id : String) :
    [.toggleGrouping, .toggleGrouping, .click id].foldl Session.Intent.respond ({}, g) =
      ({ (start g).1 with active := false }, toggled g.detached g.detached id) := by
  have hrestored : Session.Intent.respond (start g) .toggleGrouping =
      ({ (start g).1 with active := false }, g.detached) := by
    change (start g).1.answer (start g).2 .revert = _
    rw [answer, (loaded_start g).revert_eq, Graph.detached_detached]
    rfl
  change Session.Intent.respond (Session.Intent.respond (start g) .toggleGrouping) (.click id) = _
  rw [hrestored]
  change Grouping.answer { (start g).1 with active := false } g.detached (.toggle id) = _
  rw [answer, ((loaded_start g).setActive false).value_toggle]

theorem length_nodes_unfold {id : String} {n : Node} {p : String} (hnode : g.node? id = some n)
    (hp : g.Shared p) : g.nodes.length < (g.unfold g id (g.group p)).nodes.length := by
  have hmem := Graph.mem_nodes_of_node? hnode
  have herase : (g.nodes.eraseP (·.id == id)).length = g.nodes.length - 1 :=
    List.length_eraseP_of_mem hmem (by simp [Graph.node?_id hnode])
  have hmembers : 2 ≤ (g.inFolder p).length := hp
  have hpos := List.length_pos_of_mem hmem
  change g.nodes.length < (g.nodes.eraseP (·.id == id) ++ g.inFolder p).length
  rw [List.length_append, herase]
  omega

/-- A graph that no sequence of intents alters is one on which clicks have nothing to do: a node marked
as unfolded loses the graph at the first click, and one marked as folded adds nodes to it once the
groups are known. -/
theorem quiet_of_nodes_eq (h : ∀ is : List Session.Intent,
    (is.foldl Session.Intent.respond ({}, g)).1.active = false →
      (is.foldl Session.Intent.respond ({}, g)).2.nodes = g.nodes) : g.Quiet := by
  intro id n f hnode hfold
  have hexp : f.expanded = false := by
    rw [Bool.eq_false_iff]
    intro hexp
    have hrun : [.click id].foldl Session.Intent.respond ({}, g) = ({}, {}) :=
      answer_toggle_fresh hnode hfold hexp
    have hnodes := h [.click id]
    rw [hrun] at hnodes
    have hmem := Graph.mem_nodes_of_node? hnode
    rw [← hnodes rfl] at hmem
    cases hmem
  refine ⟨hexp, ?_⟩
  intro hs
  have hnode' : g.detached.node? id = some n := hnode
  have hunfold : toggled g.detached g.detached id =
      g.detached.unfold g.detached id (g.detached.group f.folder) := by
    have hs' : g.detached.Shared f.folder := hs
    simp [toggled, hnode', hfold, hexp, hs']
  have hnodes := h [.toggleGrouping, .toggleGrouping, .click id]
  rw [foldl_toggle_restored, hunfold] at hnodes
  have hlength := length_nodes_unfold hnode' hs
  rw [hnodes rfl] at hlength
  exact Nat.lt_irrefl _ hlength

end Grouping

namespace Session

variable {ε : Type} [Engine ε]

/-- A session shows the graph it was given whenever it is not grouped, through every sequence of
intents, exactly when no id finds a node of the graph that is marked as an unfolded group, or as the
folded group of a folder that forms one. -/
theorem nodes_visit_iff (g : Graph) (engine : ε) (config : SimConfig) :
    (∀ is, (visit g engine config is).isGrouped = false →
      (visit g engine config is).graph.nodes = g.nodes ∧
      (visit g engine config is).graph.links.map Link.ends = g.links.map Link.ends) ↔
    ∀ id n f, g.node? id = some n → n.fold = some f → f.expanded = false ∧ ¬ g.Shared f.folder := by
  have hshown (is : List Intent) : ((visit g engine config is).grouping,
      (visit g engine config is).graph) = is.foldl Intent.respond ({}, g) :=
    shown_visit g engine config is
  constructor
  · intro h
    apply Grouping.quiet_of_nodes_eq
    intro is hactive
    rw [← hshown] at hactive ⊢
    exact (h is hactive).1
  · intro hg is hactive
    have h := Grouping.restores_foldl hg is
    rw [← hshown] at h
    exact h.view_eq hactive

/-- A group that is marked as unfolded, in a graph that payloads can hold, clicked before anything was
grouped: nothing is grouped afterwards either, and nothing of the graph is left. -/
theorem click_empties_graph :
    let g : Graph :=
      { nodes := [⟨"main.py", "main.py", .root, none⟩,
          ⟨"group_pkg", "pkg... (2)", .group, some ⟨true, "pkg", ["pkg/a.py", "pkg/b.py"]⟩⟩]
        links := [.between "main.py" "group_pkg"] }
    let s := visit g ({} : Transcript) {} [.click "group_pkg"]
    (Payload.parse (Payload.print g)).value = .ok g ∧
      s.isGrouped = false ∧ s.graph = {} ∧ s.graph.nodes ≠ g.nodes := by
  intro g s
  have hs : s.shown = ({}, {}) := by
    rw [shown_visit]
    rfl
  obtain ⟨hgrouping, hgraph⟩ := Prod.mk.inj hs
  refine ⟨?_, ?_, hgraph, ?_⟩
  · rw [Payload.value_parse, Payload.read_print_eq_ok_iff]
    exact ⟨rfl, by decide⟩
  · rw [isGrouped, hgrouping]
  · rw [hgraph]
    rintro ⟨⟩

end Session

end ImportAtlas
