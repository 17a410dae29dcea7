-- SUMMARY: What a grouping answers after any history of requests: everything is derived from the graph it was first applied to.
import ImportAtlas.Graph.Grouping
import ImportAtlas.Proofs.Graph.Groups
import Mathlib.Data.List.Induction

/-! # Histories of a grouping

Five things can be asked of a grouping, each with some view at hand. A history is a list of such
requests. Two kinds of history are looked at: one where every request is made on the view that the
last one returned (`browse`), and one where any view whatever may be handed in (`after`).

In both, the grouping holds the graph it was first applied to, without the annotations of its links,
and the groups of that graph. `Loaded` says this, and the answers of a loaded grouping are worked out
once, so that no later proof looks inside the operations. -/

namespace ImportAtlas

/-- Something that can be asked of a grouping. -/
inductive Request where
  | apply
  | toggle (id : String)
  | collapse (folder : String)
  | collapseAll
  | revert
  deriving DecidableEq, Repr

namespace Grouping

/-- Make a request with a view at hand. The answer is the grouping afterwards and the next view; what
was logged on the way is left aside. -/
def answer (t : Grouping) (view : Graph) : Request → Grouping × Graph
  | .apply => (t.apply view).value
  | .toggle id => (t.toggle view id).value
  | .collapse folder => (t.collapse folder).value
  | .collapseAll => t.collapseAll.value
  | .revert => t.revert view

/-- Apply a new grouping to a graph. -/
def start (g : Graph) : Grouping × Graph := ({} : Grouping).answer g .apply

/-- Make requests after the start, each on the view that the one before it returned. -/
def browse (g : Graph) (rs : List Request) : Grouping × Graph :=
  rs.foldl (fun p r => p.1.answer p.2 r) (start g)

/-- Make requests after the start, each on a view of its own. -/
def after (g : Graph) (rs : List (Graph × Request)) : Grouping :=
  rs.foldl (fun t c => (t.answer c.1 c.2).1) (start g).1

theorem browse_concat (g : Graph) (rs : List Request) (r : Request) :
    browse g (rs ++ [r]) = (browse g rs).1.answer (browse g rs).2 r := by
  simp [browse]

/-! ## The answers of a loaded grouping -/

/-- The grouping holds the graph `b`, and the groups it works with are those of `b`. -/
structure Loaded (b : Graph) (t : Grouping) : Prop where
  captured : t.store.captured = some b
  groups : t.groups = b.groups

/-- The view after toggling an id of a view, where `b` is the graph that was loaded. -/
def toggled (b view : Graph) (id : String) : Graph :=
  match (view.node? id).bind (·.fold) with
  | none => view
  | some f =>
    if f.expanded then b.folded b.groups
    else if b.Shared f.folder then b.unfold view id (b.group f.folder)
    else view

namespace Loaded

variable {b : Graph} {t : Grouping}

theorem graph (h : Loaded b t) : t.store.graph = b := by
  rw [Store.graph, h.captured]
  rfl

theorem setActive (h : Loaded b t) (active : Bool) : Loaded b { t with active } :=
  ⟨h.captured, h.groups⟩

/-- Folding builds the groups anew, which are the ones already there. -/
theorem value_collapseAll (h : Loaded b t) : t.collapseAll.value = (t, b.folded b.groups) := by
  have ht : { t with groups := b.groups } = t := by
    rw [← h.groups]
  simp [collapseAll, h.graph, ht]

theorem value_collapse (h : Loaded b t) (folder : String) :
    (t.collapse folder).value = (t, b.folded b.groups) := by
  simp [collapse, h.value_collapseAll]

theorem value_apply (h : Loaded b t) (view : Graph) :
    (t.apply view).value =
      if t.active then (t, view) else ({ t with active := true }, b.folded b.groups) := by
  cases hactive : t.active with
  | true => simp [apply, hactive]
  | false =>
    have hstore : t.store.capture view = pure (t.store, false) := by
      simp [Store.capture, h.captured]
    rw [apply, if_neg (by simp [hactive])]
    simp [hstore, h.value_collapseAll]

theorem revert_eq (h : Loaded b t) (view : Graph) :
    t.revert view = if t.active then ({ t with active := false }, b.detached) else (t, view) := by
  simp [revert, h.graph]

theorem value_toggle (h : Loaded b t) (view : Graph) (id : String) :
    (t.toggle view id).value = (t, toggled b view id) := by
  cases hnode : view.node? id with
  | none => simp [toggle, toggled, hnode]
  | some n =>
    cases hfold : n.fold with
    | none => simp [toggle, toggled, hnode, hfold]
    | some f =>
      cases hexp : f.expanded with
      | true => simp [toggle, toggled, hnode, hfold, hexp, h.value_collapse]
      | false =>
        by_cases hs : b.Shared f.folder
        · simp [toggle, toggled, hnode, hfold, hexp, h.groups, Graph.get?_groups, hs,
            expand, h.graph, Graph.node?_id hnode]
        · simp [toggle, toggled, hnode, hfold, hexp, h.groups, Graph.get?_groups, hs]

/-- No request changes what is loaded. -/
theorem loaded_answer (h : Loaded b t) (view : Graph) (r : Request) : Loaded b (t.answer view r).1 := by
  cases r with
  | apply =>
    rw [answer, h.value_apply]
    split
    · exact h
    · exact h.setActive true
  | toggle id =>
    rw [answer, h.value_toggle]
    exact h
  | collapse folder =>
    rw [answer, h.value_collapse]
    exact h
  | collapseAll =>
    rw [answer, h.value_collapseAll]
    exact h
  | revert =>
    rw [answer, h.revert_eq]
    split
    · exact h.setActive false
    · exact h

end Loaded

/-! ## Every history -/

theorem start_eq (g : Graph) :
    start g = ({ store := ⟨some g.detached⟩, groups := g.detached.groups, active := true },
      g.detached.folded g.detached.groups) := rfl

theorem loaded_start (g : Graph) : Loaded g.detached (start g).1 := ⟨rfl, rfl⟩

theorem loaded_after (g : Graph) (rs : List (Graph × Request)) : Loaded g.detached (after g rs) := by
  have h := loaded_start g
  rw [after]
  generalize (start g).1 = t at h ⊢
  induction rs generalizing t with
  | nil => exact h
  | cons c rs ih => exact ih _ (h.loaded_answer c.1 c.2)

theorem loaded_browse (g : Graph) (rs : List Request) : Loaded g.detached (browse g rs).1 := by
  induction rs using List.reverseRecOn with
  | nil => exact loaded_start g
  | append_singleton rs r ih =>
    rw [browse_concat]
    exact ih.loaded_answer _ r

/-- What a grouping that was first applied to `g` has to answer, whatever it was asked before. -/
structure Recalls (g : Graph) (t : Grouping) : Prop where
  graph : t.store.graph = { nodes := g.nodes, links := g.links.map Link.detached }
  groups : t.groups = t.store.graph.groups
  /-- folding returns the first view, however it comes about -/
  collapse : ∀ view folder, (t.answer view (.collapse folder)).2 = (start g).2
  collapseAll : ∀ view, (t.answer view .collapseAll).2 = (start g).2
  toggle_expanded : ∀ view id n f, view.node? id = some n → n.fold = some f → f.expanded = true →
    (t.answer view (.toggle id)).2 = (start g).2
  apply : t.active = false → ∀ view, (t.answer view .apply).2 = (start g).2
  /-- reverting returns the graph -/
  revert : t.active = true → ∀ view,
    (t.answer view .revert).2 = { nodes := g.nodes, links := g.links.map Link.detached }
  /-- what has nothing to do does nothing -/
  apply_active : t.active = true → ∀ view, t.answer view .apply = (t, view)
  revert_inactive : t.active = false → ∀ view, t.answer view .revert = (t, view)
  toggle_unknown : ∀ view id, view.node? id = none → t.answer view (.toggle id) = (t, view)
  toggle_plain : ∀ view id n, view.node? id = some n → n.fold = none →
    t.answer view (.toggle id) = (t, view)
  toggle_unrecorded : ∀ view id n f, view.node? id = some n → n.fold = some f →
    f.expanded = false → t.groups.get? f.folder = none → t.answer view (.toggle id) = (t, view)

/-- A grouping never forgets the graph it was first applied to, nor does it take in another: after any
history, with any views handed in, it answers as on the first day. -/
theorem recalls_after (g : Graph) (rs : List (Graph × Request)) : Recalls g (after g rs) := by
  have h := loaded_after g rs
  generalize after g rs = t at h
  constructor
  case graph => exact h.graph
  case groups => rw [h.graph, h.groups]
  case collapse =>
    intro view folder
    rw [answer, h.value_collapse, start_eq]
  case collapseAll =>
    intro view
    rw [answer, h.value_collapseAll, start_eq]
  case toggle_expanded =>
    intro view id n f hnode hfold hexp
    rw [answer, h.value_toggle, start_eq]
    simp [toggled, hnode, hfold, hexp]
  case apply =>
    intro hactive view
    rw [answer, h.value_apply, start_eq]
    simp [hactive]
  case revert =>
    intro hactive view
    rw [answer, h.revert_eq, if_pos hactive, Graph.detached_detached]
    rfl
  case apply_active =>
    intro hactive view
    rw [answer, h.value_apply, if_pos hactive]
  case revert_inactive =>
    intro hactive view
    rw [answer, h.revert_eq]
    simp [hactive]
  case toggle_unknown =>
    intro view id hnode
    rw [answer, h.value_toggle]
    simp [toggled, hnode]
  case toggle_plain =>
    intro view id n hnode hfold
    rw [answer, h.value_toggle]
    simp [toggled, hnode, hfold]
  case toggle_unrecorded =>
    intro view id n f hnode hfold hexp hget
    have hs : ¬ g.detached.Shared f.folder := by
      intro hs
      rw [h.groups, Graph.get?_groups, if_pos hs] at hget
      cases hget
    rw [answer, h.value_toggle]
    simp [toggled, hnode, hfold, hexp, hs]

end Grouping

end ImportAtlas
