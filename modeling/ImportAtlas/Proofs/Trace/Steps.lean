-- SUMMARY: One step of a walk, what a whole walk preserves, and the graph that a trace leaves.
import ImportAtlas.Proofs.Trace.Targets

/-! # What a walk preserves

A walk does one pending step after the other. A step either concerns nothing but the events, or links
a module to a target that needs no visit, or links it to a module that is visited now and puts the
steps of that module in front. What none of these moves destroys is an `Invariant`, and it holds at
the end of a walk, where nothing is pending. -/

namespace ImportAtlas

namespace Trace

/-- The node of a target. -/
def Target.node (t : Target) : Node where
  id := t.id
  name := t.id
  kind := t.kind

/-- The node of the entry module. -/
def entryNode (entry : String) : Node where
  id := entry
  name := entry
  kind := .root

/-! ## Moves -/

namespace State

variable (st : State) (u : String) (t : Target)

/-- The ids of the nodes found so far. -/
def ids : List String := st.nodes.map (·.id)

theorem nodes_connect :
    (st.connect u t).nodes = if t.id ∈ st.ids then st.nodes else st.nodes ++ [t.node] := by
  have hnodes (s : State) : (s.addLink u t.id).nodes = s.nodes := by
    unfold addLink
    split <;> rfl
  have hany : (st.nodes.any (·.id == t.id) = true) = (t.id ∈ st.ids) := by
    simp [ids]
  simp only [connect, hnodes, addNode, hany]
  split <;> rfl

theorem links_connect :
    (st.connect u t).links =
      if (u, t.id) ∈ st.links.map Link.ends then st.links
      else st.links ++ [Link.between u t.id] := by
  have hlinks : (st.addNode t.id t.kind).links = st.links := by
    unfold addNode
    split <;> rfl
  have hany : (st.links.any (fun l => l.source == u && l.target == t.id) = true) =
      ((u, t.id) ∈ st.links.map Link.ends) := by
    simp [Link.ends]
  simp only [connect, addLink, hlinks, hany]
  split <;> simp_all

theorem ids_connect :
    (st.connect u t).ids = if t.id ∈ st.ids then st.ids else st.ids ++ [t.id] := by
  rw [ids, nodes_connect]
  split
  next => rfl
  next => exact List.map_append

/-- The ends of the links found so far. -/
def ends : List (String × String) := st.links.map Link.ends

theorem ends_connect :
    (st.connect u t).ends = if (u, t.id) ∈ st.ends then st.ends else st.ends ++ [(u, t.id)] := by
  rw [ends, links_connect, ← ends]
  split
  next => rfl
  next => exact List.map_append

variable {st u t}

theorem mem_ids_connect {id : String} : id ∈ (st.connect u t).ids ↔ id ∈ st.ids ∨ id = t.id := by
  rw [ids_connect]
  split
  next h =>
    refine ⟨.inl, ?_⟩
    rintro (hid | rfl)
    · exact hid
    · exact h
  next => simp

theorem mem_ends_connect {p : String × String} :
    p ∈ (st.connect u t).ends ↔ p ∈ st.ends ∨ p = (u, t.id) := by
  rw [ends_connect]
  split
  next h =>
    refine ⟨.inl, ?_⟩
    rintro (hp | rfl)
    · exact hp
    · exact h
  next => simp

theorem mem_nodes_connect {n : Node} :
    n ∈ (st.connect u t).nodes ↔ n ∈ st.nodes ∨ t.id ∉ st.ids ∧ n = t.node := by
  rw [nodes_connect]
  by_cases h : t.id ∈ st.ids <;> simp [h]

end State

/-- The steps of a module: what its text asks for. A module that cannot be read has none. -/
def stepsOf (P : Project) (o : Options) (f : String) : List (String × Step) :=
  match P.read f with
  | .ok source => (sourceSteps P o f source).map (f, ·)
  | .error _ => []

theorem link_mem_stepsOf {P : Project} {o : Options} {f u : String} {t : Target} :
    (u, .link t) ∈ stepsOf P o f ↔ u = f ∧ Asks P.view o f t := by
  rw [← exists_link_mem_sourceSteps_iff]
  cases hread : P.read f with
  | error e => simp [stepsOf, hread]
  | ok source => simp [stepsOf, hread, eq_comm, and_comm]

/-- What no move of a walk destroys. -/
structure Invariant (P : Project) (o : Options) (I : List (String × Step) → State → Prop) : Prop where
  tell {pending : List (String × Step)} {st : State} (e : Event) (h : I pending st) :
    I pending (st.tell e)
  pass {u a : String} {rest : List (String × Step)} {st : State} (h : I ((u, .pass a) :: rest) st) :
    I rest st
  /-- a target that needs no visit -/
  known {u : String} {t : Target} {rest : List (String × Step)} {st : State}
    (h : I ((u, .link t) :: rest) st) (hknown : t.kind = .project → t.id ∈ st.visited) :
    I rest (st.connect u t)
  /-- a module that is visited now -/
  fresh {u : String} {t : Target} {rest : List (String × Step)} {st : State}
    (h : I ((u, .link t) :: rest) st) (hkind : t.kind = .project) (hnew : t.id ∉ st.visited) :
    I (stepsOf P o t.id ++ rest) ((st.connect u t).visit t.id)

namespace Invariant

variable {P : Project} {o : Options} {I J : List (String × Step) → State → Prop}

theorem and (hI : Invariant P o I) (hJ : Invariant P o J) :
    Invariant P o fun pending st => I pending st ∧ J pending st where
  tell e h := ⟨hI.tell e h.1, hJ.tell e h.2⟩
  pass h := ⟨hI.pass h.1, hJ.pass h.2⟩
  known h hknown := ⟨hI.known h.1 hknown, hJ.known h.2 hknown⟩
  fresh h hkind hnew := ⟨hI.fresh h.1 hkind hnew, hJ.fresh h.2 hkind hnew⟩

/-- What no move destroys holds at the end of a walk. -/
theorem walk (hI : Invariant P o I) {pending : List (String × Step)} {st : State} (h : I pending st) :
    I [] (walk P o pending st) := by
  fun_induction Trace.walk P o pending st with
  | case1 st => exact h
  | case2 st u a rest ih => exact ih (hI.tell _ (hI.pass h))
  | case3 st u t rest st' hseen ih =>
    refine ih (hI.known h ?_)
    intro hkind
    exact hseen.resolve_left fun hne => hne hkind
  | case4 st u t rest st' hnew e hread ih =>
    -- an unreadable module is visited as well, and has no steps
    obtain ⟨hkind, hvisited⟩ := not_or.1 hnew
    have hnext := hI.fresh h (not_not.1 hkind) hvisited
    rw [stepsOf, hread] at hnext
    exact ih (hI.tell _ hnext)
  | case5 st u t rest st' hnew source hread ih =>
    obtain ⟨hkind, hvisited⟩ := not_or.1 hnew
    have hnext := hI.fresh h (not_not.1 hkind) hvisited
    rw [stepsOf, hread] at hnext
    exact ih hnext

end Invariant

/-! ## Traces -/

/-- The state in which a walk starts: the entry is a node and counts as visited. -/
def origin (entry : String) : State where
  nodes := [entryNode entry]
  visited := [entry]

/-- What holds before the walk from an entry, and no move destroys, holds of the graph that a trace
leaves. -/
theorem Invariant.graph {P : Project} {o : Options} {I : List (String × Step) → State → Prop}
    (hI : Invariant P o I) {entry : String} (h : I (stepsOf P o entry) (origin entry)) :
    ∃ st, I [] st ∧ (graph P o entry).value = { nodes := st.nodes, links := st.links } := by
  cases hread : P.read entry with
  | error e =>
    rw [stepsOf, hread] at h
    refine ⟨_, hI.tell (unreadable (P.path entry) e) h, ?_⟩
    simp only [Trace.graph, hread]
    rfl
  | ok source =>
    rw [stepsOf, hread] at h
    refine ⟨_, hI.walk h, ?_⟩
    simp only [Trace.graph, hread]
    rfl

/-- A trace that finds its root and its entry file succeeds with the graph of the project. -/
theorem value_run {d : Disk} {root entry id : String} {P : Project} (o : Options)
    (h : locate d root entry = .ok (P, id)) :
    (run d root entry o).value = .ok (graph P o id).value := by
  simp [run, h]

/-- A trace fails only if its root or its entry file is not found. -/
theorem exists_locate_of_run {d : Disk} {root entry : String} {o : Options} {g : Graph}
    (h : (run d root entry o).value = .ok g) :
    ∃ P id, locate d root entry = .ok (P, id) ∧ g = (graph P o id).value := by
  cases hlocate : locate d root entry with
  | error e => simp [run, hlocate] at h
  | ok found =>
    obtain ⟨P, id⟩ := found
    rw [value_run o hlocate] at h
    exact ⟨P, id, rfl, (Except.ok.inj h).symm⟩

end Trace

end ImportAtlas
