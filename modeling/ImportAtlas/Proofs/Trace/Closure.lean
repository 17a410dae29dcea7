-- SUMMARY: A trace is the closure of its entry: every module that is reached, linked to all it asks for.
import ImportAtlas.Proofs.Trace.Steps

/-! # Traces as closures

The modules that an entry reaches are the least set that holds the entry and every module of the
project that one of them asks for. A trace links exactly these modules to exactly what they ask for,
whatever cycles the imports form and whether the modules exist or not.

One half is that nothing else gets into the graph (`Founded`). The other is that nothing is forgotten
(`Covers`): what a visited module asks for is either done or still pending, and at the end of a walk
nothing is pending. -/

namespace ImportAtlas

namespace Trace

/-- The modules that an entry reaches. -/
inductive Reached (V : Project.View) (o : Options) (entry : String) : String → Prop where
  | entry : Reached V o entry entry
  | step {u v : String} (h : Reached V o entry u) (ht : Asks V o u ⟨v, .project⟩) :
      Reached V o entry v

/-- A graph that has every module that the entry reaches and all that these ask for, the entry as its
root and anything else as the kind of target it is. -/
structure IsClosure (V : Project.View) (o : Options) (entry : String) (g : Graph) : Prop where
  links (u v : String) : (u, v) ∈ g.links.map Link.ends ↔
    Reached V o entry u ∧ ∃ kind, Asks V o u ⟨v, kind⟩
  nodes (n : Node) : n ∈ g.nodes ↔ n = entryNode entry ∨
    n.id ≠ entry ∧ ∃ u t, Reached V o entry u ∧ Asks V o u t ∧ n = t.node

variable {P : Project} {o : Options} {entry : String}

/-! ## Nothing else -/

/-- Everything found or pending comes from a module that the entry reaches. -/
structure Founded (P : Project) (o : Options) (entry : String) (pending : List (String × Step))
    (st : State) : Prop where
  pending {u : String} {t : Target} (h : (u, .link t) ∈ pending) : Reached P.view o entry u ∧ Asks P.view o u t
  links {p : String × String} (h : p ∈ st.ends) :
    Reached P.view o entry p.1 ∧ ∃ kind, Asks P.view o p.1 ⟨p.2, kind⟩
  root : entryNode entry ∈ st.nodes
  nodes {n : Node} (h : n ∈ st.nodes) : n = entryNode entry ∨
    n.id ≠ entry ∧ ∃ u t, Reached P.view o entry u ∧ Asks P.view o u t ∧ n = t.node

theorem Founded.connect {u : String} {t : Target} {rest : List (String × Step)} {st : State}
    (h : Founded P o entry ((u, .link t) :: rest) st) : Founded P o entry rest (st.connect u t) where
  pending hp := h.pending (List.mem_cons_of_mem _ hp)
  links hp := by
    rcases State.mem_ends_connect.1 hp with hp | rfl
    · exact h.links hp
    · obtain ⟨hu, ht⟩ := h.pending List.mem_cons_self
      exact ⟨hu, t.kind, ht⟩
  root := State.mem_nodes_connect.2 (.inl h.root)
  nodes hn := by
    rcases State.mem_nodes_connect.1 hn with hn | ⟨hnew, rfl⟩
    · exact h.nodes hn
    · obtain ⟨hu, ht⟩ := h.pending List.mem_cons_self
      refine .inr ⟨?_, u, t, hu, ht, rfl⟩
      intro hid
      have hentry : entry ∈ st.ids := List.mem_map_of_mem h.root
      rw [← hid] at hentry
      exact hnew hentry

theorem invariant_founded (P : Project) (o : Options) (entry : String) :
    Invariant P o (Founded P o entry) where
  tell _ h := ⟨h.pending, h.links, h.root, h.nodes⟩
  pass h := ⟨fun hp => h.pending (List.mem_cons_of_mem _ hp), h.links, h.root, h.nodes⟩
  known h _ := h.connect
  fresh {u t rest st} h hkind _ := by
    obtain ⟨hu, ht⟩ := h.pending List.mem_cons_self
    have hreached : Reached P.view o entry t.id := .step hu (hkind ▸ ht)
    refine ⟨?_, h.connect.links, h.connect.root, h.connect.nodes⟩
    intro v t' hp
    rcases List.mem_append.1 hp with hp | hp
    · obtain ⟨rfl, ht'⟩ := link_mem_stepsOf.1 hp
      exact ⟨hreached, ht'⟩
    · exact h.connect.pending hp

theorem founded_origin (P : Project) (o : Options) (entry : String) :
    Founded P o entry (stepsOf P o entry) (origin entry) where
  pending hp := by
    obtain ⟨rfl, ht⟩ := link_mem_stepsOf.1 hp
    exact ⟨.entry, ht⟩
  links hp := by cases hp
  root := List.mem_singleton_self _
  nodes hn := .inl (List.mem_singleton.1 hn)

/-! ## Nothing forgotten -/

/-- The state has the target and the link to it, and a module that is a target has been visited. -/
structure Done (st : State) (u : String) (t : Target) : Prop where
  linked : (u, t.id) ∈ st.ends
  found : t.id ∈ st.ids
  visited : t.kind = .project → t.id ∈ st.visited

/-- What a visited module asks for is done or still pending. -/
structure Covers (P : Project) (o : Options) (entry : String) (pending : List (String × Step))
    (st : State) : Prop where
  entry : entry ∈ st.visited
  asked {u : String} {t : Target} (hu : u ∈ st.visited) (ht : Asks P.view o u t) :
    (u, .link t) ∈ pending ∨ Done st u t

/-- With its link done, a target is done as soon as it counts as visited. -/
theorem Covers.connect {u : String} {t : Target} {rest : List (String × Step)} {st : State}
    (h : Covers P o entry ((u, .link t) :: rest) st) {seen : List String} (hseen : st.visited ⊆ seen)
    (ht : t.kind = .project → t.id ∈ seen) {v : String} {t' : Target} (hv : v ∈ st.visited)
    (ht' : Asks P.view o v t') :
    (v, .link t') ∈ rest ∨ Done { st.connect u t with visited := seen } v t' := by
  rcases h.asked hv ht' with hp | hdone
  · rcases List.mem_cons.1 hp with heq | hp
    · cases heq
      exact .inr ⟨State.mem_ends_connect.2 (.inr rfl), State.mem_ids_connect.2 (.inr rfl), ht⟩
    · exact .inl hp
  · refine .inr ⟨?_, ?_, fun hkind => hseen (hdone.visited hkind)⟩
    · exact State.mem_ends_connect.2 (.inl hdone.linked)
    · exact State.mem_ids_connect.2 (.inl hdone.found)

theorem invariant_covers (P : Project) (o : Options) (entry : String) :
    Invariant P o (Covers P o entry) where
  tell e h := by
    refine ⟨h.entry, ?_⟩
    intro u t hu ht
    exact (h.asked hu ht).imp_right fun hdone => ⟨hdone.linked, hdone.found, hdone.visited⟩
  pass h := by
    refine ⟨h.entry, ?_⟩
    intro u t hu ht
    refine (h.asked hu ht).imp_left fun hp => ?_
    exact (List.mem_cons.1 hp).resolve_left (by simp)
  known {u t rest st} h hknown := by
    have hsame : (st.connect u t).visited = st.visited := State.visited_connect st u t
    refine ⟨hsame ▸ h.entry, ?_⟩
    intro v t' hv ht'
    rw [hsame] at hv
    have hseen : st.visited ⊆ (st.connect u t).visited := by simp
    exact h.connect hseen (hsame ▸ hknown) hv ht'
  fresh {u t rest st} h _ _ := by
    have hsame : (st.connect u t).visited = st.visited := State.visited_connect st u t
    refine ⟨List.mem_cons_of_mem _ (hsame ▸ h.entry), ?_⟩
    intro v t' hv ht'
    rcases List.mem_cons.1 hv with rfl | hv
    · exact .inl (List.mem_append_left _ (link_mem_stepsOf.2 ⟨rfl, ht'⟩))
    · rw [hsame] at hv
      have hseen : st.visited ⊆ t.id :: (st.connect u t).visited :=
        hsame ▸ List.subset_cons_self _ _
      exact (h.connect hseen (fun _ => List.mem_cons_self) hv ht').imp_left (List.mem_append_right _)

theorem covers_origin (P : Project) (o : Options) (entry : String) :
    Covers P o entry (stepsOf P o entry) (origin entry) where
  entry := List.mem_singleton_self _
  asked hu ht := by
    obtain rfl := List.mem_singleton.1 hu
    exact .inl (link_mem_stepsOf.2 ⟨rfl, ht⟩)

/-- With nothing pending, every module that is reached was visited. -/
theorem Covers.mem_visited {st : State} (h : Covers P o entry [] st) {u : String}
    (hu : Reached P.view o entry u) : u ∈ st.visited := by
  induction hu with
  | entry => exact h.entry
  | step _ ht ih =>
    have hdone := (h.asked ih ht).resolve_left (by simp)
    exact hdone.visited rfl

/-! ## Closures -/

/-- With nothing pending, all that is found is the closure. -/
theorem isClosure_of_founded_covers {st : State} (hf : Founded P o entry [] st)
    (hc : Covers P o entry [] st) :
    IsClosure P.view o entry { nodes := st.nodes, links := st.links } where
  links u v := by
    refine ⟨fun hp => hf.links hp, ?_⟩
    intro ⟨hu, kind, ht⟩
    exact ((hc.asked (hc.mem_visited hu) ht).resolve_left (by simp)).linked
  nodes n := by
    refine ⟨fun hn => hf.nodes hn, ?_⟩
    intro hn
    rcases hn with rfl | ⟨hne, u, t, hu, ht, rfl⟩
    · exact hf.root
    · have hdone := (hc.asked (hc.mem_visited hu) ht).resolve_left (by simp)
      obtain ⟨m, hm, hid⟩ := List.mem_map.1 hdone.found
      -- the id of a target tells its kind, so the node with that id is the node of the target
      rcases hf.nodes hm with rfl | ⟨-, u', t', -, ht', rfl⟩
      · exact absurd hid.symm hne
      · rw [← ht'.unique ht hid]
        exact hm

theorem isClosure_graph (P : Project) (o : Options) (entry : String) :
    IsClosure P.view o entry (graph P o entry).value := by
  have hI := (invariant_founded P o entry).and (invariant_covers P o entry)
  obtain ⟨st, ⟨hf, hc⟩, hgraph⟩ := hI.graph ⟨founded_origin P o entry, covers_origin P o entry⟩
  rw [hgraph]
  exact isClosure_of_founded_covers hf hc

end Trace

end ImportAtlas
