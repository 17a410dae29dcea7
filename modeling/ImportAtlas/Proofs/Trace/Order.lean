-- SUMMARY: A traced graph is well formed, and its nodes stand in the order in which links first reach them.
import ImportAtlas.Proofs.Trace.Closure
import Mathlib.Data.List.Nodup
import Mathlib.Logic.Relation

/-! # The order of a trace

A walk adds a target and the link to it in one move, each unless it is there already. So the nodes are
the entry and then the targets of the links, in the order of their first link. This is all that has to
be carried through a walk; that links join nodes and that every node can be reached along links follows
from the graph being a closure. -/

namespace ImportAtlas

namespace Trace

/-- A graph as a trace from `entry` leaves it. -/
structure Orderly (entry : String) (g : Graph) : Prop where
  nodup_ids : g.ids.Nodup
  nodup_ends : (g.links.map Link.ends).Nodup
  ends_mem {l : Link} (h : l ∈ g.links) : l.source ∈ g.ids ∧ l.target ∈ g.ids
  /-- the entry, then the targets of the links in the order of their first occurrence -/
  ids_eq : g.ids = entry :: ((g.links.map (·.target)).filter (· != entry)).eraseDups
  /-- the first node is the root, and it is the only one -/
  root_iff {i : Nat} {n : Node} (h : g.nodes[i]? = some n) : n.kind = .root ↔ i = 0
  plain_node {n : Node} (h : n ∈ g.nodes) : n.name = n.id ∧ n.fold = none
  plain_link {l : Link} (h : l ∈ g.links) : l.grouped = false ∧ l.standsFor = []
  reachable {id : String} (h : id ∈ g.ids) :
    Relation.ReflTransGen (fun u v => (u, v) ∈ g.links.map Link.ends) entry id

variable {P : Project} {o : Options} {entry : String}

/-! ## What a walk carries -/

/-- The nodes stand in the order of the links, and neither repeats. -/
structure Ordered (entry : String) (st : State) : Prop where
  ids_eq : st.ids = (entry :: st.ends.map (·.2)).eraseDups
  nodup_ids : st.ids.Nodup
  nodup_ends : st.ends.Nodup
  plain {l : Link} (h : l ∈ st.links) : l.grouped = false ∧ l.standsFor = []

theorem Ordered.mem_ids {st : State} (h : Ordered entry st) {id : String} :
    id ∈ st.ids ↔ id = entry ∨ id ∈ st.ends.map (·.2) := by
  rw [h.ids_eq, List.mem_eraseDups, List.mem_cons]

/-- Adding an element that does not occur adds it at the end; one that occurs changes nothing. -/
theorem eraseDups_concat (xs : List String) (x : String) :
    (xs ++ [x]).eraseDups = if x ∈ xs then xs.eraseDups else xs.eraseDups ++ [x] := by
  rw [List.eraseDups_append]
  by_cases hx : x ∈ xs
  · simp [List.removeAll, hx]
  · simp [List.removeAll, hx, List.eraseDups_cons]

theorem Ordered.connect {st : State} (h : Ordered entry st) (u : String) (t : Target) :
    Ordered entry (st.connect u t) where
  ids_eq := by
    rw [State.ids_connect, State.ends_connect]
    by_cases hlink : (u, t.id) ∈ st.ends
    · -- a link that is there leads to a node that is there
      have hid : t.id ∈ st.ids := h.mem_ids.2 (.inr (List.mem_map_of_mem hlink))
      rw [if_pos hid, if_pos hlink, h.ids_eq]
    · have hconcat : entry :: (st.ends ++ [(u, t.id)]).map (·.2) =
          (entry :: st.ends.map (·.2)) ++ [t.id] := by simp
      have hmem : t.id ∈ entry :: st.ends.map (·.2) ↔ t.id ∈ st.ids := by
        rw [h.mem_ids, List.mem_cons]
      rw [if_neg hlink, hconcat, eraseDups_concat, ← h.ids_eq]
      simp only [hmem]
  nodup_ids := by
    rw [State.ids_connect]
    split
    next => exact h.nodup_ids
    next hnew => exact List.concat_eq_append ▸ h.nodup_ids.concat hnew
  nodup_ends := by
    rw [State.ends_connect]
    split
    next => exact h.nodup_ends
    next hnew => exact List.concat_eq_append ▸ h.nodup_ends.concat hnew
  plain {l} hl := by
    rw [State.links_connect] at hl
    split at hl
    next => exact h.plain hl
    next =>
      rcases List.mem_append.1 hl with hl | hl
      · exact h.plain hl
      · obtain rfl := List.mem_singleton.1 hl
        exact ⟨rfl, rfl⟩

theorem invariant_ordered (P : Project) (o : Options) (entry : String) :
    Invariant P o fun _ st => Ordered entry st where
  tell _ h := ⟨h.ids_eq, h.nodup_ids, h.nodup_ends, h.plain⟩
  pass h := h
  known {u t _ _} h _ := h.connect u t
  fresh {u t _ _} h _ _ :=
    ⟨(h.connect u t).ids_eq, (h.connect u t).nodup_ids, (h.connect u t).nodup_ends, (h.connect u t).plain⟩

theorem ordered_origin (entry : String) : Ordered entry (origin entry) where
  ids_eq := by simp [origin, State.ids, State.ends, entryNode, List.eraseDups_cons]
  nodup_ids := List.nodup_singleton _
  nodup_ends := List.nodup_nil
  plain h := by cases h

/-! ## What the closure gives -/

namespace IsClosure

variable {V : Project.View} {g : Graph}

theorem mem_ids_of_asks (h : IsClosure V o entry g) {u : String} {t : Target}
    (hu : Reached V o entry u) (ht : Asks V o u t) : t.id ∈ g.ids := by
  by_cases hid : t.id = entry
  · have hroot : entryNode entry ∈ g.nodes := (h.nodes _).2 (.inl rfl)
    rw [hid]
    exact List.mem_map_of_mem hroot
  · have hnode : t.node ∈ g.nodes := (h.nodes _).2 (.inr ⟨hid, u, t, hu, ht, rfl⟩)
    exact List.mem_map_of_mem hnode

theorem mem_ids_of_reached (h : IsClosure V o entry g) {u : String} (hu : Reached V o entry u) :
    u ∈ g.ids := by
  cases hu with
  | entry =>
    have hroot : entryNode entry ∈ g.nodes := (h.nodes _).2 (.inl rfl)
    exact List.mem_map_of_mem hroot
  | step hu ht => exact h.mem_ids_of_asks hu ht

/-- Along links every module that is reached can be reached. -/
theorem path_of_reached (h : IsClosure V o entry g) {u : String} (hu : Reached V o entry u) :
    Relation.ReflTransGen (fun u v => (u, v) ∈ g.links.map Link.ends) entry u := by
  induction hu with
  | entry => exact .refl
  | @step u v hu ht ih => exact ih.tail ((h.links u v).2 ⟨hu, .project, ht⟩)

theorem path_of_mem_ids (h : IsClosure V o entry g) {id : String} (hid : id ∈ g.ids) :
    Relation.ReflTransGen (fun u v => (u, v) ∈ g.links.map Link.ends) entry id := by
  obtain ⟨n, hn, rfl⟩ := List.mem_map.1 hid
  rcases (h.nodes n).1 hn with rfl | ⟨-, u, t, hu, ht, rfl⟩
  · exact .refl
  · exact (h.path_of_reached hu).tail ((h.links u t.id).2 ⟨hu, t.kind, ht⟩)

theorem plain_node (h : IsClosure V o entry g) {n : Node} (hn : n ∈ g.nodes) :
    n.name = n.id ∧ n.fold = none := by
  rcases (h.nodes n).1 hn with rfl | ⟨-, u, t, -, -, rfl⟩
  · exact ⟨rfl, rfl⟩
  · exact ⟨rfl, rfl⟩

theorem kind_eq_root_iff (h : IsClosure V o entry g) {n : Node} (hn : n ∈ g.nodes) :
    n.kind = .root ↔ n.id = entry := by
  rcases (h.nodes n).1 hn with rfl | ⟨hne, u, t, -, ht, rfl⟩
  · exact ⟨fun _ => rfl, fun _ => rfl⟩
  · exact ⟨fun hroot => absurd hroot ht.kind_ne_root, fun hid => absurd hid hne⟩

theorem ends_mem (h : IsClosure V o entry g) {l : Link} (hl : l ∈ g.links) :
    l.source ∈ g.ids ∧ l.target ∈ g.ids := by
  obtain ⟨hu, kind, ht⟩ := (h.links l.source l.target).1 (List.mem_map_of_mem hl)
  exact ⟨h.mem_ids_of_reached hu, h.mem_ids_of_asks hu ht⟩

end IsClosure

/-! ## Traces -/

theorem Ordered.orderly {st : State} (h : Ordered entry st)
    (hc : IsClosure P.view o entry { nodes := st.nodes, links := st.links }) :
    Orderly entry { nodes := st.nodes, links := st.links } := by
  have hids : st.ids = entry :: ((st.links.map (·.target)).filter (· != entry)).eraseDups := by
    have htargets : st.ends.map (·.2) = st.links.map (·.target) := by
      rw [State.ends, List.map_map]
      rfl
    rw [h.ids_eq, htargets, List.eraseDups_cons]
    rfl
  refine ⟨h.nodup_ids, h.nodup_ends, hc.ends_mem, hids, ?_, hc.plain_node, h.plain, hc.path_of_mem_ids⟩
  -- ids do not repeat and the entry stands first, so its position is the first one only
  intro i n hn
  rw [hc.kind_eq_root_iff (List.mem_of_getElem? hn)]
  have hget : st.ids[i]? = some n.id := by
    rw [State.ids, List.getElem?_map, hn]
    rfl
  have hfirst : st.ids[0]? = some entry := by
    rw [hids]
    rfl
  refine ⟨fun hid => ?_, fun hi => ?_⟩
  · have hlt : i < st.ids.length := (List.getElem?_eq_some_iff.1 hget).1
    exact (List.getElem?_inj hlt h.nodup_ids).1 (by rw [hget, hfirst, hid])
  · rw [hi, hfirst] at hget
    exact (Option.some.inj hget).symm

theorem orderly_graph (P : Project) (o : Options) (entry : String) :
    Orderly entry (graph P o entry).value := by
  have hclosure := isClosure_graph P o entry
  obtain ⟨st, hst, hgraph⟩ := (invariant_ordered P o entry).graph (ordered_origin entry)
  rw [hgraph] at hclosure ⊢
  exact hst.orderly hclosure

/-- A trace that succeeds leaves a well-formed graph in the order of first links. -/
theorem exists_orderly_of_run {d : Disk} {root entry : String} {o : Options} {g : Graph}
    (h : (run d root entry o).value = .ok g) :
    ∃ P id, locate d root entry = .ok (P, id) ∧ Orderly id g := by
  obtain ⟨P, id, hlocate, rfl⟩ := exists_locate_of_run h
  exact ⟨P, id, hlocate, orderly_graph P o id⟩

/-- Two modules that import each other, a package from outside, and a module that cannot be read. -/
theorem exists_orderly_of_run_cycle :
    let d : Disk :=
      { home := []
        files := [(["p", "main.py"], .text "from pkg.a import x\nimport numpy\n"),
          (["p", "pkg", "a.py"], .text "from pkg.sub.b import y\nif y:\n    import pkg.a.z\n"),
          (["p", "pkg", "sub", "b.py"], .text "from pkg.a import x\n"),
          (["p", "pkg", "__init__.py"], .binary)] }
    let g := (graph (d.project ["p"]) ⟨true, true⟩ "main.py").value
    (run d "/p" "main.py" ⟨true, true⟩).value = .ok g ∧
      ∃ P id, locate d "/p" "main.py" = .ok (P, id) ∧ Orderly id g := by
  intro d g
  have hlocate : locate d "/p" "main.py" = .ok (d.project ["p"], "main.py") := rfl
  have hrun : (run d "/p" "main.py" ⟨true, true⟩).value = .ok g := value_run ⟨true, true⟩ hlocate
  exact ⟨hrun, exists_orderly_of_run hrun⟩

end Trace

end ImportAtlas
