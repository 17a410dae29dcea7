-- SUMMARY: What it means that a layout shows a graph, and that showing a graph makes it so.
import ImportAtlas.Layout.Basic
import Mathlib.Data.List.Nodup

/-! # Layouts that mirror a graph

A layout mirrors a graph if it has one body for each id, in the order in which the ids first occur and
with what the first node says about it, and one edge for each pair of bodies that links join, in the
order of the first such link. Ids may repeat in the graph and links may lead nowhere; such links and
links from a node to itself have no edge.

The distinct ids of a graph are said with `eraseDups` here, and the positions among them with `idxOf?`,
so that the statement does not speak of the bodies it is about. -/

namespace ImportAtlas

/-! ## First occurrences -/

section
variable {α β : Type} [DecidableEq β]

theorem map_distinctFrom [BEq β] [LawfulBEq β] (key : α → β) (seen : List β) (xs : List α) :
    (distinctFrom key seen xs).map key = ((xs.map key).filter (· ∉ seen)).eraseDups := by
  induction xs generalizing seen with
  | nil => simp [distinctFrom]
  | cons x xs ih =>
    by_cases hx : key x ∈ seen
    · simp [distinctFrom, hx, ih]
    · have hfilter : (xs.map key).filter (· ∉ key x :: seen) =
          ((xs.map key).filter (· ∉ seen)).filter (!· == key x) := by
        rw [List.filter_filter]
        refine List.filter_congr fun k _ => ?_
        by_cases hk : k = key x <;> simp [hk]
      simp only [distinctFrom, hx, if_false, List.map_cons, ih, hfilter]
      rw [List.filter_cons_of_pos (by simp [hx]), List.eraseDups_cons]

/-- The keys that stay are the keys without their later repetitions. -/
theorem map_distinctBy [BEq β] [LawfulBEq β] (key : α → β) (xs : List α) :
    (distinctBy key xs).map key = (xs.map key).eraseDups := by
  rw [distinctBy, map_distinctFrom]
  simp

theorem find?_of_mem_distinctFrom {key : α → β} {seen : List β} {xs : List α} {a : α} {p : α → Bool}
    (h : a ∈ distinctFrom key seen xs) (hp : ∀ x, p x = true ↔ key x = key a) :
    xs.find? p = some a := by
  induction xs generalizing seen with
  | nil => simp [distinctFrom] at h
  | cons x xs ih =>
    by_cases hx : key x ∈ seen
    · simp only [distinctFrom, hx, if_true] at h
      have hne : ¬ p x = true := by
        intro hpx
        exact (mem_of_mem_distinctFrom h).2 ((hp x).1 hpx ▸ hx)
      rw [List.find?_cons_of_neg hne]
      exact ih h
    · simp only [distinctFrom, hx, if_false, List.mem_cons] at h
      rcases h with rfl | h
      · exact List.find?_cons_of_pos ((hp a).2 rfl)
      · have hne : ¬ p x = true := by
          intro hpx
          exact (mem_of_mem_distinctFrom h).2 (by simp [(hp x).1 hpx])
        rw [List.find?_cons_of_neg hne]
        exact ih h

/-- An element that stays is the first of its key. -/
theorem find?_of_mem_distinctBy {key : α → β} {xs : List α} {a : α} {p : α → Bool}
    (h : a ∈ distinctBy key xs) (hp : ∀ x, p x = true ↔ key x = key a) : xs.find? p = some a :=
  find?_of_mem_distinctFrom h hp

end

theorem nodup_eraseDups {β : Type} [DecidableEq β] (ks : List β) : ks.eraseDups.Nodup := by
  have h := nodup_map_distinctBy id ks
  rwa [map_distinctBy, List.map_id] at h

/-! ## Mirrors -/

/-- The two ends of an edge. -/
def Edge.ends (e : Edge) : Nat × Nat := (e.source, e.target)

/-- The positions of the ends of a link among the distinct ids of a graph, if both occur and they are
not the same. -/
def Graph.positions? (g : Graph) (k : Link) : Option (Nat × Nat) := do
  let i ← g.ids.eraseDups.idxOf? k.source
  let j ← g.ids.eraseDups.idxOf? k.target
  if i = j then none else some (i, j)

/-- The layout shows the graph. -/
structure Layout.Mirrors (l : Layout) (g : Graph) : Prop where
  /-- one body for each id, in the order of first occurrence -/
  ids : l.bodies.map (·.id) = g.ids.eraseDups
  /-- a body tells of the first node with its id -/
  faces {b : Body} (h : b ∈ l.bodies) :
    ∃ n, g.node? b.id = some n ∧ b.label = n.name ∧ b.kind = n.kind
  /-- one edge for each pair of positions that links join, in the order of first occurrence -/
  ends : l.edges.map Edge.ends = (g.links.filterMap g.positions?).eraseDups
  /-- an edge is drawn like the first link that joins its ends -/
  grouped {e : Edge} (h : e ∈ l.edges) :
    ∃ k, g.links.find? (fun k => g.positions? k == some e.ends) = some k ∧ e.grouped = k.grouped

namespace Layout

theorem index?_eq (l : Layout) (id : String) : l.index? id = (l.bodies.map (·.id)).idxOf? id := by
  rw [index?, List.idxOf?, List.findIdx?_map]
  rfl

/-- Among ids that do not repeat, the position found is the position. -/
theorem idxOf?_eq_some_iff {ids : List String} (hids : ids.Nodup) {id : String} {i : Nat} :
    ids.idxOf? id = some i ↔ ids[i]? = some id := by
  rw [List.idxOf?, List.findIdx?_eq_some_iff_getElem]
  constructor
  · intro ⟨hi, heq, _⟩
    rw [List.getElem?_eq_getElem hi, beq_iff_eq.1 heq]
  · intro h
    obtain ⟨hi, rfl⟩ := List.getElem?_eq_some_iff.1 h
    refine ⟨hi, by simp, ?_⟩
    intro j hj hbeq
    have heq : j = i := (hids.getElem_inj_iff).1 (beq_iff_eq.1 hbeq)
    omega

/-- The edge of a link joins the positions of its ends. -/
theorem edge?_eq {g : Graph} {bodies : List Body} (hids : bodies.map (·.id) = g.ids.eraseDups)
    (k : Link) :
    edge? bodies k = (g.positions? k).map fun p => ⟨p.1, p.2, k.grouped⟩ := by
  have hfind (id : String) : bodies.findIdx? (·.id == id) = g.ids.eraseDups.idxOf? id := by
    rw [← hids, List.idxOf?, List.findIdx?_map]
    rfl
  simp only [edge?, Graph.positions?, hfind]
  cases g.ids.eraseDups.idxOf? k.source with
  | none => rfl
  | some i =>
    cases g.ids.eraseDups.idxOf? k.target with
    | none => rfl
    | some j => by_cases hij : i = j <;> simp [hij]

/-! ## Showing a graph -/

theorem id_carry (old : List Body) (n : Node) : (Body.carry old n).id = n.id := by
  unfold Body.carry
  split
  next b hb => simpa using List.find?_some hb
  next => rfl

theorem face_carry (old : List Body) (n : Node) :
    (Body.carry old n).label = n.name ∧ (Body.carry old n).kind = n.kind := by
  unfold Body.carry
  split <;> exact ⟨rfl, rfl⟩

theorem ids_render (l : Layout) (g : Graph) :
    (l.render g).bodies.map (·.id) = g.ids.eraseDups := by
  have hcarry : ((fun b : Body => b.id) ∘ Body.carry l.bodies) = fun n : Node => n.id :=
    funext (id_carry l.bodies)
  rw [Graph.ids, ← map_distinctBy, render, List.map_map, hcarry]

theorem ends_render (l : Layout) (g : Graph) :
    (l.render g).edges.map Edge.ends = (g.links.filterMap g.positions?).eraseDups := by
  have hends : (fun k => (edge? (l.render g).bodies k).map Edge.ends) = g.positions? := by
    funext k
    simp [edge?_eq (ids_render l g), Edge.ends, Function.comp_def]
  calc (l.render g).edges.map Edge.ends
      = ((g.links.filterMap (edge? (l.render g).bodies)).map Edge.ends).eraseDups :=
        map_distinctBy Edge.ends _
    _ = (g.links.filterMap g.positions?).eraseDups := by rw [List.map_filterMap, hends]

/-- The first link with the positions of an edge is the link of that edge. -/
theorem grouped_render {l : Layout} {g : Graph} {e : Edge} (he : e ∈ (l.render g).edges) :
    ∃ k, g.links.find? (fun k => g.positions? k == some e.ends) = some k ∧ e.grouped = k.grouped := by
  have hedge := edge?_eq (ids_render l g)
  have hmem : e ∈ distinctBy Edge.ends (g.links.filterMap (edge? (l.render g).bodies)) := he
  have hfirst : (g.links.filterMap (edge? (l.render g).bodies)).find? (·.ends == e.ends) = some e :=
    find?_of_mem_distinctBy hmem fun x => by simp
  rw [List.find?_filterMap, Option.bind_eq_some_iff] at hfirst
  obtain ⟨k, hk, hke⟩ := hfirst
  have hsame : (fun k => (edge? (l.render g).bodies k).any (·.ends == e.ends)) =
      fun k => g.positions? k == some e.ends := by
    funext k
    rw [hedge]
    cases g.positions? k <;> simp [Edge.ends]
  refine ⟨k, hsame ▸ hk, ?_⟩
  rw [hedge] at hke
  obtain ⟨p, -, rfl⟩ := Option.map_eq_some_iff.1 hke
  rfl

theorem mirrors_render (l : Layout) (g : Graph) : (l.render g).Mirrors g where
  ids := ids_render l g
  faces hb := by
    obtain ⟨n, hn, rfl⟩ := List.mem_map.1 hb
    refine ⟨n, find?_of_mem_distinctBy hn ?_, face_carry l.bodies n⟩
    intro m
    simp [id_carry]
  ends := ends_render l g
  grouped he := grouped_render he

theorem Mirrors.nodup_ids {l : Layout} {g : Graph} (h : l.Mirrors g) : (l.bodies.map (·.id)).Nodup :=
  h.ids ▸ nodup_eraseDups _

/-- The index finds every id at its position, and no other id. -/
theorem Mirrors.index {l : Layout} {g : Graph} (h : l.Mirrors g) {id : String} {i : Nat} :
    l.index? id = some i ↔ g.ids.eraseDups[i]? = some id := by
  rw [index?_eq, h.ids]
  exact idxOf?_eq_some_iff (nodup_eraseDups _)

end Layout

end ImportAtlas
