-- SUMMARY: Every number that a tick or a picture of a layout looks up stands for something.
import ImportAtlas.Proofs.Layout.Cells
import ImportAtlas.Proofs.Layout.Moves
import ImportAtlas.Viewer.Scene

/-! # Bounds

Edges, springs, particles, cells and discs refer to bodies and to each other by number. In a layout
that mirrors a graph every edge joins two of its bodies, and then no number leads beyond the list or
array it is looked up in, at any point of a tick or of a picture. -/

namespace ImportAtlas

/-! ## Scenes -/

namespace Scene

theorem size_discs (r : Rect Float32) (pan : Point) (zoom : Float32) (l : Layout) :
    (Scene.of r pan zoom l).discs.size = l.bodies.length := by
  simp [Scene.of]

theorem lt_of_mem_visible {r : Rect Float32} {pan : Point} {zoom : Float32} {l : Layout} {i : Nat}
    (h : i ∈ (Scene.of r pan zoom l).visible) : i < l.bodies.length := by
  obtain ⟨⟨d, j⟩, hd, rfl⟩ := List.mem_map.1 h
  have hdisc := List.mem_zipIdx_iff_getElem?.1 (List.mem_filter.1 hd).1
  have hlt := (List.getElem?_eq_some_iff.1 hdisc).1
  rw [Array.length_toList] at hlt
  exact size_discs r pan zoom l ▸ hlt

theorem of_nearer_eq_some {best : Option (Nat × Float32)} {c d : Nat × Float32}
    (h : nearer best d = some c) : best = some c ∨ c = d := by
  cases best with
  | none => exact .inr (Option.some.inj h).symm
  | some b =>
    simp only [nearer] at h
    split at h
    next => exact .inr (Option.some.inj h).symm
    next => exact .inl h

theorem of_foldl_nearer_eq_some {near : List (Nat × Float32)} {best : Option (Nat × Float32)}
    {c : Nat × Float32} (h : near.foldl nearer best = some c) : best = some c ∨ c ∈ near := by
  induction near generalizing best with
  | nil => exact .inl h
  | cons d near ih =>
    rcases ih h with hone | hmem
    · rcases of_nearer_eq_some hone with hbest | rfl
      · exact .inl hbest
      · exact .inr List.mem_cons_self
    · exact .inr (List.mem_cons_of_mem d hmem)

/-- The node at a point is one that can be seen. -/
theorem mem_visible_of_nodeAt {s : Scene} {p : Point} {i : Nat} (h : s.nodeAt p = some i) :
    i ∈ s.visible := by
  obtain ⟨c, hc, rfl⟩ := Option.map_eq_some_iff.1 h
  have hnear := (of_foldl_nearer_eq_some hc).resolve_left (by simp)
  obtain ⟨j, hj, hjc⟩ := List.mem_filterMap.1 hnear
  simp only at hjc
  split at hjc
  next => exact Option.some.inj hjc ▸ hj
  next => simp at hjc

end Scene

/-! ## Layouts -/

namespace Layout

/-- Where the bodies are. -/
def places (l : Layout) : List Point := l.bodies.map (·.pos)

/-- The velocities of the bodies after the springs of some edges have acted. -/
def sprung (l : Layout) (s : Spring) (done : List Edge) : Array Point :=
  s.actAll done l.places.toArray (Edge.degrees l.edges l.bodies.length) (l.bodies.map (·.vel)).toArray

/-- Whatever a tick or a picture looks up by number is there. -/
structure InBounds (l : Layout) : Prop where
  /-- an edge joins two bodies -/
  edges {e : Edge} (h : e ∈ l.edges) : e.source < l.bodies.length ∧ e.target < l.bodies.length
  /-- when its turn comes, a spring finds places, degrees and velocities of both its ends -/
  springs (s : Spring) {done rest : List Edge} {e : Edge} (h : l.edges = done ++ e :: rest) {i : Nat}
    (hi : i = e.source ∨ i = e.target) :
    i < l.places.length ∧ i < (Edge.degrees l.edges l.bodies.length).size ∧ i < (l.sprung s done).size
  /-- every body has a velocity and no velocity is left over -/
  velocities : l.velocities.size = l.bodies.length
  /-- while the quadtree grows, its particles and cells are where it looks for them -/
  growing (square : Square) {done rest : List Particle}
    (h : Quadtree.particlesOf l.places = done ++ rest) : (Quadtree.grow square done).Within l.places
  /-- so are those of the finished tree -/
  tree {t : Quadtree} (h : Quadtree.build l.places = some t) : t.Within l.places
  /-- on the screen every body has a disc -/
  discs (r : Rect Float32) (pan : Point) (zoom : Float32) :
    (Scene.of r pan zoom l).discs.size = l.bodies.length
  /-- what can be seen are bodies -/
  visible {r : Rect Float32} {pan : Point} {zoom : Float32} {i : Nat}
    (h : i ∈ (Scene.of r pan zoom l).visible) : i < l.bodies.length
  /-- the node under the pointer is a body, and still is after the layout has moved -/
  hovered {r : Rect Float32} {pan p : Point} {zoom : Float32} {i : Nat}
    (h : (Scene.of r pan zoom l).nodeAt p = some i) (ms : List Move) :
    i < (ms.foldl move l).bodies.length

theorem length_places (l : Layout) : l.places.length = l.bodies.length := List.length_map _

theorem size_degrees (edges : List Edge) (n : Nat) : (Edge.degrees edges n).size = n := by
  simp [Edge.degrees]

theorem size_sprung (l : Layout) (s : Spring) (done : List Edge) :
    (l.sprung s done).size = l.bodies.length := by
  simp [sprung]

theorem size_velocities (l : Layout) : l.velocities.size = l.bodies.length := by
  simp only [velocities]
  split
  next => simp
  next => simp [Quadtree.particlesOf]

/-- The edges of a layout that mirrors a graph join bodies of it. -/
theorem Mirrors.edge_lt {l : Layout} {g : Graph} (h : l.Mirrors g) {e : Edge} (he : e ∈ l.edges) :
    e.source < l.bodies.length ∧ e.target < l.bodies.length := by
  have hlength : l.bodies.length = g.ids.eraseDups.length := by rw [← h.ids, List.length_map]
  have hlt {id : String} {i : Nat} (hi : g.ids.eraseDups.idxOf? id = some i) : i < l.bodies.length :=
    hlength ▸ (List.getElem?_eq_some_iff.1 ((idxOf?_eq_some_iff (nodup_eraseDups _)).1 hi)).1
  have hends : e.ends ∈ (g.links.filterMap g.positions?).eraseDups := h.ends ▸ List.mem_map_of_mem he
  obtain ⟨k, -, hk⟩ := List.mem_filterMap.1 (List.mem_eraseDups.1 hends)
  obtain ⟨i, hi, hk⟩ := Option.bind_eq_some_iff.1 hk
  obtain ⟨j, hj, hk⟩ := Option.bind_eq_some_iff.1 hk
  split at hk
  next => simp at hk
  next =>
    obtain ⟨rfl, rfl⟩ := Prod.mk.inj (Option.some.inj hk)
    exact ⟨hlt hi, hlt hj⟩

theorem Mirrors.inBounds {l : Layout} {g : Graph} (h : l.Mirrors g) : l.InBounds where
  edges := h.edge_lt
  springs s done rest e he i hi := by
    have hends := h.edge_lt (he ▸ List.mem_append_right done List.mem_cons_self)
    have hlt : i < l.bodies.length := by
      rcases hi with rfl | rfl
      · exact hends.1
      · exact hends.2
    rw [length_places, size_degrees, size_sprung]
    exact ⟨hlt, hlt, hlt⟩
  velocities := l.size_velocities
  growing square done rest hdone :=
    Quadtree.within_grow square (hdone ▸ List.subset_append_left done rest)
  tree ht := by
    obtain ⟨square, rfl⟩ := Quadtree.exists_grow_of_build ht
    exact Quadtree.within_grow square (List.Subset.refl _)
  discs r pan zoom := Scene.size_discs r pan zoom l
  visible := Scene.lt_of_mem_visible
  hovered hp ms := by
    rw [length_moves]
    exact Scene.lt_of_mem_visible (Scene.mem_visible_of_nodeAt hp)

end Layout

end ImportAtlas
