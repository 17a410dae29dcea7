-- SUMMARY: What the simulation, the pointer and a session leave alone in a layout.
import ImportAtlas.Canvas.Rect
import ImportAtlas.Layout.Motion
import ImportAtlas.Proofs.Layout.Mirror

/-! # Moves

Between two graphs a layout only moves: the simulation ticks, the pointer holds, drags and releases
bodies, and the layout is looked at. None of this touches what a body is, whether it is pinned, or an
edge. So a layout that mirrors a graph goes on mirroring it.

All that a tick leaves alone is said in one equation, `Layout.still_step`. -/

namespace ImportAtlas

/-! ## What a body is -/

namespace Body

/-- What a body shows. -/
def face (b : Body) : String × String × NodeKind := (b.id, b.label, b.kind)

/-- A body without its motion: neither at a place nor under the pointer. -/
def tag (b : Body) : Body := { b with pos := .zero, vel := .zero, held := false }

/-- A body without what a tick may change: its velocity and, unless it is fixed, its place. -/
def still (b : Body) : Body := { b with pos := if b.isFixed then b.pos else .zero, vel := .zero }

theorem still_of_not_isFixed {b : Body} (h : ¬ b.isFixed = true) (p v : Point) :
    ({ b with pos := p, vel := v } : Body).still = b.still := by
  have h' : ¬ ({ b with pos := p, vel := v } : Body).isFixed = true := h
  rw [still, still, if_neg h', if_neg h]

theorem still_advance (b : Body) (v : Point) : (b.advance v).still = b.still := by
  unfold advance
  split
  next => rfl
  next hfree => exact still_of_not_isFixed hfree _ _

theorem still_shift (b : Body) (p : Point) : (b.shift p).still = b.still := by
  unfold shift
  split
  next => rfl
  next hfree => exact still_of_not_isFixed hfree _ b.vel

end Body

namespace Layout

/-- The bodies of a layout without their motion. -/
def tags (l : Layout) : List Body := l.bodies.map Body.tag

theorem face_of_tags_eq {l l' : Layout} (h : l'.tags = l.tags) :
    l'.bodies.map Body.face = l.bodies.map Body.face := by
  have hface (l : Layout) : l.bodies.map Body.face = l.tags.map Body.face := by
    rw [tags, List.map_map]
    rfl
  rw [hface, hface, h]

theorem length_of_tags_eq {l l' : Layout} (h : l'.tags = l.tags) :
    l'.bodies.length = l.bodies.length := by
  have hlength (l : Layout) : l.bodies.length = l.tags.length := by rw [tags, List.length_map]
  rw [hlength, hlength, h]

theorem map_tag_modify (bodies : List Body) (i : Nat) {f : Body → Body} (hf : ∀ b, (f b).tag = b.tag) :
    (bodies.modify i f).map Body.tag = bodies.map Body.tag := by
  refine List.ext_getElem? fun j => ?_
  rw [List.getElem?_map, List.getElem?_map, List.getElem?_modify]
  cases bodies[j]? with
  | none => rfl
  | some b => by_cases hij : i = j <;> simp [hij, hf]

/-! ## Ticks -/

/-- A layout without what a tick may change: the warmth, the velocities and the places of free bodies. -/
def still (l : Layout) : Layout := { l with bodies := l.bodies.map Body.still, alpha := 0.0 }

theorem still_advance (l : Layout) : l.advance.still = l.still := by
  have hbodies : l.advance.bodies.map Body.still = l.bodies.map Body.still := by
    refine List.ext_getElem? fun j => ?_
    rw [List.getElem?_map, List.getElem?_map, advance, List.getElem?_mapIdx, Option.map_map]
    exact congrArg (fun f => Option.map f l.bodies[j]?) (funext fun b => b.still_advance _)
  rw [still, hbodies]
  rfl

theorem still_recenter (l : Layout) : l.recenter.still = l.still := by
  unfold recenter
  split
  next => rfl
  next =>
    simp only [still, List.map_map]
    congr 1
    exact List.map_congr_left fun b _ => b.still_shift _

/-- All that a tick leaves alone. -/
theorem still_step (l : Layout) : l.step.1.still = l.still := by
  simp only [step]
  split
  next => rfl
  next => rw [still_recenter, still_advance]; rfl

theorem tags_step (l : Layout) : l.step.1.tags = l.tags := by
  have htags (l : Layout) : l.tags = l.still.bodies.map Body.tag := by
    rw [still, List.map_map]
    rfl
  rw [htags, htags, still_step]

/-! ## Moves -/

/-- Something that happens to a layout between two graphs. -/
inductive Move where
  /-- a tick of the simulation -/
  | tick
  | hold (i : Nat)
  /-- a body that is held follows the pointer -/
  | drag (i : Nat) (p : Point)
  | release (i : Nat)
  /-- the layout is seen in a rectangle of the screen, which changes nothing -/
  | look (r : Rect Float32) (pan : Point) (zoom : Float32)

/-- The layout after a move. -/
def move (l : Layout) : Move → Layout
  | .tick => l.step.1
  | .hold i => l.hold i
  | .drag i p => l.moveHeld i p
  | .release i => l.release i
  | .look .. => l

theorem tags_move (l : Layout) (m : Move) : (l.move m).tags = l.tags := by
  cases m with
  | tick => exact l.tags_step
  | hold i =>
    simp only [move, hold]
    split
    next => exact map_tag_modify _ _ fun _ => rfl
    next => rfl
  | drag i p =>
    refine map_tag_modify _ _ fun b => ?_
    split <;> rfl
  | release i => exact map_tag_modify _ _ fun _ => rfl
  | look r pan zoom => rfl

theorem edges_move (l : Layout) (m : Move) : (l.move m).edges = l.edges := by
  cases m with
  | tick => exact l.edges_step
  | hold i =>
    simp only [move, hold]
    split <;> rfl
  | drag i p => rfl
  | release i => rfl
  | look r pan zoom => rfl

/-- No number of moves changes the number of bodies. -/
theorem length_moves (l : Layout) (ms : List Move) :
    (ms.foldl move l).bodies.length = l.bodies.length := by
  induction ms generalizing l with
  | nil => rfl
  | cons m ms ih => rw [List.foldl_cons, ih, length_of_tags_eq (l.tags_move m)]

/-! ## What a session does to its layout -/

theorem tags_place (l : Layout) (id : String) (p : Point) : (l.place id p).tags = l.tags := by
  simp only [place, tags, List.map_map]
  refine List.map_congr_left fun b _ => ?_
  simp only [Function.comp_apply]
  split <;> rfl

theorem tags_foldl_place (l : Layout) (point : String → Point) (ids : List String) :
    (ids.foldl (fun l id => l.place id (point id)) l).tags = l.tags := by
  induction ids generalizing l with
  | nil => rfl
  | cons id ids ih => rw [List.foldl_cons, ih, tags_place]

theorem edges_foldl_place (l : Layout) (point : String → Point) (ids : List String) :
    (ids.foldl (fun l id => l.place id (point id)) l).edges = l.edges := by
  induction ids generalizing l with
  | nil => rfl
  | cons id ids ih => rw [List.foldl_cons, ih]; rfl

theorem faces_pin (l : Layout) (ids : List String) :
    (l.pin ids).bodies.map Body.face = l.bodies.map Body.face := by
  simp only [pin, List.map_map]
  refine List.map_congr_left fun b _ => ?_
  simp only [Function.comp_apply]
  split <;> rfl

theorem faces_unpinAll (l : Layout) : l.unpinAll.bodies.map Body.face = l.bodies.map Body.face := by
  simp only [unpinAll, List.map_map]
  rfl

/-- Whether a layout mirrors a graph hangs on what its bodies show and on its edges. -/
theorem Mirrors.congr {l l' : Layout} {g : Graph} (h : l.Mirrors g)
    (hfaces : l'.bodies.map Body.face = l.bodies.map Body.face) (hedges : l'.edges = l.edges) :
    l'.Mirrors g := by
  have hids : l'.bodies.map (·.id) = l.bodies.map (·.id) := by
    have hid (l : Layout) : l.bodies.map (·.id) = (l.bodies.map Body.face).map (·.1) := by
      rw [List.map_map]
      rfl
    rw [hid, hid, hfaces]
  refine ⟨hids.trans h.ids, ?_, ?_, ?_⟩
  · intro b' hb'
    have hface : b'.face ∈ l.bodies.map Body.face := hfaces ▸ List.mem_map_of_mem hb'
    obtain ⟨b, hb, heq⟩ := List.mem_map.1 hface
    obtain ⟨hid, hlabel, hkind⟩ : b.id = b'.id ∧ b.label = b'.label ∧ b.kind = b'.kind := by
      simpa [Body.face] using heq
    rw [← hid, ← hlabel, ← hkind]
    exact h.faces hb
  · rw [hedges]
    exact h.ends
  · intro e he
    exact h.grouped (hedges ▸ he)

theorem Mirrors.move {l : Layout} {g : Graph} (h : l.Mirrors g) (m : Move) : (l.move m).Mirrors g :=
  h.congr (face_of_tags_eq (l.tags_move m)) (l.edges_move m)

end Layout

end ImportAtlas
