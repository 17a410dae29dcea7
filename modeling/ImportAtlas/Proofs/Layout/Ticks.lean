-- SUMMARY: What the simulation leaves alone, over any number of ticks.
import ImportAtlas.Proofs.Layout.Bounds
import Mathlib.Data.List.Forall2

/-! # Ticks

Bodies that are pinned or held take part in the simulation like all others: springs and charges act on
them, and they count for the centroid. But what the forces make of their velocities is thrown away when
bodies are moved, and they are passed over when the layout is drawn to the origin. So they stay where they
are, over any number of ticks, and nothing but places, velocities and the warmth ever changes.

This holds of any layout. The layouts that can come about also have every number that a tick looks up in
bounds, so the main statement is about those. -/

namespace ImportAtlas

namespace Body

/-- The second body is the first one at a later time: the same node with the same marks, and in the same
place if it is fixed. -/
structure Stays (b b' : Body) : Prop where
  id : b'.id = b.id
  label : b'.label = b.label
  kind : b'.kind = b.kind
  pinned : b'.pinned = b.pinned
  held : b'.held = b.held
  pos (h : b.pinned = true ∨ b.held = true) : b'.pos = b.pos

theorem isFixed_iff {b : Body} : b.isFixed = true ↔ b.pinned = true ∨ b.held = true := by
  simp [isFixed]

theorem stays_of_still_eq {b b' : Body} (h : b'.still = b.still) : b.Stays b' := by
  obtain ⟨hid, hlabel, hkind, hpos, -, hpinned, hheld⟩ := Body.mk.inj h
  refine ⟨hid, hlabel, hkind, hpinned, hheld, ?_⟩
  intro hfixed
  have hfixed' : b'.pinned = true ∨ b'.held = true := by rwa [hpinned, hheld]
  rwa [if_pos (isFixed_iff.2 hfixed'), if_pos (isFixed_iff.2 hfixed)] at hpos

/-- How fast a body is, and whether it may move at all. -/
def pace (b : Body) : Bool × Point := (b.isFixed, b.vel)

theorem pace_shift (b : Body) (p : Point) : (b.shift p).pace = b.pace := by
  unfold shift
  split <;> rfl

theorem pace_advance (b : Body) (v : Point) :
    (b.advance v).pace = (b.isFixed, if b.isFixed then .zero else v.scale (1.0 - 0.4)) := by
  unfold advance
  split <;> rfl

end Body

namespace Layout

/-! ## What ticks leave alone -/

/-- The layout after some ticks. -/
def ticks (l : Layout) : Nat → Layout
  | 0 => l
  | n + 1 => (l.ticks n).step.1

/-- The second layout is the first one at a later time: the same bodies and edges under the same tuning. -/
structure Spares (l l' : Layout) : Prop where
  bodies : List.Forall₂ Body.Stays l.bodies l'.bodies
  edges : l'.edges = l.edges
  config : l'.config = l.config
  target : l'.target = l.target
  revision : l'.revision = l.revision

/-- So every id is found at the same position. -/
theorem Spares.index {l l' : Layout} (h : l.Spares l') (id : String) : l'.index? id = l.index? id := by
  have hids : List.Forall₂ (· = ·) (l.bodies.map (·.id)) (l'.bodies.map (·.id)) := by
    rw [List.forall₂_map_left_iff, List.forall₂_map_right_iff]
    exact h.bodies.imp fun _ _ hb => hb.id.symm
  rw [List.forall₂_eq_eq_eq] at hids
  rw [index?_eq, index?_eq, hids]

theorem spares_of_still_eq {l l' : Layout} (h : l'.still = l.still) : l.Spares l' := by
  obtain ⟨hbodies, hedges, hconfig, -, htarget, hrevision⟩ := Layout.mk.inj h
  refine ⟨?_, hedges, hconfig, htarget, hrevision⟩
  rw [← List.forall₂_eq_eq_eq, List.forall₂_map_left_iff, List.forall₂_map_right_iff] at hbodies
  exact hbodies.flip.imp fun b b' hb => Body.stays_of_still_eq hb

theorem still_ticks (l : Layout) (n : Nat) : (l.ticks n).still = l.still := by
  induction n with
  | zero => rfl
  | succ n ih => rw [ticks, still_step, ih]

/-! ## What one tick does to velocities -/

/-- What the answer of a tick tells. -/
structure Answers (l : Layout) : Prop where
  /-- after a tick that could move something, fixed bodies rest -/
  rest (h : l.step.2 = true) {b : Body} (hb : b ∈ l.step.1.bodies)
    (hfixed : b.pinned = true ∨ b.held = true) : b.vel = .zero
  /-- and free ones have the velocity that springs and charges gave them, lessened by friction -/
  drift (h : l.step.2 = true) {i : Nat} {b : Body} (hb : l.step.1.bodies[i]? = some b)
    (hfree : ¬ (b.pinned = true ∨ b.held = true)) :
    ∃ v, l.cool.velocities[i]? = some v ∧ b.vel = v.scale (1.0 - 0.4)
  /-- a tick in which nothing could move changes no body -/
  idle (h : l.step.2 = false) : l.step.1.bodies = l.bodies

theorem step_of_warm {l : Layout} (h : l.step.2 = true) : l.step.1 = l.cool.advance.recenter := by
  simp only [step] at h ⊢
  split at h
  next => simp at h
  next hwarm => rw [if_neg hwarm]

theorem paces_recenter (l : Layout) :
    l.recenter.bodies.map Body.pace = l.bodies.map Body.pace := by
  unfold recenter
  split
  next => rfl
  next =>
    rw [List.map_map]
    exact List.map_congr_left fun b _ => b.pace_shift _

/-- After a tick that could move something, a body has the velocity that was computed for it, unless it is
fixed. -/
theorem vel_of_warm {l : Layout} (h : l.step.2 = true) {i : Nat} {b : Body}
    (hb : l.step.1.bodies[i]? = some b) :
    ∃ v, l.cool.velocities[i]? = some v ∧ b.vel = if b.isFixed then .zero else v.scale (1.0 - 0.4) := by
  have hpace : (l.cool.advance.bodies.map Body.pace)[i]? = some b.pace := by
    rw [← paces_recenter, ← step_of_warm h, List.getElem?_map, hb]
    rfl
  rw [List.getElem?_map, advance, List.getElem?_mapIdx, Option.map_map, Option.map_eq_some_iff] at hpace
  obtain ⟨c, hc, hpace⟩ := hpace
  have hi : i < l.cool.velocities.size := by
    rw [size_velocities]
    exact (List.getElem?_eq_some_iff.1 hc).1
  refine ⟨l.cool.velocities[i], Array.getElem?_eq_getElem hi, ?_⟩
  rw [Function.comp_apply, Body.pace_advance, Array.getD_eq_getD_getElem?,
    Array.getElem?_eq_getElem hi, Option.getD_some] at hpace
  obtain ⟨hfixed, hvel⟩ := Prod.mk.inj hpace
  rw [← hvel, hfixed]

theorem answers (l : Layout) : l.Answers where
  rest h b hb hfixed := by
    obtain ⟨i, hi⟩ := List.mem_iff_getElem?.1 hb
    obtain ⟨v, -, hvel⟩ := vel_of_warm h hi
    rw [hvel, if_pos (Body.isFixed_iff.2 hfixed)]
  drift h i b hb hfree := by
    obtain ⟨v, hv, hvel⟩ := vel_of_warm h hb
    rw [← Body.isFixed_iff] at hfree
    exact ⟨v, hv, by rw [hvel, if_neg hfree]⟩
  idle := bodies_step

/-! ## Layouts that come about -/

/-- Something that is done to a layout. -/
inductive Change where
  | render (g : Graph)
  | place (id : String) (p : Point)
  | pin (ids : List String)
  | unpinAll
  | start (config : SimConfig)
  /-- by the pointer or the simulation -/
  | move (m : Move)

/-- The layout after a change. -/
def change (l : Layout) : Change → Layout
  | .render g => l.render g
  | .place id p => l.place id p
  | .pin ids => l.pin ids
  | .unpinAll => l.unpinAll
  | .start config => l.start config
  | .move m => l.move m

/-- The layout that some changes make out of the empty one. -/
def made (cs : List Change) : Layout := cs.foldl change .empty

theorem made_concat (cs : List Change) (c : Change) : made (cs ++ [c]) = (made cs).change c :=
  List.foldl_concat ..

theorem mirrors_empty : Layout.empty.Mirrors {} where
  ids := rfl
  faces hb := by simp [empty] at hb
  ends := rfl
  grouped he := by simp [empty] at he

/-- A change shows another graph or leaves the one that is shown. -/
theorem exists_mirrors_change {l : Layout} (h : ∃ g, l.Mirrors g) (c : Change) :
    ∃ g, (l.change c).Mirrors g := by
  obtain ⟨g, hg⟩ := h
  cases c with
  | render g' => exact ⟨g', mirrors_render l g'⟩
  | place id p => exact ⟨g, hg.congr (face_of_tags_eq (l.tags_place id p)) rfl⟩
  | pin ids => exact ⟨g, hg.congr (l.faces_pin ids) rfl⟩
  | unpinAll => exact ⟨g, hg.congr l.faces_unpinAll rfl⟩
  | start config => exact ⟨g, hg.congr rfl rfl⟩
  | move m => exact ⟨g, hg.move m⟩

theorem exists_mirrors_made (cs : List Change) : ∃ g, (made cs).Mirrors g := by
  induction cs using List.reverseRecOn with
  | nil => exact ⟨{}, mirrors_empty⟩
  | append_singleton cs c ih =>
    rw [made_concat]
    exact exists_mirrors_change ih c

theorem Mirrors.ticks {l : Layout} {g : Graph} (h : l.Mirrors g) (n : Nat) : (l.ticks n).Mirrors g := by
  induction n with
  | zero => exact h
  | succ n ih => exact ih.move .tick

/-- However a layout has come about, any number of ticks moves free bodies and nothing else. Each tick finds
all that it looks up, leaves fixed bodies at rest, and changes no body if it answers that nothing could
move. -/
theorem spares_ticks (cs : List Change) (n : Nat) :
    (made cs).Spares ((made cs).ticks n) ∧
      (∀ id, ((made cs).ticks n).index? id = (made cs).index? id) ∧
      ((made cs).ticks n).InBounds ∧ ((made cs).ticks n).Answers := by
  obtain ⟨g, hmirrors⟩ := exists_mirrors_made cs
  have hspares := spares_of_still_eq (still_ticks (made cs) n)
  exact ⟨hspares, hspares.index, (hmirrors.ticks n).inBounds, answers _⟩

/-- The free one of two bodies is pushed away by the pinned one, which stays. -/
example :
    ((made [.render ⟨[⟨"a", "a", .project, none⟩, ⟨"b", "b", .project, none⟩], []⟩,
        .place "a" ⟨-400, 0⟩, .place "b" ⟨400, 0⟩, .pin ["a"], .start {}]).ticks 1).bodies.map (·.pos) =
      [⟨-400, 0⟩, ⟨401.08841, 0⟩] := by
  decide +kernel

end Layout

end ImportAtlas
