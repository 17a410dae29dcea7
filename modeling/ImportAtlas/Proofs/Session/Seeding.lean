-- SUMMARY: A transition keeps what stays where it is and seeds what is new.
import ImportAtlas.Proofs.Session.Mirroring

/-! # Seeding

Which ids are new is found out by the session, from the two graphs; which bodies stay is found out by
the layout, from the bodies that it has. The two agree because the layout mirrors the graph at any time.
The motion of a body is looked up by its id here. Each thing that a transition tells the layout has one
equation for that look-up, and what a transition does to the motion under one id is their composition. -/

namespace ImportAtlas

/-! ## Motions -/

/-- Where a body is, how it moves and what keeps it from moving. -/
structure Motion where
  pos : Point
  vel : Point := .zero
  pinned : Bool := false
  held : Bool := false

namespace Motion

/-- The motion of a body that appears. -/
def ofId (id : String) : Motion := { pos := (scatter id).scale 100.0 }

/-- The motion of a body that is placed at a point. -/
def placeAt (p : Point) (m : Motion) : Motion := { m with pos := p, vel := .zero }

def pin (m : Motion) : Motion := { m with pinned := true }

end Motion

def Body.motion (b : Body) : Motion := ⟨b.pos, b.vel, b.pinned, b.held⟩

/-- A body goes on as the one with its id did, if there was one. -/
theorem Body.motion_carry (old : List Body) (n : Node) :
    (Body.carry old n).motion = ((old.find? (·.id == n.id)).map Body.motion).getD (.ofId n.id) := by
  unfold Body.carry
  split
  next b hb => rw [hb]; rfl
  next hnone => rw [hnone]; rfl

namespace Layout

/-- The motion of the body with an id. -/
def motion? (l : Layout) (id : String) : Option Motion :=
  (l.bodies.find? (·.id == id)).map Body.motion

theorem isSome_motion?_iff (l : Layout) (id : String) :
    (l.motion? id).isSome = true ↔ id ∈ l.bodies.map (·.id) := by
  simp [motion?]

/-- Where every body keeps its id and changes its motion by its id alone, so does each motion. -/
theorem find?_map_motion (change : String → Motion → Motion) {bodies : List Body} {f : Body → Body}
    (hid : ∀ b, (f b).id = b.id) (hmotion : ∀ b, (f b).motion = change b.id b.motion) (id : String) :
    ((bodies.map f).find? (·.id == id)).map Body.motion =
      ((bodies.find? (·.id == id)).map Body.motion).map (change id) := by
  have hsame : ((fun b : Body => b.id == id) ∘ f) = fun b => b.id == id := by
    funext b
    simp [hid]
  rw [List.find?_map, hsame, Option.map_map, Option.map_map]
  cases hb : bodies.find? (·.id == id) with
  | none => rfl
  | some b =>
    obtain rfl : b.id = id := by simpa using List.find?_some hb
    simp [hmotion]

theorem motion?_place (l : Layout) (id : String) (p : Point) (id' : String) :
    (l.place id p).motion? id' = (l.motion? id').map fun m => if id' = id then m.placeAt p else m := by
  refine find?_map_motion (fun id' m => if id' = id then m.placeAt p else m) ?_ ?_ id'
  · intro b
    split <;> rfl
  · intro b
    split <;> rfl

theorem motion?_foldl_place (l : Layout) (point : String → Point) (ids : List String) (id : String) :
    (ids.foldl (fun l id => l.place id (point id)) l).motion? id =
      (l.motion? id).map fun m => if id ∈ ids then m.placeAt (point id) else m := by
  induction ids generalizing l with
  | nil => simp
  | cons id' ids ih =>
    rw [List.foldl_cons, ih, motion?_place, Option.map_map]
    congr 1
    funext m
    by_cases hid : id = id'
    · by_cases hids : id ∈ ids <;> simp [hid, Motion.placeAt]
    · simp [hid]

theorem motion?_pin (l : Layout) (ids : List String) (id : String) :
    (l.pin ids).motion? id = (l.motion? id).map fun m => if id ∈ ids then m.pin else m := by
  refine find?_map_motion (fun id m => if id ∈ ids then m.pin else m) ?_ ?_ id
  · intro b
    split <;> rfl
  · intro b
    split <;> rfl

/-- Showing a graph keeps the motion under an id that it has, and begins one if there was none. -/
theorem motion?_render (l : Layout) (g : Graph) (id : String) :
    (l.render g).motion? id = if id ∈ g.ids then some ((l.motion? id).getD (.ofId id)) else none := by
  have hsame : ((fun b : Body => b.id == id) ∘ Body.carry l.bodies) = fun n : Node => n.id == id := by
    funext n
    simp [id_carry]
  have hfind : (l.render g).motion? id =
      ((distinctBy (·.id) g.nodes).find? (·.id == id)).map fun n => (Body.carry l.bodies n).motion := by
    rw [motion?, render, List.find?_map, hsame, Option.map_map]
    rfl
  rw [hfind]
  cases hn : (distinctBy (·.id) g.nodes).find? (·.id == id) with
  | none =>
    have hid : id ∉ g.ids := by
      intro hid
      obtain ⟨n, hmem, rfl⟩ := List.mem_map.1 (mem_map_distinctBy.2 hid)
      simpa using List.find?_eq_none.1 hn n hmem
    rw [if_neg hid]
    rfl
  | some n =>
    obtain rfl : n.id = id := by simpa using List.find?_some hn
    have hid : n.id ∈ g.ids :=
      mem_map_distinctBy.1 (List.mem_map_of_mem (List.mem_of_find?_eq_some hn))
    rw [if_pos hid, Option.map_some, Body.motion_carry]
    rfl

end Layout

namespace Session

/-! ## One transition -/

/-- A transition places and pins the seeds and leaves every other motion as it was. -/
theorem motion?_transition (s : Session Layout) (seeded : List String) (id : String) :
    (s.transition seeded).value.engine.motion? id =
      if id ∈ s.graph.ids then
        some (let m := (s.engine.motion? id).getD (.ofId id)
          if id ∈ seeded then (m.placeAt (s.seedPoint id)).pin else m)
      else none := by
  have hstart (l : Layout) : (l.start s.config).motion? id = l.motion? id := rfl
  rw [engine_transition, hstart, Layout.motion?_pin, Layout.motion?_foldl_place, Layout.motion?_render]
  by_cases hshown : id ∈ s.graph.ids
  · by_cases hseeded : id ∈ seeded <;> simp [hshown, hseeded]
  · simp [hshown]

theorem motion?_advance (s : Session Layout) (next : Grouping × Graph) (seeded : List String)
    {id : String} (hid : id ∈ next.2.ids) :
    (s.advance next seeded).engine.motion? id =
      some (let m := (s.engine.motion? id).getD (.ofId id)
        if id ∈ seeded then (m.placeAt (s.seedPoint id)).pin else m) := by
  have h := motion?_transition { s with grouping := next.1, graph := next.2 } seeded id
  rw [if_pos hid] at h
  exact h

/-- The layout of the first session is carried over to the second, with new bodies seeded. -/
structure Carries (s s' : Session Layout) : Prop where
  /-- what stays moves on as before -/
  stays {id : String} (hold : id ∈ s.graph.ids) (hnext : id ∈ s'.graph.ids) :
    ∃ m, s.engine.motion? id = some m ∧ s'.engine.motion? id = some m
  /-- what is new rests where it was seeded, is pinned and is not held -/
  appears {id : String} (hold : id ∉ s.graph.ids) (hnext : id ∈ s'.graph.ids) :
    s'.engine.motion? id = some { pos := s.seedPoint id, vel := .zero, pinned := true, held := false }

/-- The layout of the second session is seeded as a whole. -/
def Reseeds (s s' : Session Layout) : Prop :=
  ∀ id ∈ s'.graph.ids, ∃ m, s'.engine.motion? id = some m ∧
    m.pos = s.seedPoint id ∧ m.vel = .zero ∧ m.pinned = true

/-- The simulation has started anew, with the tuning of the session. -/
structure Restarts (s s' : Session Layout) : Prop where
  config : s'.config = s.config
  tuned : s'.engine.config = s'.config
  warm : s'.engine.alpha = 1.0

theorem restarts_advance (s : Session Layout) (next : Grouping × Graph) (seeded : List String) :
    s.Restarts (s.advance next seeded) := by
  cases seeded with
  | nil => exact ⟨rfl, rfl, rfl⟩
  | cons id ids => exact ⟨rfl, rfl, rfl⟩

theorem isSome_motion?_of_mirrors {s : Session Layout} (h : s.engine.Mirrors s.graph) {id : String} :
    (s.engine.motion? id).isSome = true ↔ id ∈ s.graph.ids := by
  rw [Layout.isSome_motion?_iff, h.ids, List.mem_eraseDups]

/-- The session seeds what the layout does not have. -/
theorem carries_advance {s : Session Layout} (h : s.engine.Mirrors s.graph) (next : Grouping × Graph) :
    s.Carries (s.advance next (s.graph.newcomers next.2)) where
  stays := by
    intro id hold hnext
    rw [graph_advance] at hnext
    obtain ⟨m, hm⟩ := Option.isSome_iff_exists.1 ((isSome_motion?_of_mirrors h).2 hold)
    refine ⟨m, hm, ?_⟩
    have hseeded : id ∉ s.graph.newcomers next.2 := by simp [Graph.newcomers, hold]
    rw [motion?_advance s next _ hnext, hm]
    simp [hseeded]
  appears := by
    intro id hold hnext
    rw [graph_advance] at hnext
    have hnone : s.engine.motion? id = none := by
      rw [← Option.not_isSome_iff_eq_none, isSome_motion?_of_mirrors h]
      exact hold
    have hseeded : id ∈ s.graph.newcomers next.2 := by simp [Graph.newcomers, hold, hnext]
    rw [motion?_advance s next _ hnext, hnone]
    simp [hseeded, Motion.placeAt, Motion.pin, Motion.ofId]

theorem reseeds_advance (s : Session Layout) (next : Grouping × Graph) :
    s.Reseeds (s.advance next next.2.ids) := by
  intro id hnext
  rw [graph_advance] at hnext
  refine ⟨_, motion?_advance s next _ hnext, ?_⟩
  simp [hnext, Motion.placeAt, Motion.pin]

/-! ## Intents -/

/-- What the three intents that concern the grouping do to the layout of a session. -/
structure Seeds (s : Session Layout) : Prop where
  /-- a click on a plain node or on nothing is refused and changes nothing -/
  refuse {id : String} (h : ∀ n, s.graph.node? id = some n → n.isGroup = false) :
    (s.click id).value = (s, false)
  click {id : String} {n : Node} (h : s.graph.node? id = some n) (hgroup : n.isGroup = true) :
    ∃ s', (s.click id).value = (s', true) ∧ s'.shown = s.grouping.answer s.graph (.toggle id) ∧
      s.Carries s' ∧ s.Restarts s'
  collapse (h : s.isGrouped = true) :
    ∃ s', s.collapse.value = (s', true) ∧ s'.shown = s.grouping.answer s.graph .collapseAll ∧
      s.Carries s' ∧ s.Restarts s'
  toggleGrouping :
    ∃ s', s.toggleGrouping.value = (s', s'.isGrouped) ∧
      s'.shown = s.grouping.answer s.graph (if s.isGrouped then .revert else .apply) ∧
      s.Reseeds s' ∧ s.Restarts s'

theorem seeds_of_mirrors {s : Session Layout} (h : s.engine.Mirrors s.graph) : s.Seeds where
  refuse := by
    intro id hplain
    have htransits : (Intent.click id).transits s.shown = false := by
      cases hn : s.graph.node? id with
      | none => simp [Intent.transits, shown, hn]
      | some n => simp [Intent.transits, shown, hn, hplain n hn]
    rw [value_click, htransits, perform_of_not_transits htransits]
    rfl
  click := by
    intro id n hn hgroup
    have htransits : (Intent.click id).transits s.shown = true := by
      simp [Intent.transits, shown, hn, hgroup]
    refine ⟨s.perform (.click id), ?_, s.shown_perform (.click id), ?_⟩
    · rw [value_click, htransits]
    · rw [perform_of_transits htransits]
      exact ⟨carries_advance h _, s.restarts_advance _ _⟩
  collapse := by
    intro hgrouped
    have htransits : Intent.collapse.transits s.shown = true := hgrouped
    refine ⟨s.perform .collapse, ?_, ?_, ?_⟩
    · rw [value_collapse, htransits]
    · rw [perform, shown_collapse, if_pos hgrouped]
    · rw [perform_of_transits htransits]
      exact ⟨carries_advance h _, s.restarts_advance _ _⟩
  toggleGrouping := by
    refine ⟨s.perform .toggleGrouping, value_toggleGrouping s, s.shown_toggleGrouping, ?_⟩
    rw [perform_of_transits rfl]
    exact ⟨s.reseeds_advance _, s.restarts_advance _ _⟩

/-- At any point of a run, a transition keeps what stays in place and seeds what is new. -/
theorem seeds_play (g : Graph) (layout : Layout) (config : SimConfig) (acts : List Act) :
    (play g layout config acts).Seeds :=
  seeds_of_mirrors (mirrors_play g layout config acts)

end Session

end ImportAtlas
