-- SUMMARY: Bodies with a mark: which of them stay when a layout shows another graph, and which are held.
import ImportAtlas.Proofs.Layout.Moves

/-! # Marks

A body may be pinned and it may be held. Both are marks in the same sense: a node that appears has none,
and one that stays keeps its own. Being held is changed by the pointer alone; whatever else a layout
goes through leaves it as it is. -/

namespace ImportAtlas

namespace Layout

/-- The ids of the bodies with a mark. -/
def marked (mark : Body → Bool) (l : Layout) : List String := (l.bodies.filter mark).map (·.id)

section
variable {mark : Body → Bool}

theorem mem_marked {l : Layout} {id : String} :
    id ∈ l.marked mark ↔ ∃ b ∈ l.bodies, mark b = true ∧ b.id = id := by
  simp [marked, and_assoc]

theorem nodup_marked {l : Layout} (hids : (l.bodies.map (·.id)).Nodup) : (l.marked mark).Nodup :=
  hids.sublist (List.filter_sublist.map _)

variable (hfresh : ∀ n, mark (.ofNode n) = false)
  (hkeep : ∀ b label kind, mark { b with label, kind } = mark b)
include hfresh hkeep

/-- Among bodies whose ids do not repeat, a node is carried on from the one body with its id. -/
theorem mark_carry {old : List Body} (hids : (old.map (·.id)).Nodup) (n : Node) :
    mark (Body.carry old n) = true ↔ ∃ b ∈ old, mark b = true ∧ b.id = n.id := by
  unfold Body.carry
  split
  next b hb =>
    have hmem : b ∈ old := List.mem_of_find?_eq_some hb
    have hid : b.id = n.id := by simpa using List.find?_some hb
    rw [hkeep]
    constructor
    · intro hmark
      exact ⟨b, hmem, hmark, hid⟩
    · intro ⟨c, hc, hmark, hcid⟩
      obtain rfl : c = b := List.inj_on_of_nodup_map hids hc hmem (hcid.trans hid.symm)
      exact hmark
  next hnone =>
    constructor
    · intro hmark
      simp [hfresh] at hmark
    · intro ⟨c, hc, _, hcid⟩
      exact absurd hcid (by simpa using List.find?_eq_none.1 hnone c hc)

theorem mem_marked_render {l : Layout} (hids : (l.bodies.map (·.id)).Nodup) {g : Graph} {id : String} :
    id ∈ (l.render g).marked mark ↔ id ∈ g.ids ∧ id ∈ l.marked mark := by
  have hcarry := mark_carry hfresh hkeep hids
  rw [mem_marked, mem_marked]
  constructor
  · intro ⟨b, hb, hmark, hid⟩
    obtain ⟨n, hn, rfl⟩ := List.mem_map.1 hb
    rw [id_carry] at hid
    subst hid
    exact ⟨mem_map_distinctBy.1 (List.mem_map_of_mem hn), (hcarry n).1 hmark⟩
  · intro ⟨hg, hmark⟩
    obtain ⟨n, hn, rfl⟩ := List.mem_map.1 (mem_map_distinctBy.2 hg)
    exact ⟨Body.carry l.bodies n, List.mem_map_of_mem hn, (hcarry n).2 hmark, id_carry ..⟩

end

/-! ## Held bodies -/

/-- The ids of the bodies that are held. -/
def held (l : Layout) : List String := l.marked (·.held)

theorem mem_held {l : Layout} {id : String} :
    id ∈ l.held ↔ ∃ (i : Nat) (b : Body), l.bodies[i]? = some b ∧ b.held = true ∧ b.id = id := by
  rw [held, mem_marked]
  constructor
  · intro ⟨b, hb, hheld, hid⟩
    obtain ⟨i, hi⟩ := List.mem_iff_getElem?.1 hb
    exact ⟨i, b, hi, hheld, hid⟩
  · intro ⟨i, b, hb, hheld, hid⟩
    exact ⟨b, List.mem_of_getElem? hb, hheld, hid⟩

/-- With ids that do not repeat, the list of held bodies is known from its elements. -/
theorem held_eq_toList_iff {l : Layout} (hids : (l.bodies.map (·.id)).Nodup) {o : Option String} :
    l.held = o.toList ↔ ∀ id, id ∈ l.held ↔ o = some id := by
  constructor
  · intro h id
    rw [h, Option.mem_toList]
  · intro h
    have hperm : l.held.Perm o.toList := by
      refine (List.perm_ext_iff_of_nodup (nodup_marked hids) ?_).2 fun id => ?_
      · cases o <;> simp
      · rw [Option.mem_toList]
        exact h id
    cases o with
    | none => exact hperm.eq_nil
    | some id => exact List.perm_singleton.1 hperm

theorem mem_held_render {l : Layout} (hids : (l.bodies.map (·.id)).Nodup) {g : Graph} {id : String} :
    id ∈ (l.render g).held ↔ id ∈ g.ids ∧ id ∈ l.held :=
  mem_marked_render (fun _ => rfl) (fun _ _ _ => rfl) hids

/-- Which bodies there are and whether they are held. -/
def grasps (l : Layout) : List (String × Bool) := l.bodies.map fun b => (b.id, b.held)

theorem held_of_grasps_eq {l l' : Layout} (h : l'.grasps = l.grasps) : l'.held = l.held := by
  have hheld (l : Layout) : l.held = (l.grasps.filter (·.2)).map (·.1) := by
    rw [grasps, List.filter_map, List.map_map]
    rfl
  rw [hheld, hheld, h]

section
variable (l : Layout)

theorem grasps_step : l.step.1.grasps = l.grasps := by
  have hgrasps (l : Layout) : l.grasps = l.still.grasps := by
    simp only [grasps, still, List.map_map]
    rfl
  rw [hgrasps, hgrasps l, still_step]

theorem target_step : l.step.1.target = l.target := by
  have htarget := congrArg Layout.target l.still_step
  exact htarget

theorem grasps_foldl_place (point : String → Point) (ids : List String) :
    (ids.foldl (fun l id => l.place id (point id)) l).grasps = l.grasps := by
  induction ids generalizing l with
  | nil => rfl
  | cons id ids ih =>
    rw [List.foldl_cons, ih]
    simp only [grasps, place, List.map_map]
    refine List.map_congr_left fun b _ => ?_
    simp only [Function.comp_apply]
    split <;> rfl

theorem target_foldl_place (point : String → Point) (ids : List String) :
    (ids.foldl (fun l id => l.place id (point id)) l).target = l.target := by
  induction ids generalizing l with
  | nil => rfl
  | cons id ids ih => rw [List.foldl_cons, ih]; rfl

theorem grasps_pin (ids : List String) : (l.pin ids).grasps = l.grasps := by
  simp only [grasps, pin, List.map_map]
  refine List.map_congr_left fun b _ => ?_
  simp only [Function.comp_apply]
  split <;> rfl

theorem grasps_unpinAll : l.unpinAll.grasps = l.grasps := by
  simp only [grasps, unpinAll, List.map_map]
  rfl

theorem grasps_moveHeld (i : Nat) (p : Point) : (l.moveHeld i p).grasps = l.grasps := by
  refine List.ext_getElem? fun j => ?_
  simp only [grasps, moveHeld, List.getElem?_map, List.getElem?_modify]
  cases l.bodies[j]? with
  | none => rfl
  | some b => by_cases hij : i = j <;> by_cases hheld : b.held = true <;> simp [hij, hheld]

end

theorem mem_held_hold {l : Layout} {i : Nat} {b : Body} (hb : l.bodies[i]? = some b) {id : String} :
    id ∈ (l.hold i).held ↔ id ∈ l.held ∨ id = b.id := by
  have hi : i < l.bodies.length := (List.getElem?_eq_some_iff.1 hb).1
  rw [hold, if_pos hi, mem_held, mem_held]
  simp only [List.getElem?_modify]
  constructor
  · rintro ⟨j, c, hc, hheld, hid⟩
    by_cases hij : i = j
    · subst hij
      simp only [hb] at hc
      obtain rfl := Option.some.inj hc
      exact .inr hid.symm
    · simp only [if_neg hij, id_map'] at hc
      exact .inl ⟨j, c, hc, hheld, hid⟩
  · rintro (⟨j, c, hc, hheld, hid⟩ | rfl)
    · by_cases hij : i = j
      · exact ⟨j, { c with held := true, vel := .zero }, by simp [hij, hc], rfl, hid⟩
      · exact ⟨j, c, by simp [hij, hc], hheld, hid⟩
    · exact ⟨i, { b with held := true, vel := .zero }, by simp [hb], rfl, rfl⟩

theorem mem_held_release {l : Layout} (hids : (l.bodies.map (·.id)).Nodup) {i : Nat} {b : Body}
    (hb : l.bodies[i]? = some b) {id : String} :
    id ∈ (l.release i).held ↔ id ∈ l.held ∧ id ≠ b.id := by
  rw [release, mem_held, mem_held]
  simp only [List.getElem?_modify]
  constructor
  · rintro ⟨j, c, hc, hheld, hid⟩
    by_cases hij : i = j
    · subst hij
      simp only [hb] at hc
      obtain rfl := Option.some.inj hc
      simp at hheld
    · simp only [if_neg hij, id_map'] at hc
      refine ⟨⟨j, c, hc, hheld, hid⟩, ?_⟩
      intro hsame
      have hi : i < (l.bodies.map (·.id)).length := by
        rw [List.length_map]
        exact (List.getElem?_eq_some_iff.1 hb).1
      refine hij ((List.getElem?_inj hi hids).1 ?_)
      rw [List.getElem?_map, List.getElem?_map, hb, hc]
      exact congrArg some (hsame.symm.trans hid.symm)
  · intro ⟨⟨j, c, hc, hheld, hid⟩, hne⟩
    have hij : i ≠ j := by
      rintro rfl
      obtain rfl := Option.some.inj (hb.symm.trans hc)
      exact hne hid.symm
    exact ⟨j, c, by simp [hij, hc], hheld, hid⟩

end Layout

end ImportAtlas
