-- SUMMARY: The shape of a tree: how its cells are numbered, filled and weighed, and what lies where.
import ImportAtlas.Proofs.Layout.Arena
import Mathlib.Data.Set.Card

/-! # The shape of a tree

A cell is in shape if it is weighed and filled as it should be and its particles lie in the parts in
which they belong. Insertion keeps it so: first the particle is counted, then a full cell is divided,
whose particles have been counted already, and then the particle is handed down. -/

namespace ImportAtlas

namespace Cell

/-- The cell of a square with a number is in shape, where `next` is the number for the next new cell. -/
inductive Shaped (next : Nat) : {room : Nat} → Square → Nat → Cell room → Prop where
  | leaf {room number : Nat} {s : Square} {w : Load} {ps : List Particle} (hnumber : number < next)
      (hcount : w.count = ps.length) (hfits : 0 < room → ps.length ≤ capacity) :
      Shaped next s number (leaf w ps : Cell room)
  | branch {room number : Nat} {s : Square} {w : Load} {first : Nat} {a b c d : Cell room}
      (hnumber : number < first) (hcount : w.count = (branch w first a b c d).particles.length)
      (hfilled : 0 < w.count)
      (hplaces : ∀ q : Quadrant, ∀ p ∈ (q.choose a b c d).particles, s.quadrant p.pos = q)
      (hparts : ∀ q : Quadrant, Shaped next (s.part q) (first + q.offset) (q.choose a b c d)) :
      Shaped next s number (branch w first a b c d)

namespace Shaped

variable {room next number : Nat} {s : Square}

theorem count_eq {c : Cell room} (h : c.Shaped next s number) : c.load.count = c.particles.length := by
  cases h with
  | leaf hnumber hcount => rw [particles_leaf]; exact hcount
  | branch hnumber hcount => exact hcount

theorem mono {c : Cell room} (h : c.Shaped next s number) {next' : Nat} (hle : next ≤ next') :
    c.Shaped next' s number := by
  induction h with
  | leaf hnumber hcount hfits => exact .leaf (Nat.lt_of_lt_of_le hnumber hle) hcount hfits
  | branch hnumber hcount hfilled hplaces hparts ih => exact .branch hnumber hcount hfilled hplaces ih

end Shaped

variable {room : Nat}

theorem count_ofList (ps : List Particle) : (Load.ofList ps).count = ps.length := by
  have h (w : Load) : (ps.foldl (fun w p => w.add p.pos) w).count = w.count + ps.length := by
    induction ps generalizing w with
    | nil => rfl
    | cons p ps ih =>
      rw [List.foldl_cons, ih, Load.count_add, List.length_cons]
      omega
  exact (h {}).trans (Nat.zero_add _)

theorem le_next_insert (p : Particle) (s : Square) (c : Cell room) (next : Nat) :
    next ≤ (insert p s c next).2 := by
  obtain ⟨k, hk, -⟩ := firsts_insert p s c next
  omega

/-- The share of one part is small if the whole is. -/
theorem shaped_leafOf {next number : Nat} (s : Square) (q : Quadrant) {ps : List Particle}
    (hnumber : number < next) (hfits : ps.length ≤ capacity) :
    (leafOf s ps q : Cell room).Shaped next (s.part q) number := by
  refine .leaf hnumber (count_ofList _) fun _ => ?_
  exact Nat.le_trans (List.length_filter_le _ ps) hfits

theorem choose_leafOf (s : Square) (ps : List Particle) (q : Quadrant) :
    q.choose (leafOf s ps .upperLeft) (leafOf s ps .upperRight) (leafOf s ps .lowerLeft)
        (leafOf s ps .lowerRight) = (leafOf s ps q : Cell room) :=
  Quadrant.choose_apply (leafOf s ps) q

/-- A full cell is in shape once it is divided. -/
theorem shaped_divided {next number : Nat} {s : Square} {w : Load} {ps : List Particle}
    (hnumber : number < next) (hcount : w.count = ps.length) (hfull : ps.length = capacity) :
    (divided s w ps next : Cell (room + 1)).Shaped (next + 4) s number := by
  refine .branch hnumber ?_ ?_ ?_ ?_
  · exact hcount.trans (particles_divided s w ps next).length_eq.symm
  · rw [hcount, hfull]
    decide
  · intro q p hp
    rw [choose_leafOf, leafOf, particles_leaf] at hp
    exact of_decide_eq_true (List.mem_filter.1 hp).2
  · intro q
    rw [choose_leafOf]
    have hq := q.offset_lt
    exact shaped_leafOf s q (by omega) (Nat.le_of_eq hfull)

/-- The parts of a divided cell after a particle was handed down. -/
def handDown (p : Particle) (s : Square) (a b c d : Cell room) (next : Nat) (r : Quadrant) : Cell room :=
  if r = s.quadrant p.pos then
    (insert p (s.part (s.quadrant p.pos)) ((s.quadrant p.pos).choose a b c d) next).1
  else r.choose a b c d

section
variable (p : Particle) (s : Square) (w : Load) (first : Nat) (a b c d : Cell room) (next : Nat)

theorem insert_branch_eq :
    insert p s (branch w first a b c d) next =
      (branch (w.add p.pos) first (handDown p s a b c d next .upperLeft)
          (handDown p s a b c d next .upperRight) (handDown p s a b c d next .lowerLeft)
          (handDown p s a b c d next .lowerRight),
        (insert p (s.part (s.quadrant p.pos)) ((s.quadrant p.pos).choose a b c d) next).2) :=
  insert_branch p s w first a b c d next

theorem choose_handDown (q : Quadrant) :
    q.choose (handDown p s a b c d next .upperLeft) (handDown p s a b c d next .upperRight)
        (handDown p s a b c d next .lowerLeft) (handDown p s a b c d next .lowerRight) =
      handDown p s a b c d next q :=
  Quadrant.choose_apply (handDown p s a b c d next) q

theorem handDown_self :
    handDown p s a b c d next (s.quadrant p.pos) =
      (insert p (s.part (s.quadrant p.pos)) ((s.quadrant p.pos).choose a b c d) next).1 :=
  if_pos rfl

end

theorem handDown_of_ne {p : Particle} {s : Square} (a b c d : Cell room) (next : Nat) {r : Quadrant}
    (h : r ≠ s.quadrant p.pos) : handDown p s a b c d next r = r.choose a b c d :=
  if_neg h

/-- A particle that is handed down leaves the whole in shape. -/
theorem Shaped.insert_branch {next number : Nat} {s : Square} {w : Load} {first : Nat}
    {a b c d : Cell room} {p : Particle} (h : (Cell.branch w first a b c d).Shaped next s number)
    (hpart : ∀ q : Quadrant, ((q.choose a b c d).insert p (s.part q) next).1.Shaped
      ((q.choose a b c d).insert p (s.part q) next).2 (s.part q) (first + q.offset)) :
    ((Cell.branch w first a b c d).insert p s next).1.Shaped
      ((Cell.branch w first a b c d).insert p s next).2 s number := by
  have hcount := (particles_insert p s (Cell.branch w first a b c d) next).length_eq
  have hle := le_next_insert p s (Cell.branch w first a b c d) next
  rw [insert_branch_eq] at hcount hle ⊢
  cases h with
  | branch hnumber hcount' hfilled hplaces hparts =>
    refine .branch hnumber ?_ (Nat.succ_pos _) ?_ ?_
    · rw [Load.count_add, hcount']
      exact hcount.symm
    · intro q x hx
      rw [choose_handDown] at hx
      by_cases hq : q = s.quadrant p.pos
      · subst hq
        rw [handDown_self] at hx
        rcases List.mem_cons.1 ((particles_insert p _ _ next).mem_iff.1 hx) with rfl | hx
        · rfl
        · exact hplaces _ x hx
      · rw [handDown_of_ne a b c d next hq] at hx
        exact hplaces q x hx
    · intro q
      rw [choose_handDown]
      by_cases hq : q = s.quadrant p.pos
      · subst hq
        rw [handDown_self]
        exact hpart _
      · rw [handDown_of_ne a b c d next hq]
        exact (hparts q).mono hle

/-- Insertion keeps a cell in shape. -/
theorem Shaped.insert {next number : Nat} {s : Square} {c : Cell room} (h : c.Shaped next s number)
    (p : Particle) : (c.insert p s next).1.Shaped (c.insert p s next).2 s number := by
  induction room generalizing s next number with
  | zero =>
    cases h with
    | leaf hnumber hcount hfits =>
      rw [Cell.insert]
      exact .leaf hnumber (by simp [hcount]) (fun hroom => absurd hroom (Nat.lt_irrefl 0))
  | succ room ih =>
    cases h with
    | @leaf _ _ _ w ps hnumber hcount hfits =>
      have hfits := hfits (Nat.succ_pos room)
      by_cases hroom : ps.length < capacity
      · rw [Cell.insert, if_pos hroom]
        refine .leaf hnumber (by simp [hcount]) fun _ => ?_
        rw [List.length_append, List.length_singleton]
        exact hroom
      · rw [insert_full p s w next hroom]
        have hdivided : (divided s w ps next : Cell (room + 1)).Shaped (next + 4) s number :=
          shaped_divided hnumber hcount (by omega)
        refine hdivided.insert_branch fun q => ih ?_
        cases hdivided with
        | branch hnumber hcount hfilled hplaces hparts => exact hparts q
    | branch hnumber hcount hfilled hplaces hparts =>
      exact (Shaped.branch hnumber hcount hfilled hplaces hparts).insert_branch fun q => ih (hparts q)

/-! ## Parts -/

/-- Each record is that of a cell in shape, which is a part of the whole. -/
theorem Shaped.exists_part {next number depth : Nat} {s : Square} {c : Cell room}
    (h : c.Shaped next s number) {r : CellRecord} (hr : r ∈ c.records number depth s) :
    ∃ (room' : Nat) (part : Cell room'), part.Shaped next r.square r.number ∧
      part.record r.number r.depth r.square = r ∧
      (part.records r.number r.depth r.square).Sublist (c.records number depth s) ∧
      r.depth + room' = depth + room := by
  induction h generalizing depth with
  | @leaf room number s w ps hnumber hcount hfits =>
    rw [records_leaf, List.mem_singleton] at hr
    subst hr
    exact ⟨room, Cell.leaf w ps, .leaf hnumber hcount hfits, rfl, .refl _, rfl⟩
  | @branch room number s w first a b c d hnumber hcount hfilled hplaces hparts ih =>
    rcases mem_records_branch.1 hr with rfl | ⟨q, hr⟩
    · exact ⟨room + 1, .branch w first a b c d, .branch hnumber hcount hfilled hplaces hparts, rfl,
        .refl _, rfl⟩
    · obtain ⟨room', part, hshaped, hrecord, hsub, hdepth⟩ := ih q hr
      refine ⟨room', part, hshaped, hrecord, ?_, by omega⟩
      rw [records_branch]
      apply List.Sublist.cons
      exact hsub.trans (Quadrant.sublist_gather
        (fun q => (q.choose a b c d).records (first + q.offset) (depth + 1) (s.part q)) q)

/-- The numbers of the first parts are those that the records name. -/
theorem flatMap_first_records (number depth : Nat) (s : Square) (c : Cell room) :
    (c.records number depth s).flatMap (·.first.toList) = c.firsts := by
  induction c using partsInduction generalizing number depth s with
  | leaf w ps => rw [records_leaf, firsts]; rfl
  | branch w first a b c d ih =>
    rw [records_branch, List.flatMap_cons, Quadrant.flatMap_gather]
    simp only [ih]
    rfl

end Cell

/-- Lists without a common element tell what they belong to. -/
theorem eq_of_mem_of_nodup_flatMap {α β : Type} {l : List α} {f : α → List β}
    (h : (l.flatMap f).Nodup) {a a' : α} (ha : a ∈ l) (ha' : a' ∈ l) {x : β} (hx : x ∈ f a)
    (hx' : x ∈ f a') : a = a' := by
  by_contra hne
  have hsymm : Std.Symm (Function.onFun List.Disjoint f) := ⟨fun _ _ hab => hab.symm⟩
  have hdisjoint : (f a).Disjoint (f a') := (List.nodup_flatMap.1 h).2.forall ha ha' hne
  exact hdisjoint hx hx'

namespace Quadtree

/-- A tree that has grown is in shape. -/
theorem shaped_grow (square : Square) (ps : List Particle) :
    (grow square ps).root.Shaped (grow square ps).size (grow square ps).square 0 := by
  induction ps using List.reverseRecOn with
  | nil => exact .leaf Nat.one_pos rfl fun _ => Nat.zero_le _
  | append_singleton ps p ih =>
    rw [grow_concat]
    exact ih.insert p

theorem square_grow (square : Square) (ps : List Particle) : (grow square ps).square = square := by
  induction ps using List.reverseRecOn with
  | nil => rfl
  | append_singleton ps p ih =>
    rw [grow_concat]
    exact ih

/-! ## The cells of a tree -/

section
variable {square : Square} {ps : List Particle} {k : Nat} {r : CellRecord}

/-- At each number stands the record of a cell in shape, which the arena holds. -/
theorem exists_part_of_getElem? (hr : (grow square ps).cells[k]? = some r) :
    ∃ (room : Nat) (part : Cell room), part.Shaped (grow square ps).size r.square k ∧
      part.record k r.depth r.square = r ∧ Arena.Holds (grow square ps).cells k r.depth r.square part ∧
      part.particles.Sublist (grow square ps).root.particles ∧ r.depth + room = 12 := by
  obtain ⟨hmem, rfl⟩ := getElem?_cells_iff.1 hr
  obtain ⟨room, part, hshaped, hrecord, hsub, hdepth⟩ := (shaped_grow square ps).exists_part hmem
  refine ⟨room, part, hshaped, hrecord, ?_, ?_, by omega⟩
  · intro r' hr'
    exact holds_cells square ps r' (hsub.subset hr')
  · rw [← part.flatMap_particles_records r.number r.depth r.square,
      ← (grow square ps).root.flatMap_particles_records 0 0 (grow square ps).square]
    exact hsub.flatMap _

theorem depth_le (hr : r ∈ (grow square ps).cells) : r.depth ≤ 12 := by
  obtain ⟨k, hk⟩ := List.mem_iff_getElem?.1 hr
  obtain ⟨room, part, -, -, -, -, hdepth⟩ := exists_part_of_getElem? hk
  omega

theorem length_particles_le (hr : r ∈ (grow square ps).cells) (hfirst : r.first = none)
    (hdepth : r.depth < 12) : r.particles.length ≤ Cell.capacity := by
  obtain ⟨k, hk⟩ := List.mem_iff_getElem?.1 hr
  obtain ⟨room, part, hshaped, hrecord, -, -, hroom⟩ := exists_part_of_getElem? hk
  cases hshaped with
  | leaf hnumber hcount hfits =>
    rw [← hrecord]
    exact hfits (by omega)
  | branch hnumber =>
    rw [← hrecord] at hfirst
    simp [Cell.record] at hfirst

section
variable {first : Nat} (hr : (grow square ps).cells[k]? = some r) (hfirst : r.first = some first)
include hr hfirst

/-- A cell that names a first part is divided. -/
theorem exists_branch_of_first :
    ∃ (room : Nat) (w : Load) (a b c d : Cell room),
      (Cell.branch w first a b c d).Shaped (grow square ps).size r.square k ∧
      (Cell.branch w first a b c d).record k r.depth r.square = r ∧
      Arena.Holds (grow square ps).cells k r.depth r.square (.branch w first a b c d) ∧
      (Cell.branch w first a b c d).particles.Sublist (grow square ps).root.particles := by
  obtain ⟨room, part, hshaped, hrecord, hholds, hsub, -⟩ := exists_part_of_getElem? hr
  cases part with
  | leaf w ps =>
    rw [← hrecord] at hfirst
    simp [Cell.record] at hfirst
  | branch w first' a b c d =>
    rw [← hrecord] at hfirst
    obtain rfl := Option.some.inj hfirst
    exact ⟨_, w, a, b, c, d, hshaped, hrecord, hholds, hsub⟩

theorem particles_of_first : r.particles = [] := by
  obtain ⟨room, w, a, b, c, d, -, hrecord, -⟩ := exists_branch_of_first hr hfirst
  rw [← hrecord]
  rfl

/-- The parts of a divided cell stand behind it, one level deeper. -/
theorem exists_part_of_first (q : Quadrant) :
    k < first + q.offset ∧ ∃ r', (grow square ps).cells[first + q.offset]? = some r' ∧
      r'.depth = r.depth + 1 ∧ r'.square = r.square.part q := by
  obtain ⟨room, w, a, b, c, d, hshaped, -, hholds, -⟩ := exists_branch_of_first hr hfirst
  refine ⟨?_, _, (hholds.part q).self, ?_⟩
  · cases hshaped with
    | branch hnumber => omega
  · cases q.choose a b c d <;> exact ⟨rfl, rfl⟩

/-- What is kept in a part lies in that part. -/
theorem quadrant_of_mem_bodies {q : Quadrant} {b : Nat}
    (hb : b ∈ Arena.bodies (grow square ps).cells (first + q.offset)) :
    ∃ p ∈ (grow square ps).root.particles, p.index = b ∧ r.square.quadrant p.pos = q := by
  obtain ⟨room, w, a, b, c, d, hshaped, -, hholds, hsub⟩ := exists_branch_of_first hr hfirst
  obtain ⟨p, hp, rfl⟩ := List.mem_map.1 ((hholds.part q).mem_bodies.1 hb)
  refine ⟨p, hsub.subset ?_, rfl, ?_⟩
  · rw [Cell.particles_branch]
    exact Quadrant.mem_gather.2 ⟨q, hp⟩
  · cases hshaped with
    | branch hnumber hcount hfilled hplaces => exact hplaces q p hp

end

/-- A cell is a part of one other cell at most, and one of its parts only. -/
theorem eq_of_part_eq {k' first first' : Nat} {r' : CellRecord}
    (hr : (grow square ps).cells[k]? = some r) (hfirst : r.first = some first)
    (hr' : (grow square ps).cells[k']? = some r') (hfirst' : r'.first = some first') {q q' : Quadrant}
    (h : first + q.offset = first' + q'.offset) : k = k' ∧ q = q' := by
  have hfours : (((grow square ps).root.records 0 0 (grow square ps).square).flatMap fun r =>
      r.first.toList.flatMap fun f => Quadrant.gather fun q => [f + q.offset]).Nodup := by
    have hnumbers := (Cell.numbers_records (grow square ps).root).nodup_iff.1 (nodup_numbers square ps)
    rw [← Cell.flatMap_first_records 0 0 (grow square ps).square, List.flatMap_assoc] at hnumbers
    exact (List.nodup_cons.1 hnumbers).2
  obtain ⟨hmem, rfl⟩ := getElem?_cells_iff.1 hr
  obtain ⟨hmem', rfl⟩ := getElem?_cells_iff.1 hr'
  have hpart {r : CellRecord} {first : Nat} (hfirst : r.first = some first) (q : Quadrant) :
      first + q.offset ∈ r.first.toList.flatMap fun f => Quadrant.gather fun q => [f + q.offset] := by
    rw [hfirst, Option.toList_some, List.flatMap_singleton, Quadrant.mem_gather]
    exact ⟨q, List.mem_singleton_self _⟩
  obtain rfl := eq_of_mem_of_nodup_flatMap hfours hmem hmem' (hpart hfirst q) (h ▸ hpart hfirst' q')
  obtain rfl := Option.some.inj (hfirst.symm.trans hfirst')
  exact ⟨rfl, Quadrant.offset_inj (by omega)⟩

end

/-! ## The particles of a tree -/

section
variable {ps : List Particle} (hps : (ps.map (·.index)).Nodup)
include hps

theorem nodup_index_root (square : Square) : ((grow square ps).root.particles.map (·.index)).Nodup :=
  ((particles_grow square ps).map _).nodup_iff.2 hps

/-- Each particle is kept in one cell only. -/
theorem existsUnique_keeps (square : Square) {p : Particle} (hp : p ∈ ps) :
    ∃! k, Arena.Keeps (grow square ps).cells k p.index := by
  have hnodup := nodup_index_root hps square
  rw [← (grow square ps).root.flatMap_particles_records 0 0 (grow square ps).square,
    List.map_flatMap] at hnodup
  have hroot : p ∈ (grow square ps).root.particles := (particles_grow square ps).mem_iff.2 hp
  obtain ⟨r, hr, hmem⟩ := Cell.mem_particles_iff.1 hroot
  refine ⟨r.number, ⟨r, holds_cells square ps r hr, p, hmem, rfl⟩, ?_⟩
  rintro k ⟨r', hr', p', hp', hindex⟩
  obtain ⟨hmem', rfl⟩ := getElem?_cells_iff.1 hr'
  have heq : r' = r := eq_of_mem_of_nodup_flatMap hnodup hmem' hr
    (hindex ▸ List.mem_map_of_mem hp') (List.mem_map_of_mem hmem)
  rw [heq]

/-- A cell was counted up once for each particle that is kept in it or below it. -/
theorem ncard_bodies {square : Square} {k : Nat} {r : CellRecord}
    (hr : (grow square ps).cells[k]? = some r) :
    (Arena.bodies (grow square ps).cells k).ncard = r.load.count := by
  obtain ⟨room, part, hshaped, hrecord, hholds, hsub, -⟩ := exists_part_of_getElem? hr
  have hnodup : (part.particles.map (·.index)).Nodup :=
    (hsub.map _).nodup (nodup_index_root hps square)
  have hset : Arena.bodies (grow square ps).cells k = ↑(part.particles.map (·.index)).toFinset := by
    ext b
    rw [hholds.mem_bodies, List.coe_toFinset]
    rfl
  rw [hset, Set.ncard_coe_finset, List.toFinset_card_of_nodup hnodup, List.length_map,
    ← hshaped.count_eq, ← hrecord, Cell.load_record]

end

end Quadtree

end ImportAtlas
