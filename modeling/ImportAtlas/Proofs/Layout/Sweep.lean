-- SUMMARY: The sum of charges as a walk over the arena of a tree, with each particle accounted for once.
import ImportAtlas.Proofs.Geometry.Signs
import ImportAtlas.Proofs.Layout.Descent

/-! # Sweeps

The force on a particle is summed up by a walk over the arena of a tree, with the numbers of the cells
that are still to be looked at on a stack. A cell without mass is left out; a leaf counts with each of
its particles but the one that is acted on; a divided cell counts as one charge if it is far away, and
otherwise its parts are put on the stack. The cells that count have each particle of the tree in them or
below them, in one of them only. If no divided cell is far away, which is so for a theta of zero, the sum
is that of the charges of all other particles, each once. -/

namespace ImportAtlas

/-! ## The walk -/

/-- Add the charge of another particle to the force on a particle. -/
def Particle.pull (p : Particle) (strength : Float32) (force : Point) (q : Particle) : Point :=
  force + charge p.pos q.pos strength p.index

namespace CellRecord

/-- Whether a cell counts as one charge for a point. -/
def isFar (theta : Float32) (p : Point) (r : CellRecord) : Bool :=
  !r.square.contains p && r.square.side < theta * Point.length (r.load.center - p)

/-- The particles that are kept in a cell, without the one that is acted on. -/
def others (p : Particle) (r : CellRecord) : List Particle :=
  r.particles.filter fun q => q.index ≠ p.index

/-- Add what a cell contributes to the force on a particle. -/
def exert (p : Particle) (strength : Float32) (force : Point) (r : CellRecord) : Point :=
  match r.first with
  | none => (r.others p).foldl (p.pull strength) force
  | some _ => force + charge p.pos r.load.center (strength * r.load.mass) p.index

end CellRecord

/-- How far the walk has come: the numbers that are still to be looked at, the force so far, and the
numbers of the cells that have counted. -/
structure Sweep where
  stack : List Nat
  force : Point
  met : List Nat

namespace Arena

/-- One round of the walk. It fails if there is no cell with the number. -/
def sweep (A : Arena) (p : Particle) (strength theta : Float32) (w : Sweep) : Option (Sweep ⊕ Sweep) :=
  match w.stack with
  | [] => some (.inr w)
  | k :: stack =>
    A[k]?.map fun r =>
      let halt : Sweep := ⟨stack, r.exert p strength w.force, w.met ++ [k]⟩
      if r.load.mass ≤ 0 then .inl { w with stack }
      else
        match r.first with
        | none => .inl halt
        | some first =>
          if r.isFar theta p.pos then .inl halt
          else .inl { w with stack := [first + 3, first + 2, first + 1, first] ++ stack }

section
variable {A : Arena} {k : Nat} {r : CellRecord} (hr : A[k]? = some r) (p : Particle)
  (strength : Float32) {theta : Float32} (stack : List Nat) (force : Point) (met : List Nat)
include hr

theorem sweep_of_light (hmass : r.load.mass ≤ 0) :
    A.sweep p strength theta ⟨k :: stack, force, met⟩ = some (.inl ⟨stack, force, met⟩) := by
  simp [sweep, hr, hmass]

theorem sweep_of_halt (hmass : ¬ r.load.mass ≤ 0)
    (hhalt : r.first = none ∨ r.isFar theta p.pos = true) :
    A.sweep p strength theta ⟨k :: stack, force, met⟩ =
      some (.inl ⟨stack, r.exert p strength force, met ++ [k]⟩) := by
  cases hfirst : r.first with
  | none => simp [sweep, hr, hmass, hfirst]
  | some first =>
    have hfar : r.isFar theta p.pos = true := by simpa [hfirst] using hhalt
    simp [sweep, hr, hmass, hfirst, hfar]

theorem sweep_of_near {first : Nat} (hmass : ¬ r.load.mass ≤ 0) (hfirst : r.first = some first)
    (hnear : r.isFar theta p.pos = false) :
    A.sweep p strength theta ⟨k :: stack, force, met⟩ =
      some (.inl ⟨[first + 3, first + 2, first + 1, first] ++ stack, force, met⟩) := by
  simp [sweep, hr, hmass, hfirst, hnear]

end

end Arena

/-! ## Where the walk halts -/

namespace Quadrant

variable {α β : Type}

/-- What the four parts of a square hold together, from the last to the first. -/
def unwind (f : Quadrant → List α) : List α :=
  f .lowerRight ++ f .lowerLeft ++ f .upperRight ++ f .upperLeft

theorem unwind_perm (f : Quadrant → List α) : (unwind f).Perm (gather f) := by
  have hunwind : unwind f = all.reverse.flatMap f := by simp [unwind, all]
  rw [hunwind, gather_eq_flatMap]
  exact all.reverse_perm.flatMap_right f

theorem mem_unwind {f : Quadrant → List α} {x : α} : x ∈ unwind f ↔ ∃ q, x ∈ f q :=
  (unwind_perm f).mem_iff.trans mem_gather

theorem map_unwind (k : α → β) (f : Quadrant → List α) :
    (unwind f).map k = unwind fun q => (f q).map k := by
  simp [unwind]

end Quadrant

namespace Cell

variable {room : Nat}

/-- The records of the cells at which the walk halts, in order. -/
def halts {room : Nat} (theta : Float32) (p : Point) (number depth : Nat) (s : Square) :
    Cell room → List CellRecord
  | leaf w ps => if w.mass ≤ 0 then [] else [⟨number, s, depth, w, ps, none⟩]
  | branch w first a b c d =>
    if w.mass ≤ 0 then []
    else if CellRecord.isFar theta p ⟨number, s, depth, w, [], some first⟩ then
      [⟨number, s, depth, w, [], some first⟩]
    else
      d.halts theta p (first + 3) (depth + 1) (s.part .lowerRight) ++
        c.halts theta p (first + 2) (depth + 1) (s.part .lowerLeft) ++
        b.halts theta p (first + 1) (depth + 1) (s.part .upperRight) ++
        a.halts theta p first (depth + 1) (s.part .upperLeft)

section
variable (theta : Float32) (p : Point) (number depth : Nat) (s : Square)

theorem halts_leaf (w : Load) (ps : List Particle) :
    (leaf w ps : Cell room).halts theta p number depth s =
      if w.mass ≤ 0 then [] else [(leaf w ps : Cell room).record number depth s] := by
  rw [halts, record]

theorem halts_branch (w : Load) (first : Nat) (a b c d : Cell room) :
    (branch w first a b c d).halts theta p number depth s =
      if w.mass ≤ 0 then []
      else if ((branch w first a b c d).record number depth s).isFar theta p then
        [(branch w first a b c d).record number depth s]
      else Quadrant.unwind fun q =>
        (q.choose a b c d).halts theta p (first + q.offset) (depth + 1) (s.part q) := rfl

/-- The walk halts at each cell once at most. -/
theorem halts_subperm (c : Cell room) :
    (c.halts theta p number depth s).Subperm (c.records number depth s) := by
  induction c using partsInduction generalizing number depth s with
  | leaf w ps =>
    rw [halts_leaf, records_leaf]
    split
    · exact List.nil_subperm
    · exact .refl _
  | branch w first a b c d ih =>
    rw [halts_branch, records_branch]
    split
    · exact List.nil_subperm
    · split
      · exact List.singleton_subperm_iff.2 List.mem_cons_self
      · apply List.Subperm.cons_right
        apply (Quadrant.unwind_perm _).subperm.trans
        exact (((ih .upperLeft _ _ _).append (ih .upperRight _ _ _)).append (ih .lowerLeft _ _ _)).append
          (ih .lowerRight _ _ _)

end

section
variable {theta : Float32} {p : Point} {number depth : Nat} {s : Square}

/-- The walk halts at leaves and at cells that are far away. -/
theorem isFar_of_mem_halts {c : Cell room} {r : CellRecord} (hr : r ∈ c.halts theta p number depth s) :
    r.first = none ∨ r.isFar theta p = true := by
  induction c using partsInduction generalizing number depth s with
  | leaf w ps =>
    rw [halts_leaf] at hr
    split at hr
    · exact absurd hr List.not_mem_nil
    · rw [List.mem_singleton] at hr
      subst hr
      exact .inl rfl
  | branch w first a b c d ih =>
    rw [halts_branch] at hr
    split at hr
    · exact absurd hr List.not_mem_nil
    · split at hr
      next hfar =>
        rw [List.mem_singleton] at hr
        subst hr
        exact .inr hfar
      next =>
        obtain ⟨q, hr⟩ := Quadrant.mem_unwind.1 hr
        exact ih q hr

end

end Cell

/-! ## The walk past a cell -/

namespace Arena

variable {room : Nat} {A : Arena} {number depth : Nat} {s : Square} {p : Particle}
  {strength theta : Float32}

/-- The walk gets past numbers on top of the stack in a number of rounds and halts at some cells. -/
def Passes (A : Arena) (p : Particle) (strength theta : Float32) (m : Nat) (ks : List Nat)
    (rs : List CellRecord) : Prop :=
  ∀ (n : Nat) (stack : List Nat) (force : Point) (met : List Nat) (w : Sweep),
    Ends (A.sweep p strength theta) n
      ⟨stack, rs.foldl (CellRecord.exert p strength) force, met ++ rs.map (·.number)⟩ w →
    Ends (A.sweep p strength theta) (n + m) ⟨ks ++ stack, force, met⟩ w

theorem Passes.append {m m' : Nat} {ks ks' : List Nat} {rs rs' : List CellRecord}
    (h : A.Passes p strength theta m ks rs) (h' : A.Passes p strength theta m' ks' rs') :
    A.Passes p strength theta (m + m') (ks ++ ks') (rs ++ rs') := by
  intro n stack force met w hends
  have hrest : Ends (A.sweep p strength theta) (n + m')
      ⟨ks' ++ stack, rs.foldl (CellRecord.exert p strength) force, met ++ rs.map (·.number)⟩ w := by
    apply h'
    rwa [List.foldl_append, List.map_append, ← List.append_assoc] at hends
  rw [List.append_assoc, Nat.add_comm m m', ← Nat.add_assoc]
  exact h _ _ _ _ _ hrest

section
variable {c : Cell room} (h : A.Holds number depth s c)
include h

theorem passes_of_light (hmass : c.load.mass ≤ 0) : A.Passes p strength theta 1 [number] [] := by
  intro n stack force met w hends
  rw [List.map_nil, List.append_nil] at hends
  refine .next (sweep_of_light h.self p strength stack force met ?_) hends
  rwa [Cell.load_record]

theorem passes_of_halt (hmass : ¬ c.load.mass ≤ 0) (hhalt : (c.record number depth s).first = none ∨
    (c.record number depth s).isFar theta p.pos = true) :
    A.Passes p strength theta 1 [number] [c.record number depth s] := by
  intro n stack force met w hends
  rw [List.map_singleton, Cell.number_record] at hends
  refine .next (sweep_of_halt h.self p strength stack force met ?_ hhalt) hends
  rwa [Cell.load_record]

end

/-- The walk gets past a cell that the arena holds, with one round for each of its records at most. -/
theorem exists_passes {c : Cell room} (h : A.Holds number depth s c) (p : Particle)
    (strength theta : Float32) :
    ∃ m ≤ (c.records number depth s).length,
      A.Passes p strength theta m [number] (c.halts theta p.pos number depth s) := by
  induction c using Cell.partsInduction generalizing number depth s with
  | leaf w ps =>
    rw [Cell.halts_leaf, Cell.records_leaf]
    refine ⟨1, Nat.le_refl 1, ?_⟩
    split
    next hmass => exact passes_of_light h hmass
    next hmass => exact passes_of_halt h hmass (.inl rfl)
  | branch w first a b c d ih =>
    rw [Cell.halts_branch, Cell.records_branch, List.length_cons]
    split
    next hmass => exact ⟨1, by omega, passes_of_light h hmass⟩
    next hmass =>
      split
      next hfar => exact ⟨1, by omega, passes_of_halt h hmass (.inr hfar)⟩
      next hnear =>
        obtain ⟨m₁, hm₁, h₁⟩ := ih .upperLeft (h.part .upperLeft)
        obtain ⟨m₂, hm₂, h₂⟩ := ih .upperRight (h.part .upperRight)
        obtain ⟨m₃, hm₃, h₃⟩ := ih .lowerLeft (h.part .lowerLeft)
        obtain ⟨m₄, hm₄, h₄⟩ := ih .lowerRight (h.part .lowerRight)
        refine ⟨m₄ + m₃ + m₂ + m₁ + 1, ?_, ?_⟩
        · simp only [Quadrant.gather, List.length_append]
          omega
        · intro n stack force met w' hends
          have hround := sweep_of_near h.self p strength stack force met hmass rfl
            (Bool.eq_false_iff.2 hnear)
          exact .next hround ((((h₄.append h₃).append h₂).append h₁) n stack force met w' hends)

end Arena

/-! ## What the cells account for -/

theorem Load.not_mass_le_zero {w : Load} (h : 0 < w.count) : ¬ w.mass ≤ 0 :=
  Single.not_ofNat_le_zero (Nat.lt_min.2 ⟨h, by decide⟩)

namespace Arena

variable {A : Arena}

theorem Below.trans {i j k : Nat} (h : A.Below i j) (h' : A.Below j k) : A.Below i k := by
  induction h with
  | self => exact h'
  | part q hr hfirst _ ih => exact .part q hr hfirst (ih h')

theorem bodies_subset {k j : Nat} (h : A.Below k j) : A.bodies j ⊆ A.bodies k := by
  rintro b ⟨i, hbelow, hkeeps⟩
  exact ⟨i, h.trans hbelow, hkeeps⟩

theorem existsUnique_of_mem_bodies {k b : Nat} (h : b ∈ A.bodies k) :
    ∃! j, j ∈ [k] ∧ b ∈ A.bodies j := by
  refine ⟨k, ⟨List.mem_singleton_self k, h⟩, ?_⟩
  rintro j ⟨hj, -⟩
  exact List.mem_singleton.1 hj

end Arena

namespace Cell

section
variable {room : Nat}

theorem stops_leaf (theta : Float32) (p : Point) (s : Square) (w : Load) (ps : List Particle) :
    (leaf w ps : Cell room).stops theta p s = [⟨room, leaf w ps⟩] := by
  rw [stops]

theorem stops_branch (theta : Float32) (p : Point) (number depth : Nat) (s : Square) (w : Load)
    (first : Nat) (a b c d : Cell room) :
    (branch w first a b c d).stops theta p s =
      if ((branch w first a b c d).record number depth s).isFar theta p then
        [⟨room + 1, branch w first a b c d⟩]
      else Quadrant.unwind fun q => (q.choose a b c d).stops theta p (s.part q) := rfl

theorem add_eq_exert (p : Particle) (strength : Float32) (force : Point) (number depth : Nat)
    (s : Square) (c : Cell room) :
    Stop.add p strength force ⟨room, c⟩ = (c.record number depth s).exert p strength force := by
  cases c with
  | leaf w ps =>
    simp only [Stop.add, record, CellRecord.exert, CellRecord.others, List.foldl_filter, Particle.pull,
      decide_eq_true_eq, ne_eq, ite_not]
  | branch w first a b c d => rfl

theorem eq_nil_of_light {w : Load} {ps : List Particle} (hcount : w.count = ps.length)
    (hmass : w.mass ≤ 0) : ps = [] := by
  rw [← List.length_eq_zero_iff, ← hcount]
  by_contra hne
  exact Load.not_mass_le_zero (Nat.pos_of_ne_zero hne) hmass

end

variable {room next number depth : Nat} {s : Square} {c : Cell room}

/-- Each particle is in one of the cells that count, or below it. -/
theorem Shaped.existsUnique_halt (hshaped : c.Shaped next s number) {A : Arena}
    (h : A.Holds number depth s c) (hnodup : (c.particles.map (·.index)).Nodup) (theta : Float32)
    (p : Point) {b : Nat} (hb : b ∈ c.particles.map (·.index)) :
    ∃! k, k ∈ (c.halts theta p number depth s).map (·.number) ∧ b ∈ A.bodies k := by
  have hwhole : b ∈ A.bodies number := h.mem_bodies.2 hb
  induction hshaped generalizing depth with
  | @leaf room number s w ps hnumber hcount hfits =>
    have hmass : ¬ w.mass ≤ 0 := by
      apply Load.not_mass_le_zero
      rw [particles_leaf] at hb
      rw [hcount, ← List.length_map (f := (·.index))]
      exact List.length_pos_of_mem hb
    rw [halts_leaf, if_neg hmass, List.map_singleton, number_record]
    exact Arena.existsUnique_of_mem_bodies hwhole
  | @branch room number s w first a b' c d hnumber hcount hfilled hplaces hparts ih =>
    rw [halts_branch, if_neg (Load.not_mass_le_zero hfilled)]
    split
    · rw [List.map_singleton, number_record]
      exact Arena.existsUnique_of_mem_bodies hwhole
    · rw [particles_branch, Quadrant.map_gather] at hb hnodup
      rw [Quadrant.map_unwind]
      obtain ⟨q, hq⟩ := Quadrant.mem_gather.1 hb
      obtain ⟨k, ⟨hk, hkb⟩, hunique⟩ := ih q (h.part q) ((Quadrant.sublist_gather _ q).nodup hnodup) hq
        ((h.part q).mem_bodies.2 hq)
      refine ⟨k, ⟨Quadrant.mem_unwind.2 ⟨q, hk⟩, hkb⟩, ?_⟩
      rintro k' ⟨hk', hkb'⟩
      obtain ⟨q', hk'⟩ := Quadrant.mem_unwind.1 hk'
      -- what is below a cell in a part is below that part, and the parts have no particle in common
      have hpart : b ∈ A.bodies (first + q'.offset) := by
        obtain ⟨r, hr, rfl⟩ := List.mem_map.1 hk'
        exact Arena.bodies_subset ((h.part q').below_iff.2 ⟨r, (halts_subperm ..).subset hr, rfl⟩) hkb'
      rw [Quadrant.gather_eq_flatMap] at hnodup
      obtain rfl := eq_of_mem_of_nodup_flatMap hnodup q'.mem_all q.mem_all
        ((h.part q').mem_bodies.1 hpart) hq
      exact hunique k' ⟨hk', hkb'⟩

/-- The cells that count add up to the force. -/
theorem Shaped.foldl_stops (hshaped : c.Shaped next s number) (depth : Nat) (p : Particle)
    (strength theta : Float32) (force : Point) :
    (c.stops theta p.pos s).foldl (Stop.add p strength) force =
      (c.halts theta p.pos number depth s).foldl (CellRecord.exert p strength) force := by
  induction hshaped generalizing depth force with
  | @leaf room number s w ps hnumber hcount hfits =>
    rw [stops_leaf, halts_leaf, List.foldl_cons, List.foldl_nil,
      add_eq_exert p strength force number depth s]
    split
    next hmass =>
      obtain rfl := eq_nil_of_light hcount hmass
      rfl
    next => rfl
  | @branch room number s w first a b c d hnumber hcount hfilled hplaces hparts ih =>
    rw [stops_branch theta p.pos number depth, halts_branch, if_neg (Load.not_mass_le_zero hfilled)]
    split
    next hfar => exact add_eq_exert p strength force number depth s (Cell.branch w first a b c d)
    next hnear =>
      simp only [Quadrant.unwind, List.foldl_append]
      rw [ih .lowerRight (depth + 1), ih .lowerLeft (depth + 1), ih .upperRight (depth + 1),
        ih .upperLeft (depth + 1)]

/-- If no divided cell is far away, each leaf with a particle counts. -/
theorem Shaped.flatMap_halts (hshaped : c.Shaped next s number) {theta : Float32} {p : Point}
    (hnear : ∀ r ∈ c.records number depth s, r.first ≠ none → r.isFar theta p = false) :
    ((c.halts theta p number depth s).flatMap (·.particles)).Perm c.particles := by
  induction hshaped generalizing depth with
  | @leaf room number s w ps hnumber hcount hfits =>
    rw [halts_leaf, particles_leaf]
    split
    next hmass =>
      obtain rfl := eq_nil_of_light hcount hmass
      exact .refl _
    next =>
      rw [List.flatMap_singleton]
      exact .refl _
  | @branch room number s w first a b c d hnumber hcount hfilled hplaces hparts ih =>
    have hself := hnear _ (record_mem_records number depth s _) (by simp [record])
    rw [halts_branch, if_neg (Load.not_mass_le_zero hfilled), if_neg (by simp [hself]), particles_branch]
    apply ((Quadrant.unwind_perm _).flatMap_right _).trans
    rw [Quadrant.flatMap_gather]
    exact Quadrant.gather_perm fun q => ih q fun r hr => hnear r (part_records_subset q hr)

/-- The sides of the parts are those of the whole, halved, so none of them is negative. -/
theorem nonneg_side_of_mem_records {c : Cell room} (hside : Single.Nonneg s.side.toModel.unpack)
    {r : CellRecord} (hr : r ∈ c.records number depth s) :
    Single.Nonneg r.square.side.toModel.unpack := by
  induction c using partsInduction generalizing number depth s with
  | leaf w ps =>
    rw [records_leaf, List.mem_singleton] at hr
    subst hr
    exact hside
  | branch w first a b c d ih =>
    rcases mem_records_branch.1 hr with rfl | ⟨q, hr⟩
    · exact hside
    · have hhalf : Single.Nonneg (s.part q).side.toModel.unpack := Single.nonneg_half hside
      exact ih q hhalf hr

end Cell

theorem Square.nonneg_side_of_around {places : List Point} {square : Square}
    (h : around places = some square) : Single.Nonneg square.side.toModel.unpack := by
  cases places with
  | nil => simp [around] at h
  | cons p ps =>
    rw [around] at h
    split at h
    · obtain rfl := Option.some.inj h
      exact Single.nonneg_add_two (Single.nonneg_max_one _)
    · simp at h

/-! ## The walk over a tree -/

namespace Quadtree

/-- The records of the cells of a tree that count. -/
def halts (t : Quadtree) (p : Particle) (theta : Float32) : List CellRecord :=
  t.root.halts theta p.pos 0 0 t.square

theorem mem_cells_of_mem_halts {square : Square} {ps : List Particle} {p : Particle} {theta : Float32}
    {r : CellRecord} (hr : r ∈ (grow square ps).halts p theta) :
    (grow square ps).cells[r.number]? = some r :=
  holds_cells square ps r ((Cell.halts_subperm ..).subset hr)

section
variable (square : Square) (ps : List Particle) (p : Particle) (strength theta : Float32)

/-- Looking up the numbers of the cells that count gives these cells. -/
theorem filterMap_halts :
    (((grow square ps).halts p theta).map (·.number)).filterMap ((grow square ps).cells[·]?) =
      (grow square ps).halts p theta := by
  rw [List.filterMap_map]
  exact (List.filterMap_congr fun r hr => mem_cells_of_mem_halts hr).trans List.filterMap_some

theorem force_eq_foldl_halts :
    (grow square ps).force p strength theta =
      ((grow square ps).halts p theta).foldl (CellRecord.exert p strength) .zero :=
  (shaped_grow square ps).foldl_stops 0 p strength theta .zero

/-- The walk ends, having looked at each cell once at most. -/
theorem ends_sweep :
    ∃ n ≤ (grow square ps).size + 1,
      Ends (Arena.sweep (grow square ps).cells p strength theta) n ⟨[0], .zero, []⟩
        ⟨[], (grow square ps).force p strength theta,
          ((grow square ps).halts p theta).map (·.number)⟩ := by
  obtain ⟨m, hm, hpasses⟩ := Arena.exists_passes (holds_cells square ps) p strength theta
  have hlength : ((grow square ps).root.records 0 0 (grow square ps).square).length =
      (grow square ps).size := by
    rw [← length_cells, cells, List.length_mergeSort]
  refine ⟨1 + m, by omega, ?_⟩
  rw [force_eq_foldl_halts]
  exact hpasses 1 [] .zero [] _ (.stop rfl)

theorem nodup_halts : (((grow square ps).halts p theta).map (·.number)).Nodup := by
  obtain ⟨l, hperm, hsub⟩ :=
    Cell.halts_subperm theta p.pos 0 0 (grow square ps).square (grow square ps).root
  exact (hperm.map _).nodup_iff.1 ((hsub.map _).nodup (nodup_numbers square ps))

end

section
variable {square : Square} {ps : List Particle} {p : Particle} {theta : Float32}
  (hnear : ∀ r ∈ (grow square ps).cells, r.first ≠ none → r.isFar theta p.pos = false)
include hnear

theorem first_of_mem_halts {r : CellRecord} (hr : r ∈ (grow square ps).halts p theta) :
    r.first = none := by
  by_contra hfirst
  have hfar := hnear r (List.mem_of_getElem? (mem_cells_of_mem_halts hr)) hfirst
  rcases Cell.isFar_of_mem_halts hr with hnone | htrue
  · exact hfirst hnone
  · rw [hfar] at htrue
    exact Bool.noConfusion htrue

theorem others_halts_perm :
    (((grow square ps).halts p theta).flatMap (·.others p)).Perm
      (ps.filter fun q => q.index ≠ p.index) := by
  have hperm : (((grow square ps).halts p theta).flatMap (·.particles)).Perm
      (grow square ps).root.particles :=
    (shaped_grow square ps).flatMap_halts fun r hr => hnear r (mem_cells.2 hr)
  have hfilter := (hperm.trans (particles_grow square ps)).filter fun q => q.index ≠ p.index
  rw [List.filter_flatMap] at hfilter
  exact hfilter

theorem force_eq_foldl_others (strength : Float32) :
    (grow square ps).force p strength theta =
      (((grow square ps).halts p theta).flatMap (·.others p)).foldl (p.pull strength) .zero := by
  rw [force_eq_foldl_halts, List.foldl_flatMap]
  apply List.foldl_ext
  intro force r hr
  rw [CellRecord.exert, first_of_mem_halts hnear hr]

end

/-- Nothing is far away for a theta of zero. -/
theorem isFar_eq_false_of_zero {square : Square} (hside : Single.Nonneg square.side.toModel.unpack)
    (ps : List Particle) {theta : Float32} (hzero : theta == 0) (p : Point) {r : CellRecord}
    (hr : r ∈ (grow square ps).cells) : r.isFar theta p = false := by
  have hr := mem_cells.1 hr
  rw [square_grow] at hr
  have hnot := Single.not_lt_zero_mul (Cell.nonneg_side_of_mem_records hside hr) hzero
    (Point.length (r.load.center - p))
  rw [CellRecord.isFar, decide_eq_false hnot, Bool.and_false]

/-- The walk over a tree ends with the force and has met some cells, by number. Each particle of the tree
is in one of them or below it, in one only. -/
structure Sweeps (t : Quadtree) (places : List Point) (p : Particle) (strength theta : Float32)
    (met : List Nat) : Prop where
  ends : ∃ n ≤ t.size + 1, Ends (Arena.sweep t.cells p strength theta) n ⟨[0], .zero, []⟩
    ⟨[], t.force p strength theta, met⟩
  nodup : met.Nodup
  kinds {k : Nat} (hk : k ∈ met) :
    ∃ r, t.cells[k]? = some r ∧ (r.first = none ∨ r.isFar theta p.pos = true)
  covers {b : Nat} (hb : b < places.length) : ∃! k, k ∈ met ∧ b ∈ Arena.bodies t.cells k
  force : t.force p strength theta =
    (met.filterMap (t.cells[·]?)).foldl (CellRecord.exert p strength) .zero
  /-- if no divided cell is far away, the force is the sum over all other particles -/
  near (hnear : ∀ r ∈ t.cells, r.first ≠ none → r.isFar theta p.pos = false) :
    ((met.filterMap (t.cells[·]?)).flatMap (·.others p)).Perm
        ((particlesOf places).filter fun q => q.index ≠ p.index) ∧
      t.force p strength theta =
        ((met.filterMap (t.cells[·]?)).flatMap (·.others p)).foldl (p.pull strength) .zero
  zero (hzero : theta == 0) {r : CellRecord} (hr : r ∈ t.cells) : r.isFar theta p.pos = false

theorem exists_sweeps_of_build {places : List Point} {t : Quadtree} (h : build places = some t)
    (p : Particle) (strength theta : Float32) : ∃ met, t.Sweeps places p strength theta met := by
  obtain ⟨square, haround, ht⟩ := Option.bind_eq_some_iff.1 h
  obtain rfl : grow square (particlesOf places) = t := Option.some.inj ht
  have hlook := filterMap_halts square (particlesOf places) p theta
  refine ⟨((grow square (particlesOf places)).halts p theta).map (·.number), ?_, ?_, ?_, ?_, ?_, ?_, ?_⟩
  · exact ends_sweep square (particlesOf places) p strength theta
  · exact nodup_halts square (particlesOf places) p theta
  · intro k hk
    obtain ⟨r, hr, rfl⟩ := List.mem_map.1 hk
    exact ⟨r, mem_cells_of_mem_halts hr, Cell.isFar_of_mem_halts hr⟩
  · intro b hb
    refine (shaped_grow square _).existsUnique_halt (holds_cells square _)
      (nodup_index_root (nodup_index_particlesOf places) square) theta p.pos ?_
    rw [((particles_grow square _).map _).mem_iff, index_particlesOf]
    exact List.mem_range.2 hb
  · rw [hlook]
    exact force_eq_foldl_halts square (particlesOf places) p strength theta
  · intro hnear
    rw [hlook]
    exact ⟨others_halts_perm hnear, force_eq_foldl_others hnear strength⟩
  · intro hzero r hr
    exact isFar_eq_false_of_zero (Square.nonneg_side_of_around haround) _ hzero p.pos hr

/-- The walk over a tree of 49 cells, for one of its particles and a theta of zero. -/
theorem exists_sweeps_of_build_coincident :
    ∃ t met, build (List.replicate 9 ⟨5.0, 5.0⟩) = some t ∧ t.size = 49 ∧
      t.Sweeps (List.replicate 9 ⟨5.0, 5.0⟩) ⟨3, ⟨5.0, 5.0⟩⟩ (-1500.0) 0.0 met := by
  have hsize : (build (List.replicate 9 ⟨5.0, 5.0⟩)).map (·.size) = some 49 := by decide +kernel
  obtain ⟨t, ht, hsize⟩ := Option.map_eq_some_iff.1 hsize
  obtain ⟨met, hmet⟩ := exists_sweeps_of_build ht ⟨3, ⟨5.0, 5.0⟩⟩ (-1500.0) 0.0
  exact ⟨t, met, ht, hsize, hmet⟩

end Quadtree

end ImportAtlas
