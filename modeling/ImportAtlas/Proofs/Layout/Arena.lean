-- SUMMARY: The cells of a tree in a row: each stands at its number, and below it stand its parts.
import ImportAtlas.Proofs.Layout.Cells

/-! # Arenas

A tree can be laid out in a row, where each cell stands at its number and names the first of its four
parts. An arena is such a row. It holds a cell if the records of the cell and of all its parts stand
where their numbers say; so whatever is found by going from number to number is found in the cell. The
numbers of a tree that has grown are those from 0 on, each once, and its arena holds its root. -/

namespace ImportAtlas

namespace Quadrant

/-- The place of a part among the four. -/
def offset : Quadrant → Nat
  | upperLeft => 0
  | upperRight => 1
  | lowerLeft => 2
  | lowerRight => 3

theorem offset_lt (q : Quadrant) : q.offset < 4 := by
  cases q <;> decide

theorem offset_inj {q r : Quadrant} (h : q.offset = r.offset) : q = r := by
  revert h
  cases q <;> cases r <;> decide

theorem mem_all (q : Quadrant) : q ∈ all := by
  cases q <;> decide

theorem getElem?_all (q : Quadrant) : all[q.offset]? = some q := by
  cases q <;> rfl

/-- One of four things that are given by a function. -/
theorem choose_apply {α : Type} (f : Quadrant → α) (q : Quadrant) :
    q.choose (f upperLeft) (f upperRight) (f lowerLeft) (f lowerRight) = f q := by
  cases q <;> rfl

section
variable {α β : Type} {f g : Quadrant → List α}

theorem gather_eq_flatMap (f : Quadrant → List α) : gather f = all.flatMap f := by
  simp [gather, all]

theorem mem_gather {x : α} : x ∈ gather f ↔ ∃ q, x ∈ f q := by
  simp only [gather, List.mem_append]
  constructor
  · rintro (((h | h) | h) | h)
    · exact ⟨upperLeft, h⟩
    · exact ⟨upperRight, h⟩
    · exact ⟨lowerLeft, h⟩
    · exact ⟨lowerRight, h⟩
  · rintro ⟨q, h⟩
    cases q with
    | upperLeft => exact .inl (.inl (.inl h))
    | upperRight => exact .inl (.inl (.inr h))
    | lowerLeft => exact .inl (.inr h)
    | lowerRight => exact .inr h

theorem sublist_gather (f : Quadrant → List α) (q : Quadrant) : (f q).Sublist (gather f) := by
  cases q with
  | upperLeft =>
    exact ((List.sublist_append_left _ _).trans (List.sublist_append_left _ _)).trans
      (List.sublist_append_left _ _)
  | upperRight =>
    exact ((List.sublist_append_right _ _).trans (List.sublist_append_left _ _)).trans
      (List.sublist_append_left _ _)
  | lowerLeft => exact (List.sublist_append_right _ _).trans (List.sublist_append_left _ _)
  | lowerRight => exact List.sublist_append_right _ _

theorem gather_perm (h : ∀ q, (f q).Perm (g q)) : (gather f).Perm (gather g) :=
  (((h upperLeft).append (h upperRight)).append (h lowerLeft)).append (h lowerRight)

theorem map_gather (k : α → β) : (gather f).map k = gather fun q => (f q).map k := by
  simp [gather]

theorem flatMap_gather (k : α → List β) :
    (gather f).flatMap k = gather fun q => (f q).flatMap k := by
  simp [gather]

/-- Two things in each part are the first in each part and the second in each part. -/
theorem gather_append [DecidableEq α] :
    (gather fun q => f q ++ g q).Perm (gather f ++ gather g) := by
  rw [List.perm_iff_count]
  intro x
  simp only [gather, List.count_append]
  omega

end

end Quadrant

/-! ## Records -/

namespace Cell

/-- Induction over cells, with all parts of a divided cell at once. -/
@[elab_as_elim]
theorem partsInduction {motive : (room : Nat) → Cell room → Prop}
    (leaf : ∀ {room : Nat} (w : Load) (ps : List Particle), motive room (leaf w ps))
    (branch : ∀ {room : Nat} (w : Load) (first : Nat) (a b c d : Cell room),
      (∀ q : Quadrant, motive room (q.choose a b c d)) →
        motive (room + 1) (branch w first a b c d))
    {room : Nat} (c : Cell room) : motive room c := by
  induction c with
  | leaf w ps => exact leaf w ps
  | branch w first a b c d iha ihb ihc ihd =>
    apply branch w first a b c d
    intro q
    cases q with
    | upperLeft => exact iha
    | upperRight => exact ihb
    | lowerLeft => exact ihc
    | lowerRight => exact ihd

variable {room : Nat}

/-- The record of the cell itself. -/
def record (number depth : Nat) (s : Square) : Cell room → CellRecord
  | leaf w ps => ⟨number, s, depth, w, ps, none⟩
  | branch w first _ _ _ _ => ⟨number, s, depth, w, [], some first⟩

section
variable (number depth : Nat) (s : Square)

@[simp] theorem number_record (c : Cell room) : (c.record number depth s).number = number := by
  cases c <;> rfl

@[simp] theorem load_record (c : Cell room) : (c.record number depth s).load = c.load := by
  cases c <;> rfl

theorem particles_leaf (w : Load) (ps : List Particle) : (leaf w ps : Cell room).particles = ps := by
  rw [particles]

/-- The particles of the four parts, part by part. -/
theorem particles_branch (w : Load) (first : Nat) (a b c d : Cell room) :
    (branch w first a b c d).particles =
      Quadrant.gather fun q => (q.choose a b c d).particles := rfl

theorem records_leaf (w : Load) (ps : List Particle) :
    (leaf w ps : Cell room).records number depth s = [(leaf w ps : Cell room).record number depth s] := by
  rw [records, record]

/-- The record of a divided cell, and then those of its parts, part by part. -/
theorem records_branch (w : Load) (first : Nat) (a b c d : Cell room) :
    (branch w first a b c d).records number depth s =
      (branch w first a b c d).record number depth s :: Quadrant.gather fun q =>
        (q.choose a b c d).records (first + q.offset) (depth + 1) (s.part q) := rfl

theorem record_mem_records (c : Cell room) : c.record number depth s ∈ c.records number depth s := by
  cases c with
  | leaf w ps =>
    rw [records_leaf]
    exact List.mem_singleton_self _
  | branch w first a b c d => exact List.mem_cons_self

end

section
variable {number depth : Nat} {s : Square}

theorem mem_records_branch {w : Load} {first : Nat} {a b c d : Cell room} {r : CellRecord} :
    r ∈ (branch w first a b c d).records number depth s ↔
      r = (branch w first a b c d).record number depth s ∨
        ∃ q : Quadrant, r ∈ (q.choose a b c d).records (first + q.offset) (depth + 1) (s.part q) := by
  rw [records_branch, List.mem_cons, Quadrant.mem_gather]

theorem part_records_subset {w : Load} {first : Nat} {a b c d : Cell room} (q : Quadrant) :
    (q.choose a b c d).records (first + q.offset) (depth + 1) (s.part q) ⊆
      (branch w first a b c d).records number depth s :=
  fun _ hr => mem_records_branch.2 (.inr ⟨q, hr⟩)

/-- The records hold the particles of the cell, each where it is kept. -/
theorem flatMap_particles_records (number depth : Nat) (s : Square) (c : Cell room) :
    (c.records number depth s).flatMap (·.particles) = c.particles := by
  induction c using partsInduction generalizing number depth s with
  | leaf w ps => rw [records_leaf, List.flatMap_singleton, particles_leaf, record]
  | branch w first a b c d ih =>
    rw [records_branch, List.flatMap_cons, Quadrant.flatMap_gather, particles_branch]
    simp only [ih]
    rfl

theorem mem_particles_iff {c : Cell room} {p : Particle} :
    p ∈ c.particles ↔ ∃ r ∈ c.records number depth s, p ∈ r.particles := by
  rw [← flatMap_particles_records number depth s, List.mem_flatMap]

/-- The numbers of the cell and of four parts for each division. -/
theorem numbers_records (c : Cell room) :
    ((c.records number depth s).map (·.number)).Perm
      (number :: c.firsts.flatMap fun f => Quadrant.gather fun q => [f + q.offset]) := by
  induction c using partsInduction generalizing number depth s with
  | leaf w ps =>
    rw [records_leaf, firsts]
    exact .refl _
  | branch w first a b c d ih =>
    rw [records_branch, List.map_cons, Quadrant.map_gather, number_record]
    apply List.Perm.cons
    apply (Quadrant.gather_perm fun q => ih q).trans
    have hfirsts : (branch w first a b c d).firsts =
        first :: Quadrant.gather fun q => (q.choose a b c d).firsts := rfl
    rw [hfirsts, List.flatMap_cons, Quadrant.flatMap_gather]
    exact Quadrant.gather_append (f := fun q => [first + q.offset])

end

end Cell

/-! ## Rows of records -/

/-- Records in a row. -/
abbrev Arena := List CellRecord

namespace Arena

variable {room : Nat} {A : Arena} {number depth : Nat} {s : Square}

/-- Each record of a cell stands at its number. -/
def Holds (A : Arena) (number depth : Nat) (s : Square) (c : Cell room) : Prop :=
  ∀ r ∈ c.records number depth s, A[r.number]? = some r

/-- From one number to that of one of its parts, and so on. -/
inductive Below (A : Arena) : Nat → Nat → Prop where
  | self (k : Nat) : Below A k k
  | part {k j first : Nat} {r : CellRecord} (q : Quadrant) (hr : A[k]? = some r)
      (hfirst : r.first = some first) (h : Below A (first + q.offset) j) : Below A k j

/-- The particle with a number is kept at a place of the arena. -/
def Keeps (A : Arena) (k b : Nat) : Prop := ∃ r, A[k]? = some r ∧ ∃ p ∈ r.particles, p.index = b

/-- The numbers of the particles that are kept at a place or below it. -/
def bodies (A : Arena) (k : Nat) : Set Nat := {b | ∃ j, A.Below k j ∧ A.Keeps j b}

namespace Holds

theorem self {c : Cell room} (h : A.Holds number depth s c) :
    A[number]? = some (c.record number depth s) := by
  have hrecord := h _ (c.record_mem_records number depth s)
  rwa [Cell.number_record] at hrecord

section
variable {w : Load} {first : Nat} {a b c d : Cell room}

theorem part (h : A.Holds number depth s (.branch w first a b c d)) (q : Quadrant) :
    A.Holds (first + q.offset) (depth + 1) (s.part q) (q.choose a b c d) :=
  fun r hr => h r (Cell.part_records_subset q hr)

/-- A divided cell is held if its record and its parts are. -/
theorem of_parts (hself : A[number]? = some ((Cell.branch w first a b c d).record number depth s))
    (hparts : ∀ q : Quadrant,
      A.Holds (first + q.offset) (depth + 1) (s.part q) (q.choose a b c d)) :
    A.Holds number depth s (.branch w first a b c d) := by
  intro r hr
  rcases Cell.mem_records_branch.1 hr with rfl | ⟨q, hr⟩
  · exact hself
  · exact hparts q r hr

end

/-- Below the number of a cell that is held are the numbers of its records. -/
theorem below_iff {c : Cell room} (h : A.Holds number depth s c) {j : Nat} :
    A.Below number j ↔ ∃ r ∈ c.records number depth s, r.number = j := by
  induction c using Cell.partsInduction generalizing number depth s with
  | leaf w ps =>
    constructor
    · intro hbelow
      cases hbelow with
      | self => exact ⟨_, Cell.record_mem_records _ depth s _, Cell.number_record _ depth s _⟩
      | part q hr hfirst =>
        obtain rfl := Option.some.inj (h.self.symm.trans hr)
        simp [Cell.record] at hfirst
    · rintro ⟨r, hr, rfl⟩
      rw [Cell.records_leaf, List.mem_singleton] at hr
      rw [hr, Cell.number_record]
      exact .self _
  | branch w first a b c d ih =>
    constructor
    · intro hbelow
      cases hbelow with
      | self => exact ⟨_, Cell.record_mem_records _ depth s _, Cell.number_record _ depth s _⟩
      | part q hr hfirst hbelow =>
        obtain rfl := Option.some.inj (h.self.symm.trans hr)
        obtain rfl := Option.some.inj hfirst
        obtain ⟨r, hr, hj⟩ := (ih q (h.part q)).1 hbelow
        exact ⟨r, Cell.part_records_subset q hr, hj⟩
    · rintro ⟨r, hr, rfl⟩
      rcases Cell.mem_records_branch.1 hr with rfl | ⟨q, hr⟩
      · exact .self _
      · exact .part q h.self rfl ((ih q (h.part q)).2 ⟨r, hr, rfl⟩)

/-- The particles at the number of a cell and below it are those of the cell. -/
theorem mem_bodies {c : Cell room} (h : A.Holds number depth s c) {b : Nat} :
    b ∈ A.bodies number ↔ b ∈ c.particles.map (·.index) := by
  rw [List.mem_map]
  constructor
  · rintro ⟨j, hbelow, r, hr, p, hp, rfl⟩
    obtain ⟨r', hr', rfl⟩ := h.below_iff.1 hbelow
    obtain rfl := Option.some.inj ((h r' hr').symm.trans hr)
    exact ⟨p, Cell.mem_particles_iff.2 ⟨_, hr', hp⟩, rfl⟩
  · rintro ⟨p, hp, rfl⟩
    obtain ⟨r, hr, hmem⟩ := Cell.mem_particles_iff.1 hp
    exact ⟨r.number, h.below_iff.2 ⟨r, hr, rfl⟩, r, h r hr, p, hmem, rfl⟩

end Holds

end Arena

/-! ## The arena of a tree -/

namespace Quadtree

theorem mem_cells {t : Quadtree} {r : CellRecord} :
    r ∈ t.cells ↔ r ∈ t.root.records 0 0 t.square :=
  List.mem_mergeSort

/-- The numbers from 0 on, as those of a first cell and of parts in fours. -/
theorem range_eq_fours (k : Nat) :
    List.range (1 + 4 * k) =
      0 :: ((List.range k).map (1 + 4 * ·)).flatMap fun f => Quadrant.gather fun q => [f + q.offset] := by
  induction k with
  | zero => rfl
  | succ k ih =>
    have hfour : 1 + 4 * (k + 1) = 1 + 4 * k + 1 + 1 + 1 + 1 := by omega
    rw [hfour, List.range_succ, List.range_succ, List.range_succ, List.range_succ, ih, List.range_succ]
    simp [Quadrant.gather, Quadrant.offset]

/-- The cells of a tree that has grown stand at their numbers. -/
theorem numbers_cells (square : Square) (ps : List Particle) :
    (grow square ps).cells.map (·.number) = List.range (grow square ps).size := by
  obtain ⟨k, hsize, hfirsts⟩ := firsts_grow square ps
  have hsorted : ((grow square ps).cells.map (·.number)).Pairwise (· ≤ ·) := by
    rw [List.pairwise_map]
    have h : (grow square ps).cells.Pairwise fun a b => decide (a.number ≤ b.number) = true := by
      apply List.pairwise_mergeSort
      · intro a b c hab hbc
        simp only [decide_eq_true_eq] at hab hbc ⊢
        omega
      · intro a b
        simp only [Bool.or_eq_true, decide_eq_true_eq]
        omega
    exact h.imp fun hab => of_decide_eq_true hab
  have hperm : ((grow square ps).cells.map (·.number)).Perm (List.range (grow square ps).size) := by
    rw [hsize, range_eq_fours]
    apply ((List.mergeSort_perm _ _).map _).trans
    apply (Cell.numbers_records _).trans
    exact (hfirsts.flatMap_right _).cons 0
  exact hperm.eq_of_pairwise (fun a b _ _ hab hba => Nat.le_antisymm hab hba) hsorted
    List.pairwise_le_range

section
variable {square : Square} {ps : List Particle}

theorem getElem?_cells_iff {k : Nat} {r : CellRecord} :
    (grow square ps).cells[k]? = some r ↔
      r ∈ (grow square ps).root.records 0 0 (grow square ps).square ∧ r.number = k := by
  have hnumber {j : Nat} {r' : CellRecord} (h : (grow square ps).cells[j]? = some r') :
      r'.number = j := by
    have hmap : ((grow square ps).cells.map (·.number))[j]? = some r'.number := by
      rw [List.getElem?_map, h]
      rfl
    rw [numbers_cells, List.getElem?_eq_some_iff] at hmap
    obtain ⟨hj, heq⟩ := hmap
    rw [List.getElem_range] at heq
    exact heq.symm
  constructor
  · intro h
    exact ⟨mem_cells.1 (List.mem_of_getElem? h), hnumber h⟩
  · rintro ⟨hr, rfl⟩
    obtain ⟨j, hj⟩ := List.mem_iff_getElem?.1 (mem_cells.2 hr)
    rw [hnumber hj]
    exact hj

/-- The arena of a tree that has grown holds its root. -/
theorem holds_cells (square : Square) (ps : List Particle) :
    Arena.Holds (grow square ps).cells 0 0 (grow square ps).square (grow square ps).root :=
  fun _ hr => getElem?_cells_iff.2 ⟨hr, rfl⟩

theorem nodup_numbers (square : Square) (ps : List Particle) :
    (((grow square ps).root.records 0 0 (grow square ps).square).map (·.number)).Nodup := by
  have hperm : ((grow square ps).cells.map (·.number)).Perm
      (((grow square ps).root.records 0 0 (grow square ps).square).map (·.number)) :=
    (List.mergeSort_perm _ _).map _
  rw [← hperm.nodup_iff, numbers_cells]
  exact List.nodup_range

end

end Quadtree

end ImportAtlas
