-- SUMMARY: Insertion as a walk down the arena of a tree, and what a tree over some places looks like.
import ImportAtlas.Proofs.Layout.Shape

/-! # Descents

A particle gets into a tree by a walk down its arena. Each cell on the way counts the particle; a leaf
that is full is divided, which puts four cells at the end of the arena; and the walk goes on in the part
where the particle belongs, until a leaf has space for it or cannot be divided. The walk ends with the
arena of the tree into which the particle was inserted. Nothing keeps a division from handing all
particles to one part, which is then full as well. The walk still ends, as each division leads one level
down. -/

namespace ImportAtlas

/-- A loop that goes on or stops in each round ends with a result, after a number of rounds, none of
which fails. -/
inductive Ends {σ ρ : Type} (round : σ → Option (σ ⊕ ρ)) : Nat → σ → ρ → Prop where
  | stop {s : σ} {r : ρ} (h : round s = some (.inr r)) : Ends round 1 s r
  | next {n : Nat} {s s' : σ} {r : ρ} (h : round s = some (.inl s')) (hrest : Ends round n s' r) :
      Ends round (n + 1) s r

/-- Changing the thing at one of four places. -/
theorem Quadrant.modify_map_all {α : Type} (q : Quadrant) (f : α → α) (g : Quadrant → α) :
    (all.map g).modify q.offset f = all.map fun r => if r = q then f (g r) else g r := by
  cases q <;> rfl

theorem modify_append_right {α : Type} (l l' : List α) (i : Nat) (f : α → α) :
    (l ++ l').modify (l.length + i) f = l ++ l'.modify i f := by
  induction l with
  | nil => rw [List.nil_append, List.nil_append, List.length_nil, Nat.zero_add]
  | cons x l ih =>
    rw [List.cons_append, List.length_cons, Nat.add_right_comm, List.modify_succ_cons, ih,
      List.cons_append]

/-! ## The walk -/

namespace CellRecord

/-- Count a particle. -/
def count (p : Particle) (r : CellRecord) : CellRecord := { r with load := r.load.add p.pos }

/-- Keep a particle. -/
def keep (p : Particle) (r : CellRecord) : CellRecord := { r with particles := r.particles ++ [p] }

/-- One of the four parts of a cell, with its share of some particles. -/
def share (r : CellRecord) (first : Nat) (ps : List Particle) (q : Quadrant) : CellRecord :=
  (Cell.leafOf r.square ps q : Cell 0).record (first + q.offset) (r.depth + 1) (r.square.part q)

end CellRecord

namespace Arena

/-- Divide the leaf at a place: four empty cells are put at the end, and its particles go there one by
one. -/
def divide (A : Arena) (k : Nat) (r : CellRecord) : Arena :=
  r.particles.foldl
    (fun B x => B.modify (A.length + (r.square.quadrant x.pos).offset) fun r' => (r'.count x).keep x)
    ((A.modify k fun r' => { r' with particles := [], first := some A.length }) ++
      Quadrant.all.map (r.share A.length []))

/-- One round of the walk of a particle from a place of the arena. It fails if there is no cell. -/
def descend (p : Particle) (w : Arena × Nat) : Option (Arena × Nat ⊕ Arena) :=
  w.1[w.2]?.map fun r =>
    let A := w.1.modify w.2 (·.count p)
    let q := r.square.quadrant p.pos
    match r.first with
    | some first => .inl (A, first + q.offset)
    | none =>
      if r.particles.length < Cell.capacity ∨ 12 ≤ r.depth then .inr (A.modify w.2 (·.keep p))
      else .inl (divide A w.2 r, A.length + q.offset)

section
variable {A : Arena} {k : Nat} {r : CellRecord} (hr : A[k]? = some r) (p : Particle)
include hr

theorem descend_of_some {first : Nat} (hfirst : r.first = some first) :
    descend p (A, k) =
      some (.inl (A.modify k (·.count p), first + (r.square.quadrant p.pos).offset)) := by
  simp [descend, hr, hfirst]

theorem descend_of_space (hfirst : r.first = none)
    (hstops : r.particles.length < Cell.capacity ∨ 12 ≤ r.depth) :
    descend p (A, k) = some (.inr ((A.modify k (·.count p)).modify k (·.keep p))) := by
  simp [descend, hr, hfirst, hstops]

theorem descend_of_full (hfirst : r.first = none) (hfull : ¬ r.particles.length < Cell.capacity)
    (hdepth : r.depth < 12) :
    descend p (A, k) =
      some (.inl (divide (A.modify k (·.count p)) k r, A.length + (r.square.quadrant p.pos).offset)) := by
  have hgoes : ¬ (r.particles.length < Cell.capacity ∨ 12 ≤ r.depth) := by omega
  simp [descend, hr, hfirst, hgoes]

end

end Arena

/-! ## Divisions -/

theorem Load.ofList_concat (ps : List Particle) (p : Particle) :
    ofList (ps ++ [p]) = (ofList ps).add p.pos :=
  List.foldl_concat ..

/-- A further particle goes to the part in which it belongs. -/
theorem CellRecord.share_concat (r : CellRecord) (first : Nat) (ps : List Particle) (p : Particle)
    (q : Quadrant) :
    r.share first (ps ++ [p]) q =
      if q = r.square.quadrant p.pos then ((r.share first ps q).count p).keep p
      else r.share first ps q := by
  have hshare (ps : List Particle) : r.share first ps q =
      ⟨first + q.offset, r.square.part q, r.depth + 1,
        .ofList (ps.filter fun x => r.square.quadrant x.pos = q),
        ps.filter fun x => r.square.quadrant x.pos = q, none⟩ := rfl
  rw [hshare, List.filter_append]
  by_cases hq : q = r.square.quadrant p.pos
  · rw [if_pos hq, List.filter_cons_of_pos (by simp [hq]), List.filter_nil, Load.ofList_concat]
    rfl
  · have hne : ¬ r.square.quadrant p.pos = q := fun h => hq h.symm
    rw [if_neg hq, List.filter_cons_of_neg (by simp [hne]), List.filter_nil, List.append_nil, hshare]

namespace Arena

/-- Particles that are handed out one by one end up where they would if they had been shared out. -/
theorem divide_eq (A : Arena) (k : Nat) (r : CellRecord) :
    A.divide k r = (A.modify k fun r' => { r' with particles := [], first := some A.length }) ++
      Quadrant.all.map (r.share A.length r.particles) := by
  have hstep (B : Arena) (hB : B.length = A.length) (done rest : List Particle) :
      rest.foldl (fun B x => B.modify (A.length + (r.square.quadrant x.pos).offset)
          fun r' => (r'.count x).keep x) (B ++ Quadrant.all.map (r.share A.length done)) =
        B ++ Quadrant.all.map (r.share A.length (done ++ rest)) := by
    induction rest generalizing done with
    | nil => rw [List.foldl_nil, List.append_nil]
    | cons x rest ih =>
      have hone : (B ++ Quadrant.all.map (r.share A.length done)).modify
          (A.length + (r.square.quadrant x.pos).offset) (fun r' => (r'.count x).keep x) =
            B ++ Quadrant.all.map (r.share A.length (done ++ [x])) := by
        rw [← hB, modify_append_right, Quadrant.modify_map_all]
        exact congrArg (B ++ ·) (List.map_congr_left fun q _ => (r.share_concat ..).symm)
      rw [List.foldl_cons, hone, ih, List.append_assoc, List.singleton_append]
  exact hstep _ (List.length_modify ..) [] r.particles

theorem length_divide (A : Arena) (k : Nat) (r : CellRecord) : (A.divide k r).length = A.length + 4 := by
  rw [divide_eq, List.length_append, List.length_modify]
  rfl

theorem getElem?_divide_of_lt {A : Arena} {k j : Nat} {r : CellRecord} (hj : j < A.length) :
    (A.divide k r)[j]? =
      (A.modify k fun r' => { r' with particles := [], first := some A.length })[j]? := by
  rw [divide_eq, List.getElem?_append_left (by rwa [List.length_modify])]

theorem getElem?_divide_part (A : Arena) (k : Nat) (r : CellRecord) (q : Quadrant) :
    (A.divide k r)[A.length + q.offset]? = some (r.share A.length r.particles q) := by
  rw [divide_eq, List.getElem?_append_right (by rw [List.length_modify]; omega), List.length_modify,
    Nat.add_sub_cancel_left, List.getElem?_map, Quadrant.getElem?_all]
  rfl

/-! ## Walks down a cell -/

variable {room : Nat} {A B A' : Arena} {number depth : Nat} {s : Square} {p : Particle}

/-- The walk of a particle from the number of a cell ends in an arena that holds the cell with the
particle in it. Apart from the cell and from new places nothing changes. -/
structure Descends (p : Particle) (A : Arena) (number depth : Nat) (s : Square) (c : Cell room)
    (A' : Arena) : Prop where
  ends : ∃ n ≤ room + 1, Ends (descend p) n (A, number) A'
  length : A'.length = (c.insert p s A.length).2
  holds : A'.Holds number depth s (c.insert p s A.length).1
  frame {j : Nat} (hj : j < A.length) (hout : ∀ r ∈ c.records number depth s, r.number ≠ j) :
    A'[j]? = A[j]?

theorem lt_length_of_holds {c : Cell room} (h : A.Holds number depth s c) {r : CellRecord}
    (hr : r ∈ c.records number depth s) : r.number < A.length :=
  (List.getElem?_eq_some_iff.1 (h r hr)).1

theorem ne_of_records {c : Cell room} {j : Nat}
    (hout : ∀ r ∈ c.records number depth s, r.number ≠ j) : number ≠ j := by
  have hrecord := hout _ (c.record_mem_records number depth s)
  rwa [Cell.number_record] at hrecord

section
variable {w : Load} {first : Nat} {a b c d : Cell room}
  (hnodup : (((Cell.branch w first a b c d).records number depth s).map (·.number)).Nodup)
include hnodup

theorem number_ne_of_nodup {q : Quadrant} {r : CellRecord}
    (hr : r ∈ (q.choose a b c d).records (first + q.offset) (depth + 1) (s.part q)) :
    r.number ≠ number := by
  rw [Cell.records_branch, List.map_cons, Cell.number_record] at hnodup
  intro h
  apply (List.nodup_cons.1 hnodup).1
  rw [← h]
  exact List.mem_map_of_mem (Quadrant.mem_gather.2 ⟨q, hr⟩)

theorem quadrant_eq_of_nodup {q q' : Quadrant} {r r' : CellRecord}
    (hr : r ∈ (q.choose a b c d).records (first + q.offset) (depth + 1) (s.part q))
    (hr' : r' ∈ (q'.choose a b c d).records (first + q'.offset) (depth + 1) (s.part q'))
    (h : r.number = r'.number) : q = q' := by
  rw [Cell.records_branch, List.map_cons, Quadrant.map_gather, Quadrant.gather_eq_flatMap] at hnodup
  refine eq_of_mem_of_nodup_flatMap (List.nodup_cons.1 hnodup).2 q.mem_all q'.mem_all
    (List.mem_map_of_mem hr) ?_
  rw [h]
  exact List.mem_map_of_mem hr'

theorem nodup_part (q : Quadrant) :
    (((q.choose a b c d).records (first + q.offset) (depth + 1) (s.part q)).map (·.number)).Nodup := by
  rw [Cell.records_branch, List.map_cons] at hnodup
  exact ((Quadrant.sublist_gather _ q).map _).nodup (List.nodup_cons.1 hnodup).2

/-- Counting a particle at a divided cell does not touch its parts. -/
theorem holds_count (h : A.Holds number depth s (.branch w first a b c d)) (p : Particle) :
    Holds (A.modify number (·.count p)) number depth s (.branch (w.add p.pos) first a b c d) := by
  refine .of_parts ?_ ?_
  · rw [List.getElem?_modify_eq, h.self]
    rfl
  · intro q r hr
    rw [List.getElem?_modify_ne _ _ (number_ne_of_nodup hnodup hr).symm]
    exact h.part q r hr

/-- The walk down a part makes for the walk down the whole, where the particle is counted already. -/
theorem Descends.of_part (h : B.Holds number depth s (.branch w first a b c d))
    (hpart : Descends p B (first + (s.quadrant p.pos).offset) (depth + 1) (s.part (s.quadrant p.pos))
      ((s.quadrant p.pos).choose a b c d) A') :
    A'.Holds number depth s (.branch w first (Cell.handDown p s a b c d B.length .upperLeft)
      (Cell.handDown p s a b c d B.length .upperRight) (Cell.handDown p s a b c d B.length .lowerLeft)
      (Cell.handDown p s a b c d B.length .lowerRight)) := by
  refine .of_parts ?_ ?_
  · have hnumber : number < B.length := (List.getElem?_eq_some_iff.1 h.self).1
    rw [hpart.frame hnumber fun r hr => number_ne_of_nodup hnodup hr, h.self]
    rfl
  · intro q
    rw [Cell.choose_handDown]
    by_cases hq : q = s.quadrant p.pos
    · subst hq
      rw [Cell.handDown_self]
      exact hpart.holds
    · rw [Cell.handDown_of_ne a b c d B.length hq]
      intro r hr
      rw [hpart.frame (lt_length_of_holds (h.part q) hr)]
      · exact h.part q r hr
      · intro r' hr' heq
        exact hq (quadrant_eq_of_nodup hnodup hr hr' heq.symm)

end

/-- A round that leads down makes for the walk down a cell: afterwards the arena holds a divided cell
that has counted the particle and that insertion treats like the cell. -/
theorem Descends.of_round {whole : Cell (room + 1)} {w : Load} {first : Nat} {a b c d : Cell room}
    (hround : descend p (A, number) = some (.inl (B, first + (s.quadrant p.pos).offset)))
    (hB : B.Holds number depth s (.branch (w.add p.pos) first a b c d))
    (hnodup : (((Cell.branch (w.add p.pos) first a b c d).records number depth s).map (·.number)).Nodup)
    (hinsert : whole.insert p s A.length = (Cell.branch w first a b c d).insert p s B.length)
    (hsame : ∀ j < A.length, (∀ r ∈ whole.records number depth s, r.number ≠ j) → B[j]? = A[j]?)
    (hnew : ∀ r ∈ (Cell.branch (w.add p.pos) first a b c d).records number depth s,
      A.length ≤ r.number ∨ ∃ r' ∈ whole.records number depth s, r'.number = r.number)
    (hpart : Descends p B (first + (s.quadrant p.pos).offset) (depth + 1) (s.part (s.quadrant p.pos))
      ((s.quadrant p.pos).choose a b c d) A') :
    Descends p A number depth s whole A' := by
  rw [Cell.insert_branch_eq] at hinsert
  refine ⟨?_, ?_, ?_, ?_⟩
  · obtain ⟨n, hn, hends⟩ := hpart.ends
    exact ⟨n + 1, by omega, .next hround hends⟩
  · rw [hinsert]
    exact hpart.length
  · rw [hinsert]
    exact of_part hnodup hB hpart
  · intro j hj hout
    have hjB : B[j]? = some A[j] := (hsame j hj hout).trans (List.getElem?_eq_getElem hj)
    rw [← hsame j hj hout]
    refine hpart.frame (List.getElem?_eq_some_iff.1 hjB).1 fun r hr heq => ?_
    rcases hnew r (Cell.part_records_subset _ hr) with hge | ⟨r', hr', hnumber⟩
    · omega
    · exact hout r' hr' (hnumber.trans heq)

section
variable {w : Load} {ps : List Particle}

/-- A leaf that is not divided keeps the particle. -/
theorem descends_keep (h : A.Holds number depth s (.leaf w ps : Cell room))
    (hstops : ps.length < Cell.capacity ∨ 12 ≤ depth)
    (hinsert : (.leaf w ps : Cell room).insert p s A.length =
      (.leaf (w.add p.pos) (ps ++ [p]), A.length)) :
    Descends p A number depth s (.leaf w ps : Cell room)
      ((A.modify number (·.count p)).modify number (·.keep p)) := by
  refine ⟨⟨1, by omega, .stop ?_⟩, ?_, ?_, ?_⟩
  · exact descend_of_space h.self p rfl hstops
  · rw [hinsert, List.length_modify, List.length_modify]
  · rw [hinsert]
    intro r hr
    rw [Cell.records_leaf, List.mem_singleton] at hr
    rw [hr, Cell.number_record, List.getElem?_modify_eq, List.getElem?_modify_eq, h.self]
    rfl
  · intro j hj hout
    have hne := ne_of_records hout
    rw [List.getElem?_modify_ne _ _ hne, List.getElem?_modify_ne _ _ hne]

/-- The arena after a full leaf has counted the particle and was divided. -/
theorem holds_divide (h : A.Holds number depth s (.leaf w ps : Cell (room + 1))) (p : Particle) :
    Holds (divide (A.modify number (·.count p)) number ⟨number, s, depth, w, ps, none⟩) number depth s
      (Cell.divided s (w.add p.pos) ps A.length : Cell (room + 1)) := by
  have hlength : (A.modify number (·.count p)).length = A.length := List.length_modify ..
  refine .of_parts ?_ ?_
  · have hnumber : number < A.length := (List.getElem?_eq_some_iff.1 h.self).1
    rw [getElem?_divide_of_lt (hlength ▸ hnumber), List.getElem?_modify_eq, List.getElem?_modify_eq,
      h.self, hlength]
    rfl
  · intro q r hr
    rw [Cell.choose_leafOf, Cell.leafOf, Cell.records_leaf, List.mem_singleton] at hr
    have hpart := getElem?_divide_part (A.modify number (·.count p)) number
      ⟨number, s, depth, w, ps, none⟩ q
    rw [hlength] at hpart
    rw [hr, Cell.number_record]
    exact hpart

theorem nodup_divided {next : Nat} (hnumber : number < next) (s : Square) (w : Load)
    (ps : List Particle) :
    (((Cell.divided s w ps next : Cell (room + 1)).records number depth s).map (·.number)).Nodup := by
  have hfirsts : (Cell.divided s w ps next : Cell (room + 1)).firsts = [next] := by
    simp only [Cell.divided, Cell.leafOf, Cell.firsts, List.append_nil]
  have hnumbers : ([number, next, next + 1, next + 2, next + 3] : List Nat).Nodup := by
    simp
    omega
  rw [(Cell.numbers_records _).nodup_iff, hfirsts, List.flatMap_singleton]
  exact hnumbers

end

/-- The walk from a cell that the arena holds ends. -/
theorem exists_descends {c : Cell room} (hroom : depth + room = 12) (h : A.Holds number depth s c)
    (hnodup : ((c.records number depth s).map (·.number)).Nodup) (p : Particle) :
    ∃ A', Descends p A number depth s c A' := by
  induction room generalizing A number depth s with
  | zero =>
    cases c with
    | leaf w ps => exact ⟨_, descends_keep h (.inr (by omega)) (by rw [Cell.insert])⟩
  | succ room ih =>
    cases c with
    | leaf w ps =>
      by_cases hspace : ps.length < Cell.capacity
      · exact ⟨_, descends_keep h (.inl hspace) (by rw [Cell.insert, if_pos hspace])⟩
      · have hnumber : number < A.length := (List.getElem?_eq_some_iff.1 h.self).1
        have hdivide := holds_divide h p
        have hnodup' : (((Cell.divided s (w.add p.pos) ps A.length : Cell (room + 1)).records number depth
            s).map (·.number)).Nodup := nodup_divided hnumber s (w.add p.pos) ps
        obtain ⟨A', hpart⟩ := ih (by omega) (hdivide.part _) (nodup_part hnodup' (s.quadrant p.pos))
        refine ⟨A', .of_round ?_ hdivide hnodup' ?_ ?_ ?_ hpart⟩
        · exact descend_of_full h.self p rfl hspace (show depth < 12 by omega)
        · rw [Cell.insert_full p s w A.length hspace, length_divide, List.length_modify]
          rfl
        · intro j hj hout
          have hne := ne_of_records hout
          rw [getElem?_divide_of_lt (by rwa [List.length_modify]), List.getElem?_modify_ne _ _ hne,
            List.getElem?_modify_ne _ _ hne]
        · intro r hr
          rcases Cell.mem_records_branch.1 hr with rfl | ⟨q, hr⟩
          · exact .inr ⟨_, Cell.record_mem_records number depth s _, by simp⟩
          · refine .inl ?_
            rw [Cell.choose_leafOf, Cell.leafOf, Cell.records_leaf, List.mem_singleton] at hr
            rw [hr, Cell.number_record]
            omega
    | branch w first a b c d =>
      have hcount := holds_count hnodup h p
      obtain ⟨A', hpart⟩ := ih (by omega) (hcount.part _) (nodup_part hnodup (s.quadrant p.pos))
      refine ⟨A', .of_round ?_ hcount hnodup ?_ ?_ ?_ hpart⟩
      · exact descend_of_some h.self p rfl
      · rw [List.length_modify]
      · intro j hj hout
        rw [List.getElem?_modify_ne _ _ (ne_of_records hout)]
      · intro r hr
        refine .inr ?_
        rcases Cell.mem_records_branch.1 hr with rfl | ⟨q, hr⟩
        · exact ⟨_, Cell.record_mem_records number depth s _, by simp⟩
        · exact ⟨r, Cell.part_records_subset q hr, rfl⟩

end Arena

namespace Quadtree

/-- The walk of a particle down a tree that has grown ends, with the tree into which it was inserted. -/
theorem ends_descend (square : Square) (ps : List Particle) (p : Particle) :
    ∃ n ≤ 13, Ends (Arena.descend p) n ((grow square ps).cells, 0) (grow square (ps ++ [p])).cells := by
  obtain ⟨A', h⟩ := Arena.exists_descends (Nat.zero_add 12) (holds_cells square ps)
    (nodup_numbers square ps) p
  have hgrow := grow_concat square ps p
  have hlength : A'.length = (grow square (ps ++ [p])).cells.length := by
    rw [h.length, length_cells, length_cells, hgrow]
    rfl
  have heq : A' = (grow square (ps ++ [p])).cells := by
    apply List.ext_getElem?
    intro j
    cases hcell : (grow square (ps ++ [p])).cells[j]? with
    | none => rwa [List.getElem?_eq_none_iff, hlength, ← List.getElem?_eq_none_iff]
    | some r =>
      obtain ⟨hmem, rfl⟩ := getElem?_cells_iff.1 hcell
      have hholds := h.holds
      rw [length_cells] at hholds
      rw [hgrow] at hmem
      exact hholds r hmem
  rw [← heq]
  exact h.ends

/-! ## Trees over places -/

theorem index_particlesOf (places : List Point) :
    (particlesOf places).map (·.index) = List.range places.length := by
  rw [particlesOf, List.map_map, List.range_eq_range', ← List.zipIdx_map_snd]
  rfl

theorem nodup_index_particlesOf (places : List Point) : ((particlesOf places).map (·.index)).Nodup := by
  rw [index_particlesOf]
  exact List.nodup_range

/-- A tree over some places is in order. Its cells stand in a row, its particles are in the leaves, each
in one, and lie where they belong; and it has grown by walks down its arena that all ended. -/
structure Orderly (t : Quadtree) (places : List Point) : Prop where
  root : ∃ r, t.cells[0]? = some r ∧ r.square = t.square ∧ r.depth = 0
  reached {k : Nat} (hk : k < t.cells.length) : Arena.Below t.cells 0 k
  kept {b : Nat} (hb : b < places.length) : ∃! k, Arena.Keeps t.cells k b
  once : (t.cells.flatMap (·.particles)).Perm (particlesOf places)
  bare {r : CellRecord} {first : Nat} (hr : r ∈ t.cells) (hfirst : r.first = some first) :
    r.particles = []
  parts {k first : Nat} {r : CellRecord} (hr : t.cells[k]? = some r) (hfirst : r.first = some first)
    (q : Quadrant) : k < first + q.offset ∧ ∃ r', t.cells[first + q.offset]? = some r' ∧
      r'.depth = r.depth + 1 ∧ r'.square = r.square.part q
  /-- no cell is a part of two cells, nor twice a part of one -/
  whole {k k' first first' : Nat} {r r' : CellRecord} {q q' : Quadrant}
    (hr : t.cells[k]? = some r) (hfirst : r.first = some first)
    (hr' : t.cells[k']? = some r') (hfirst' : r'.first = some first')
    (h : first + q.offset = first' + q'.offset) : k = k' ∧ q = q'
  depth {r : CellRecord} (hr : r ∈ t.cells) : r.depth ≤ 12
  fits {r : CellRecord} (hr : r ∈ t.cells) (hfirst : r.first = none) (hdepth : r.depth < 12) :
    r.particles.length ≤ 8
  count {k : Nat} {r : CellRecord} (hr : t.cells[k]? = some r) :
    r.load.count = (Arena.bodies t.cells k).ncard
  /-- what is kept in a part or below it belongs there -/
  quadrant {k first b : Nat} {r : CellRecord} {q : Quadrant} (hr : t.cells[k]? = some r)
    (hfirst : r.first = some first) (hb : b ∈ Arena.bodies t.cells (first + q.offset)) :
    ∃ place, places[b]? = some place ∧ r.square.quadrant place = q
  grown : t = grow t.square (particlesOf places)
  /-- a particle that is inserted goes through 13 cells at most -/
  ends (done : List Particle) (p : Particle) :
    ∃ n ≤ 13, Ends (Arena.descend p) n ((grow t.square done).cells, 0)
      (grow t.square (done ++ [p])).cells

theorem orderly_of_build {places : List Point} {t : Quadtree} (h : build places = some t) :
    t.Orderly places := by
  obtain ⟨square, rfl⟩ := exists_grow_of_build h
  have hnodup := nodup_index_particlesOf places
  refine ⟨?_, ?_, ?_, ?_, ?_, ?_, ?_, depth_le, length_particles_le, ?_, ?_, ?_, ?_⟩
  · refine ⟨_, (holds_cells square (particlesOf places)).self, ?_⟩
    cases (grow square (particlesOf places)).root <;> exact ⟨rfl, rfl⟩
  · intro k hk
    obtain ⟨hmem, hnumber⟩ := getElem?_cells_iff.1 (List.getElem?_eq_getElem hk)
    exact (holds_cells square _).below_iff.2 ⟨_, hmem, hnumber⟩
  · intro b hb
    have hmem : b ∈ (particlesOf places).map (·.index) := by
      rw [index_particlesOf]
      exact List.mem_range.2 hb
    obtain ⟨p, hp, rfl⟩ := List.mem_map.1 hmem
    exact existsUnique_keeps hnodup square hp
  · apply ((List.mergeSort_perm _ _).flatMap_right _).trans
    rw [Cell.flatMap_particles_records]
    exact particles_grow square _
  · intro r first hr hfirst
    obtain ⟨k, hk⟩ := List.mem_iff_getElem?.1 hr
    exact particles_of_first hk hfirst
  · intro k first r hr hfirst q
    exact exists_part_of_first hr hfirst q
  · intro k k' first first' r r' q q' hr hfirst hr' hfirst' heq
    exact eq_of_part_eq hr hfirst hr' hfirst' heq
  · intro k r hr
    exact (ncard_bodies hnodup hr).symm
  · intro k first b r q hr hfirst hb
    obtain ⟨p, hp, rfl, hquadrant⟩ := quadrant_of_mem_bodies hr hfirst hb
    have hmem : p ∈ particlesOf places := (particles_grow square _).mem_iff.1 hp
    exact ⟨p.pos, getElem?_of_mem_particlesOf hmem, hquadrant⟩
  · rw [square_grow]
  · intro done p
    exact ends_descend _ done p

/-- Nine particles at one place are handed down together until no cell can be divided. -/
theorem orderly_of_build_coincident :
    ∃ t, build (List.replicate 9 ⟨5.0, 5.0⟩) = some t ∧ t.size = 49 ∧
      t.Orderly (List.replicate 9 ⟨5.0, 5.0⟩) := by
  have hsize : (build (List.replicate 9 ⟨5.0, 5.0⟩)).map (·.size) = some 49 := by decide +kernel
  obtain ⟨t, ht, hsize⟩ := Option.map_eq_some_iff.1 hsize
  exact ⟨t, ht, hsize, orderly_of_build ht⟩

end Quadtree

end ImportAtlas
