-- SUMMARY: What a quadtree holds: the particles that were put into it, in cells that are numbered on.
import ImportAtlas.Layout.Quadtree
import Mathlib.Data.List.Induction
import Mathlib.Data.List.Perm.Basic

/-! # The contents of a tree

Insertion adds one particle and loses none, also where a full cell is divided: its four parts together
hold what the cell held. New cells get the next four numbers each time a cell is divided. So the tree
over some places holds each of them once, under its own number, and every number by which a cell refers
to its parts is that of a cell. -/

namespace ImportAtlas

namespace Quadrant

/-- One of four things, by the part of a square. -/
def choose {α : Type} (q : Quadrant) (a b c d : α) : α :=
  match q with
  | .upperLeft => a
  | .upperRight => b
  | .lowerLeft => c
  | .lowerRight => d

/-- What the four parts of a square hold together. -/
def gather {α : Type} (f : Quadrant → List α) : List α :=
  f .upperLeft ++ f .upperRight ++ f .lowerLeft ++ f .lowerRight

theorem perm_append_middle {α : Type} {u v new : List α} (x y : List α) (h : u.Perm (new ++ v)) :
    (x ++ u ++ y).Perm (new ++ (x ++ v ++ y)) := by
  have hfront : (x ++ u).Perm (new ++ (x ++ v)) :=
    (h.append_left x).trans (List.perm_append_comm_assoc x new v)
  rw [← List.append_assoc]
  exact hfront.append_right y

/-- What is new in one part is new in the whole. -/
theorem gather_append_perm {α : Type} {f g : Quadrant → List α} (new : List α) (q : Quadrant)
    (hnew : (f q).Perm (new ++ g q)) (hold : ∀ r, r ≠ q → f r = g r) :
    (gather f).Perm (new ++ gather g) := by
  cases q with
  | upperLeft =>
    have h := perm_append_middle [] (g .upperRight ++ g .lowerLeft ++ g .lowerRight) hnew
    simpa [gather, hold] using h
  | upperRight =>
    have h := perm_append_middle (g .upperLeft) (g .lowerLeft ++ g .lowerRight) hnew
    simpa [gather, hold] using h
  | lowerLeft =>
    have h := perm_append_middle (g .upperLeft ++ g .upperRight) (g .lowerRight) hnew
    simpa [gather, hold] using h
  | lowerRight =>
    have h := perm_append_middle (g .upperLeft ++ g .upperRight ++ g .lowerLeft) [] hnew
    simpa [gather, hold] using h

/-- Where one of four things is exchanged, only what it holds is new. -/
theorem gather_pick_perm {α β : Type} (view : β → List α) (new : List α) {q : Quadrant} {a b c d e : β}
    (hnew : (view e).Perm (new ++ view (q.choose a b c d))) :
    (gather fun r => view (if r = q then e else r.choose a b c d)).Perm
      (new ++ (view a ++ view b ++ view c ++ view d)) := by
  refine gather_append_perm (g := fun r => view (r.choose a b c d)) new q ?_ ?_
  · rw [if_pos rfl]
    exact hnew
  · intro r hr
    rw [if_neg hr]

/-- Sharing elements out to the four parts loses none. -/
theorem gather_filter_perm {α : Type} (quadrant : α → Quadrant) (xs : List α) :
    (gather fun r => xs.filter fun x => quadrant x = r).Perm xs := by
  induction xs with
  | nil => exact .refl _
  | cons x xs ih =>
    have hcons := gather_append_perm (f := fun r => (x :: xs).filter fun y => quadrant y = r)
      (g := fun r => xs.filter fun y => quadrant y = r) [x] (quadrant x) (.of_eq (by simp))
      fun r hr => List.filter_cons_of_neg (by simpa using hr.symm)
    exact hcons.trans (ih.cons x)

end Quadrant

namespace Cell

variable {room : Nat}

/-! ## Insertion -/

/-- The four parts of a full cell, each with its share of the particles. -/
def divided (s : Square) (w : Load) (ps : List Particle) (first : Nat) : Cell (room + 1) :=
  branch w first (leafOf s ps .upperLeft) (leafOf s ps .upperRight) (leafOf s ps .lowerLeft)
    (leafOf s ps .lowerRight)

/-- A particle goes to the part of a divided cell in which it belongs. -/
theorem insert_branch (p : Particle) (s : Square) (w : Load) (first : Nat) (a b c d : Cell room)
    (next : Nat) :
    let q := s.quadrant p.pos
    let part := insert p (s.part q) (q.choose a b c d) next
    let pick (r : Quadrant) : Cell room := if r = q then part.1 else r.choose a b c d
    insert p s (branch w first a b c d) next =
      (branch (w.add p.pos) first (pick .upperLeft) (pick .upperRight) (pick .lowerLeft)
        (pick .lowerRight), part.2) := by
  rw [insert]
  cases s.quadrant p.pos <;> rfl

/-- A full cell takes a particle by being divided first. -/
theorem insert_full (p : Particle) (s : Square) (w : Load) {ps : List Particle} (next : Nat)
    (hfull : ¬ ps.length < capacity) :
    insert p s (leaf w ps : Cell (room + 1)) next = insert p s (divided s w ps next) (next + 4) := by
  rw [divided, insert_branch, insert, if_neg hfull]
  cases s.quadrant p.pos <;> rfl

/-! ## Particles -/

theorem particles_divided (s : Square) (w : Load) (ps : List Particle) (first : Nat) :
    (divided s w ps first : Cell (room + 1)).particles.Perm ps :=
  Quadrant.gather_filter_perm (fun x : Particle => s.quadrant x.pos) ps

/-- Insertion adds the particle to those that a cell holds. -/
theorem particles_insert (p : Particle) (s : Square) (c : Cell room) (next : Nat) :
    (insert p s c next).1.particles.Perm (p :: c.particles) := by
  induction room generalizing s next with
  | zero =>
    cases c with
    | leaf w ps => exact List.perm_append_singleton p ps
  | succ room ih =>
    -- a full cell is divided before it takes the particle, so this case serves for both kinds of cell
    have hbranch (w : Load) (first : Nat) (a b c d : Cell room) (next : Nat) :
        (insert p s (branch w first a b c d) next).1.particles.Perm
          (p :: (branch w first a b c d).particles) := by
      rw [insert_branch]
      exact Quadrant.gather_pick_perm particles [p] (ih _ _ next)
    cases c with
    | leaf w ps =>
      by_cases hroom : ps.length < capacity
      · rw [insert, if_pos hroom]
        exact List.perm_append_singleton p ps
      · rw [insert_full p s w next hroom]
        exact (hbranch _ _ _ _ _ _ _).trans ((particles_divided s w ps next).cons p)
    | branch w first a b c d => exact hbranch w first a b c d next

/-! ## Numbers -/

/-- The numbers by which the divided cells refer to the first of their parts. -/
def firsts {room : Nat} : Cell room → List Nat
  | leaf _ _ => []
  | branch _ first a b c d => first :: (a.firsts ++ b.firsts ++ c.firsts ++ d.firsts)

/-- Each time a cell is divided, its parts get the next four numbers. -/
theorem firsts_insert (p : Particle) (s : Square) (c : Cell room) (next : Nat) :
    ∃ k, (insert p s c next).2 = next + 4 * k ∧
      (insert p s c next).1.firsts.Perm ((List.range k).map (next + 4 * ·) ++ c.firsts) := by
  induction room generalizing s next with
  | zero =>
    cases c with
    | leaf w ps => exact ⟨0, rfl, .refl _⟩
  | succ room ih =>
    have hbranch (w : Load) (first : Nat) (a b c d : Cell room) (next : Nat) :
        ∃ k, (insert p s (branch w first a b c d) next).2 = next + 4 * k ∧
          (insert p s (branch w first a b c d) next).1.firsts.Perm
            ((List.range k).map (next + 4 * ·) ++ (branch w first a b c d).firsts) := by
      obtain ⟨k, hsize, hfirsts⟩ :=
        ih (s.part (s.quadrant p.pos)) ((s.quadrant p.pos).choose a b c d) next
      rw [insert_branch]
      refine ⟨k, hsize, ?_⟩
      exact ((Quadrant.gather_pick_perm firsts _ hfirsts).cons first).trans List.perm_middle.symm
    cases c with
    | leaf w ps =>
      by_cases hroom : ps.length < capacity
      · rw [insert, if_pos hroom]
        exact ⟨0, rfl, .refl _⟩
      · rw [insert_full p s w next hroom]
        obtain ⟨k, hsize, hfirsts⟩ := hbranch w next (leafOf s ps .upperLeft) (leafOf s ps .upperRight)
          (leafOf s ps .lowerLeft) (leafOf s ps .lowerRight) (next + 4)
        have hrange : (List.range (k + 1)).map (next + 4 * ·) =
            next :: (List.range k).map (next + 4 + 4 * ·) := by
          rw [List.range_succ_eq_map, List.map_cons, List.map_map]
          refine congrArg (next :: ·) (List.map_congr_left fun i _ => ?_)
          simp only [Function.comp_apply]
          omega
        refine ⟨k + 1, by rw [divided, hsize]; omega, ?_⟩
        rw [hrange, firsts, List.append_nil]
        refine hfirsts.trans ?_
        simp only [leafOf, firsts, List.append_nil]
        exact List.perm_append_singleton next _
    | branch w first a b c d => exact hbranch w first a b c d next

/-- On record are the cell itself and four parts for each division. -/
theorem length_records (number depth : Nat) (s : Square) (c : Cell room) :
    (c.records number depth s).length = 4 * c.firsts.length + 1 := by
  induction c generalizing number depth s with
  | leaf w ps => simp [records, firsts]
  | branch w first a b c d iha ihb ihc ihd =>
    simp only [records, firsts, List.length_cons, List.length_append, iha, ihb, ihc, ihd]
    omega

theorem first_mem_firsts {number depth : Nat} {s : Square} {c : Cell room} {r : CellRecord} {f : Nat}
    (hr : r ∈ c.records number depth s) (hf : r.first = some f) : f ∈ c.firsts := by
  induction c generalizing number depth s with
  | leaf w ps =>
    simp only [records, List.mem_singleton] at hr
    simp [hr] at hf
  | branch w first a b c d iha ihb ihc ihd =>
    simp only [records, List.mem_cons, List.mem_append] at hr
    simp only [firsts, List.mem_cons, List.mem_append]
    rcases hr with rfl | ((hr | hr) | hr) | hr
    · exact .inl (Option.some.inj hf).symm
    · exact .inr (.inl (.inl (.inl (iha hr))))
    · exact .inr (.inl (.inl (.inr (ihb hr))))
    · exact .inr (.inl (.inr (ihc hr)))
    · exact .inr (.inr (ihd hr))

end Cell

namespace Quadtree

/-- A tree over a square after some particles were put into it. -/
def grow (square : Square) (ps : List Particle) : Quadtree := ps.foldl insert ⟨square, Cell.empty, 1⟩

theorem exists_grow_of_build {ps : List Point} {t : Quadtree} (h : build ps = some t) :
    ∃ square, t = grow square (particlesOf ps) := by
  obtain ⟨square, -, ht⟩ := Option.bind_eq_some_iff.1 h
  exact ⟨square, (Option.some.inj ht).symm⟩

theorem grow_concat (square : Square) (ps : List Particle) (p : Particle) :
    grow square (ps ++ [p]) = (grow square ps).insert p :=
  List.foldl_concat ..

/-- A tree holds each particle that was put into it once. -/
theorem particles_grow (square : Square) (ps : List Particle) :
    (grow square ps).root.particles.Perm ps := by
  induction ps using List.reverseRecOn with
  | nil => exact .refl _
  | append_singleton ps p ih =>
    have hinsert : ((grow square ps).insert p).root.particles.Perm (p :: (grow square ps).root.particles) :=
      Cell.particles_insert p _ _ _
    rw [grow_concat]
    exact hinsert.trans ((ih.cons p).trans (List.perm_append_singleton p ps).symm)

/-- The cells of a tree have the numbers from 0 on: that of the root and four for each division. -/
theorem firsts_grow (square : Square) (ps : List Particle) :
    ∃ k, (grow square ps).size = 1 + 4 * k ∧
      (grow square ps).root.firsts.Perm ((List.range k).map (1 + 4 * ·)) := by
  induction ps using List.reverseRecOn with
  | nil => exact ⟨0, rfl, .refl _⟩
  | append_singleton ps p ih =>
    obtain ⟨k, hsize, hfirsts⟩ := ih
    obtain ⟨j, hnext, hnew⟩ := Cell.firsts_insert p (grow square ps).square (grow square ps).root
      (grow square ps).size
    have hrange : (List.range (k + j)).map (1 + 4 * ·) =
        (List.range k).map (1 + 4 * ·) ++ (List.range j).map ((grow square ps).size + 4 * ·) := by
      rw [List.range_add, List.map_append, List.map_map]
      refine congrArg (_ ++ ·) (List.map_congr_left fun i _ => ?_)
      simp only [Function.comp_apply]
      omega
    rw [grow_concat]
    refine ⟨k + j, ?_, ?_⟩
    · exact hnext.trans (by omega)
    · rw [hrange]
      exact hnew.trans ((hfirsts.append_left _).trans List.perm_append_comm)

theorem length_cells (square : Square) (ps : List Particle) :
    (grow square ps).cells.length = (grow square ps).size := by
  obtain ⟨k, hsize, hfirsts⟩ := firsts_grow square ps
  rw [cells, List.length_mergeSort, Cell.length_records, hfirsts.length_eq, List.length_map,
    List.length_range, hsize]
  omega

/-- A particle stands at the place with its number. -/
theorem getElem?_of_mem_particlesOf {ps : List Point} {q : Particle} (h : q ∈ particlesOf ps) :
    ps[q.index]? = some q.pos := by
  obtain ⟨⟨p, i⟩, hp, rfl⟩ := List.mem_map.1 h
  exact List.mem_zipIdx_iff_getElem?.1 hp

/-! ## References -/

/-- Whatever a tree over some places refers to by number is there. -/
structure Within (t : Quadtree) (places : List Point) : Prop where
  particles {q : Particle} (h : q ∈ t.root.particles) : places[q.index]? = some q.pos
  root : 0 < t.cells.length
  parts {r : CellRecord} {first : Nat} (hr : r ∈ t.cells) (hfirst : r.first = some first) :
    first + 3 < t.cells.length

theorem within_grow {ps : List Point} {done : List Particle} (square : Square)
    (hdone : done ⊆ particlesOf ps) : (grow square done).Within ps := by
  obtain ⟨k, hsize, hfirsts⟩ := firsts_grow square done
  refine ⟨?_, ?_, ?_⟩
  · intro q hq
    exact getElem?_of_mem_particlesOf (hdone ((particles_grow square done).mem_iff.1 hq))
  · rw [length_cells, hsize]
    omega
  · intro r first hr hfirst
    have hmem : first ∈ (grow square done).root.firsts :=
      Cell.first_mem_firsts (List.mem_mergeSort.1 hr) hfirst
    obtain ⟨i, hi, rfl⟩ := List.mem_map.1 (hfirsts.mem_iff.1 hmem)
    have hik : i < k := List.mem_range.1 hi
    rw [length_cells, hsize]
    omega

end Quadtree

end ImportAtlas
