-- SUMMARY: Segments of the rational plane, and that the test for a common point of two of them is exact.
import ImportAtlas.Canvas.Rect
import Mathlib.Analysis.Convex.Segment
import Mathlib.Tactic.Linarith
import Mathlib.Tactic.LinearCombination
import Mathlib.Tactic.Ring

/-! # Segments

The test whether two segments have a point in common compares boxes and signs. Over the rationals it
is exact, also for segments that are parallel, that lie on one line or that are single points.

While a point walks along a segment, its coordinates go from those of one end to those of the other, and
so does the number that tells on which side of a line it is. Hence a segment meets a line exactly if its
ends straddle it. Two segments that each meet the line of the other have a point in common unless they
are parallel; then all four ends are on one line, and the boxes decide. -/

namespace ImportAtlas

open Set (uIcc)

attribute [ext] Vec

/-- Over the rationals the smaller and the larger of two numbers are those of the order. -/
instance : Extremes ℚ := ⟨min, max⟩

@[simp] theorem least_eq_min (a b : ℚ) : Extremes.least a b = min a b := rfl

@[simp] theorem greatest_eq_max (a b : ℚ) : Extremes.greatest a b = max a b := rfl

/-- The number that has come a part `t` of the way from `a` to `b`. -/
def blend (a b t : ℚ) : ℚ := a + (b - a) * t

/-- The numbers met on the way are those between the two ends. -/
theorem exists_blend_eq_iff {a b c : ℚ} :
    (∃ t, (0 ≤ t ∧ t ≤ 1) ∧ blend a b t = c) ↔ c ∈ uIcc a b := by
  rw [← segment_eq_uIcc, segment_eq_image']
  simp only [Set.mem_image, Set.mem_Icc, blend, smul_eq_mul, mul_comm]

namespace Vec

variable {a b c d p q : Vec ℚ}

/-! ## Segments -/

/-- The point that has come a part `t` of the way from `a` to `b`. -/
def walk (a b : Vec ℚ) (t : ℚ) : Vec ℚ := a + (b - a).scale t

@[simp] theorem x_walk (a b : Vec ℚ) (t : ℚ) : (a.walk b t).x = blend a.x b.x t := rfl

@[simp] theorem y_walk (a b : Vec ℚ) (t : ℚ) : (a.walk b t).y = blend a.y b.y t := rfl

/-- The closed segment between two points. -/
def segment (a b : Vec ℚ) : Set (Vec ℚ) := { p | ∃ t, (0 ≤ t ∧ t ≤ 1) ∧ a.walk b t = p }

theorem left_mem_segment (a b : Vec ℚ) : a ∈ segment a b := by
  refine ⟨0, ⟨le_rfl, zero_le_one⟩, ?_⟩
  ext <;> simp [blend]

theorem segment_subset_swap (a b : Vec ℚ) : segment a b ⊆ segment b a := by
  rintro p ⟨t, ⟨ht₀, ht₁⟩, rfl⟩
  refine ⟨1 - t, ⟨by linarith, by linarith⟩, ?_⟩
  ext <;> simp only [x_walk, y_walk, blend] <;> ring

theorem segment_comm (a b : Vec ℚ) : segment a b = segment b a :=
  (segment_subset_swap a b).antisymm (segment_subset_swap b a)

theorem right_mem_segment (a b : Vec ℚ) : b ∈ segment a b :=
  segment_comm b a ▸ left_mem_segment b a

/-- A segment is convex. -/
theorem segment_subset (hp : p ∈ segment a b) (hq : q ∈ segment a b) : segment p q ⊆ segment a b := by
  obtain ⟨s, ⟨hs₀, hs₁⟩, rfl⟩ := hp
  obtain ⟨t, ⟨ht₀, ht₁⟩, rfl⟩ := hq
  rintro r ⟨u, hu, rfl⟩
  obtain ⟨hlow, hhigh⟩ := Set.mem_Icc.1 (exists_blend_eq_iff.1 ⟨u, hu, rfl⟩ : blend s t u ∈ uIcc s t)
  refine ⟨blend s t u, ⟨(le_min hs₀ ht₀).trans hlow, hhigh.trans (max_le hs₁ ht₁)⟩, ?_⟩
  ext <;> simp only [x_walk, y_walk, blend] <;> ring

/-! ## Numbers that change evenly along a segment -/

/-- While a point walks from `a` to `b`, its number goes evenly from `f a` to `f b`. -/
def IsAffine (f : Vec ℚ → ℚ) : Prop := ∀ a b t, f (a.walk b t) = blend (f a) (f b) t

theorem isAffine_x : IsAffine (·.x) := fun _ _ _ => rfl

theorem isAffine_y : IsAffine (·.y) := fun _ _ _ => rfl

theorem cross_eq (o a b : Vec ℚ) :
    cross o a b = (a.x - o.x) * (b.y - o.y) - (a.y - o.y) * (b.x - o.x) :=
  rfl

theorem isAffine_cross (a b : Vec ℚ) : IsAffine (cross a b) := by
  intro c d t
  simp only [cross_eq, x_walk, y_walk, blend]
  ring

theorem IsAffine.exists_mem_segment_iff {f : Vec ℚ → ℚ} (hf : IsAffine f) {k : ℚ} :
    (∃ p ∈ segment a b, f p = k) ↔ k ∈ uIcc (f a) (f b) := by
  rw [← exists_blend_eq_iff]
  constructor
  · rintro ⟨p, ⟨t, ht, rfl⟩, hk⟩
    exact ⟨t, ht, (hf a b t).symm.trans hk⟩
  · rintro ⟨t, ht, hk⟩
    exact ⟨a.walk b t, ⟨t, ht, rfl⟩, (hf a b t).trans hk⟩

theorem IsAffine.mem_uIcc {f : Vec ℚ → ℚ} (hf : IsAffine f) (hp : p ∈ segment a b) :
    f p ∈ uIcc (f a) (f b) :=
  hf.exists_mem_segment_iff.1 ⟨p, hp, rfl⟩

/-- A line is convex. -/
theorem IsAffine.eq_of_mem_segment {f : Vec ℚ → ℚ} (hf : IsAffine f) (hp : p ∈ segment a b)
    (hab : f a = f b) : f p = f b := by
  have hbetween := hf.mem_uIcc hp
  rwa [hab, Set.uIcc_self, Set.mem_singleton_iff] at hbetween

/-- A half plane is convex. -/
theorem IsAffine.nonneg_of_mem_segment {f : Vec ℚ → ℚ} (hf : IsAffine f) (hp : p ∈ segment a b)
    (ha : 0 ≤ f a) (hb : 0 ≤ f b) : 0 ≤ f p :=
  (le_min ha hb).trans (Set.mem_Icc.1 (hf.mem_uIcc hp)).1

/-- Between two points on one level of `f`, a point on that level is told by `g`, if the two numbers
together tell every point. -/
theorem mem_segment_of_level {f g : Vec ℚ → ℚ} (hf : IsAffine f) (hg : IsAffine g)
    (htell : ∀ p q, f p = f q → g p = g q → p = q) (hab : f a = f b) (hp : f p = f b)
    (hbetween : g p ∈ uIcc (g a) (g b)) : p ∈ segment a b := by
  obtain ⟨q, hq, hgq⟩ := hg.exists_mem_segment_iff.2 hbetween
  have hfq : f q = f p := (hf.eq_of_mem_segment hq hab).trans hp.symm
  exact htell q p hfq hgq ▸ hq

theorem mem_segment_of_x_eq (hab : a.x = b.x) (hp : p.x = b.x) (hy : p.y ∈ uIcc a.y b.y) :
    p ∈ segment a b :=
  mem_segment_of_level isAffine_x isAffine_y (fun _ _ => Vec.ext) hab hp hy

theorem mem_segment_of_y_eq (hab : a.y = b.y) (hp : p.y = b.y) (hx : p.x ∈ uIcc a.x b.x) :
    p ∈ segment a b :=
  mem_segment_of_level isAffine_y isAffine_x (fun _ _ hy hx => Vec.ext hx hy) hab hp hx

/-! ## Lines -/

/-- A segment lies on its own line. -/
theorem cross_of_mem_segment (hp : p ∈ segment a b) : cross a b p = 0 := by
  obtain ⟨t, -, rfl⟩ := hp
  simp only [cross_eq, x_walk, y_walk, blend]
  ring

/-- A segment meets a line exactly if its ends do not lie strictly on one side of it. -/
theorem straddles_cross_iff :
    straddles (cross a b c) (cross a b d) ↔ ∃ p ∈ segment c d, cross a b p = 0 := by
  rw [(isAffine_cross a b).exists_mem_segment_iff, Set.mem_uIcc, straddles_iff, and_comm (a := 0 ≤ _)]

/-- How far two segments are from being parallel. -/
def tilt (a b c d : Vec ℚ) : ℚ := (b.x - a.x) * (d.y - c.y) - (b.y - a.y) * (d.x - c.x)

theorem tilt_eq (a b c d : Vec ℚ) : tilt a b c d = cross a b d - cross a b c := by
  simp only [tilt, cross_eq]
  ring

theorem tilt_swap (a b c d : Vec ℚ) : tilt c d a b = -tilt a b c d := by
  simp only [tilt]
  ring

/-- Lines that are not parallel have at most one point in common. -/
theorem eq_of_tilt_ne_zero (h : tilt a b c d ≠ 0) (hp : cross a b p = 0) (hp' : cross c d p = 0)
    (hq : cross a b q = 0) (hq' : cross c d q = 0) : p = q := by
  rw [cross_eq] at hp hp' hq hq'
  ext
  · refine mul_left_cancel₀ h ?_
    rw [tilt]
    linear_combination (d.x - c.x) * (hp - hq) - (b.x - a.x) * (hp' - hq')
  · refine mul_left_cancel₀ h ?_
    rw [tilt]
    linear_combination (d.y - c.y) * (hp - hq) - (b.y - a.y) * (hp' - hq')

/-- A line that is not vertical has one point above each number. -/
theorem eq_of_x_ne (h : a.x ≠ b.x) (hp : cross a b p = 0) (hq : cross a b q = 0) (hx : p.x = q.x) :
    p = q := by
  rw [cross_eq] at hp hq
  refine Vec.ext hx (mul_left_cancel₀ (sub_ne_zero.2 h.symm) ?_)
  linear_combination hp - hq + (b.y - a.y) * hx

/-- A segment that meets a parallel line lies on it. -/
theorem cross_eq_zero_of_parallel (h : tilt a b c d = 0) (hq : q ∈ segment c d) (hq₀ : cross a b q = 0)
    (hp : p ∈ segment c d) : cross a b p = 0 := by
  have hsame : cross a b c = cross a b d := by linarith [tilt_eq a b c d]
  have hconst {r : Vec ℚ} (hr : r ∈ segment c d) : cross a b r = cross a b d :=
    (isAffine_cross a b).eq_of_mem_segment hr hsame
  rw [hconst hp, ← hconst hq, hq₀]

/-! ## Boxes -/

/-- Two ranges of numbers overlap exactly if none of them ends before the other begins. -/
theorem nonempty_uIcc_inter_iff {i j k l : ℚ} :
    (uIcc i j ∩ uIcc k l).Nonempty ↔ ¬ max i j < min k l ∧ ¬ max k l < min i j := by
  rw [uIcc, uIcc, Set.Icc_inter_Icc, Set.nonempty_Icc, not_lt, not_lt]
  simp only [sup_le_iff, le_inf_iff, inf_le_sup, true_and, and_true]

/-- What the test asks: the boxes overlap in both directions, and each segment meets the line of the
other. -/
theorem segmentsMeet_iff_overlap :
    segmentsMeet a b c d ↔
      ((uIcc a.x b.x ∩ uIcc c.x d.x).Nonempty ∧ (uIcc a.y b.y ∩ uIcc c.y d.y).Nonempty) ∧
        (∃ p ∈ segment c d, cross a b p = 0) ∧ ∃ p ∈ segment a b, cross c d p = 0 := by
  rw [← straddles_cross_iff, ← straddles_cross_iff, nonempty_uIcc_inter_iff, nonempty_uIcc_inter_iff,
    segmentsMeet]
  simp only [least_eq_min, greatest_eq_max, Bool.if_false_left, Bool.and_eq_true, Bool.not_eq_true',
    Bool.or_eq_false_iff, Bool.decide_eq_true, decide_eq_false_iff_not, and_assoc]

/-- Segments with a common direction whose boxes overlap have a point in common if each lies on the line
of the other. -/
theorem exists_mem_of_collinear (hx : (uIcc a.x b.x ∩ uIcc c.x d.x).Nonempty)
    (hy : (uIcc a.y b.y ∩ uIcc c.y d.y).Nonempty) (hab : ∀ p ∈ segment a b, cross c d p = 0)
    (hcd : ∀ p ∈ segment c d, cross a b p = 0) : (segment a b ∩ segment c d).Nonempty := by
  obtain ⟨k, hk, hk'⟩ := hx
  obtain ⟨p, hp, hpk⟩ := isAffine_x.exists_mem_segment_iff.2 hk
  obtain ⟨q, hq, hqk⟩ := isAffine_x.exists_mem_segment_iff.2 hk'
  have hpq : p.x = q.x := hpk.trans hqk.symm
  by_cases hc : c.x = d.x
  · by_cases ha : a.x = b.x
    · -- both are vertical and above one number, where their heights overlap
      obtain ⟨l, hl, hl'⟩ := hy
      obtain ⟨r, hr, hrl⟩ := isAffine_y.exists_mem_segment_iff.2 hl
      have hrx : r.x = d.x := by
        calc r.x = b.x := isAffine_x.eq_of_mem_segment hr ha
          _ = p.x := (isAffine_x.eq_of_mem_segment hp ha).symm
          _ = q.x := hpq
          _ = d.x := isAffine_x.eq_of_mem_segment hq hc
      exact ⟨r, hr, mem_segment_of_x_eq hc hrx (hrl ▸ hl')⟩
    · obtain rfl := eq_of_x_ne ha (cross_of_mem_segment hp) (hcd q hq) hpq
      exact ⟨p, hp, hq⟩
  · obtain rfl := eq_of_x_ne hc (hab p hp) (cross_of_mem_segment hq) hpq
    exact ⟨p, hp, hq⟩

/-- The test is exact. -/
theorem segmentsMeet_iff : segmentsMeet a b c d ↔ (segment a b ∩ segment c d).Nonempty := by
  rw [segmentsMeet_iff_overlap]
  constructor
  · rintro ⟨⟨hx, hy⟩, ⟨q, hq, hq₀⟩, ⟨p, hp, hp₀⟩⟩
    by_cases h : tilt a b c d = 0
    · have h' : tilt c d a b = 0 := by rw [tilt_swap, h, neg_zero]
      exact exists_mem_of_collinear hx hy (fun _ => cross_eq_zero_of_parallel h' hp hp₀)
        (fun _ => cross_eq_zero_of_parallel h hq hq₀)
    · obtain rfl := eq_of_tilt_ne_zero h (cross_of_mem_segment hp) hp₀ hq₀ (cross_of_mem_segment hq)
      exact ⟨p, hp, hq⟩
  · rintro ⟨p, hp, hq⟩
    exact ⟨⟨⟨p.x, isAffine_x.mem_uIcc hp, isAffine_x.mem_uIcc hq⟩,
        ⟨p.y, isAffine_y.mem_uIcc hp, isAffine_y.mem_uIcc hq⟩⟩,
      ⟨p, hq, cross_of_mem_segment hp⟩, ⟨p, hp, cross_of_mem_segment hq⟩⟩

end Vec

end ImportAtlas
