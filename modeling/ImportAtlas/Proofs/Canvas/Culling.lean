-- SUMMARY: Over the rationals an edge counts as visible exactly if it has a point in the rectangle.
import ImportAtlas.Proofs.Geometry.Segments

/-! # Culling

An edge is drawn if it can be seen in the rectangle of the canvas. Read over the rationals the test for
this is exact: it holds if and only if the closed segment of the edge has a point in the closed rectangle.

The test looks for such a point among the ends of the segment and on the four sides only. That is enough:
a segment that begins outside and has a point inside enters the rectangle through a side. Each side bounds
a half plane, and the proof takes them one after the other. A point of the way that is in the half planes
taken so far is moved on, if need be, to where the way enters the next one. It stays in the others, since
the point inside is in all of them. -/

namespace ImportAtlas

open Vec

/-! ## Entering half planes -/

/-- On the way to a point in some half planes there is a point in all of them which is on the line of one,
or the way begins there. -/
theorem exists_entry {fs : List (Vec ℚ → ℚ)} (hfs : ∀ f ∈ fs, IsAffine f) (a : Vec ℚ) {p : Vec ℚ}
    (hp : ∀ f ∈ fs, 0 ≤ f p) :
    ∃ q ∈ segment a p, (∀ f ∈ fs, 0 ≤ f q) ∧ (q = a ∨ ∃ f ∈ fs, f q = 0) := by
  induction fs with
  | nil => exact ⟨a, left_mem_segment a p, by simp, .inl rfl⟩
  | cons f fs ih =>
    rw [List.forall_mem_cons] at hfs hp
    obtain ⟨q, hq, hpos, hentry⟩ := ih hfs.2 hp.2
    by_cases hf : 0 ≤ f q
    · refine ⟨q, hq, List.forall_mem_cons.2 ⟨hf, hpos⟩, hentry.imp_right ?_⟩
      rintro ⟨g, hg, hgq⟩
      exact ⟨g, List.mem_cons_of_mem f hg, hgq⟩
    · -- the new half plane is entered between `q` and `p`, and both are in the others
      have hzero : (0 : ℚ) ∈ Set.uIcc (f q) (f p) := Set.mem_uIcc_of_le (not_le.1 hf).le hp.1
      obtain ⟨r, hr, hfr⟩ := hfs.1.exists_mem_segment_iff.2 hzero
      have hstay (g : Vec ℚ → ℚ) (hg : g ∈ fs) : 0 ≤ g r :=
        (hfs.2 g hg).nonneg_of_mem_segment hr (hpos g hg) (hp.2 g hg)
      exact ⟨r, segment_subset hq (right_mem_segment a p) hr,
        List.forall_mem_cons.2 ⟨hfr.ge, hstay⟩, .inr ⟨f, List.mem_cons_self, hfr⟩⟩

namespace Rect

variable {r : Rect ℚ} {a b p : Vec ℚ}

/-! ## Sides -/

/-- The closed rectangle. -/
def region (r : Rect ℚ) : Set (Vec ℚ) :=
  { p | (r.left ≤ p.x ∧ p.x ≤ r.right) ∧ r.top ≤ p.y ∧ p.y ≤ r.bottom }

theorem contains_iff_mem_region : r.contains p ↔ p ∈ r.region := contains_iff

/-- How far a point is inside of each side. -/
def margins (r : Rect ℚ) : List (Vec ℚ → ℚ) :=
  [fun p => p.x - r.left, fun p => r.right - p.x, fun p => p.y - r.top, fun p => r.bottom - p.y]

theorem mem_region_iff_margins : p ∈ r.region ↔ ∀ f ∈ r.margins, 0 ≤ f p := by
  simp [region, margins, and_assoc]

theorem isAffine_of_mem_margins {f : Vec ℚ → ℚ} (hf : f ∈ r.margins) : IsAffine f := by
  simp only [margins, List.mem_cons, List.not_mem_nil, or_false] at hf
  intro a b t
  rcases hf with rfl | rfl | rfl | rfl <;> simp only [x_walk, y_walk, blend] <;> ring

/-- The four sides, each from one corner to the next. -/
def sides (r : Rect ℚ) : List (Vec ℚ × Vec ℚ) :=
  [(r.leftTop, r.rightTop), (r.rightTop, r.rightBottom), (r.rightBottom, r.leftBottom),
    (r.leftBottom, r.leftTop)]

/-- A rectangle is convex. -/
theorem segment_subset_region (ha : a ∈ r.region) (hb : b ∈ r.region) : segment a b ⊆ r.region := by
  intro p hp
  rw [mem_region_iff_margins] at ha hb ⊢
  intro f hf
  exact (isAffine_of_mem_margins hf).nonneg_of_mem_segment hp (ha f hf) (hb f hf)

theorem exists_side_of_margin (hp : p ∈ r.region) {f : Vec ℚ → ℚ} (hf : f ∈ r.margins)
    (hzero : f p = 0) : ∃ s ∈ r.sides, p ∈ segment s.1 s.2 := by
  obtain ⟨hx, hy⟩ := hp
  simp only [margins, List.mem_cons, List.not_mem_nil, or_false] at hf
  rcases hf with rfl | rfl | rfl | rfl
  · exact ⟨(r.leftBottom, r.leftTop), by simp [sides],
      mem_segment_of_x_eq rfl (sub_eq_zero.1 hzero) (Set.mem_uIcc.2 (.inr hy))⟩
  · exact ⟨(r.rightTop, r.rightBottom), by simp [sides],
      mem_segment_of_x_eq rfl (sub_eq_zero.1 hzero).symm (Set.mem_uIcc.2 (.inl hy))⟩
  · exact ⟨(r.leftTop, r.rightTop), by simp [sides],
      mem_segment_of_y_eq rfl (sub_eq_zero.1 hzero) (Set.mem_uIcc.2 (.inl hx))⟩
  · exact ⟨(r.rightBottom, r.leftBottom), by simp [sides],
      mem_segment_of_y_eq rfl (sub_eq_zero.1 hzero).symm (Set.mem_uIcc.2 (.inr hx))⟩

/-- A segment that begins outside and has a point in the rectangle meets a side. -/
theorem exists_side_of_notMem (ha : a ∉ r.region) (h : (segment a b ∩ r.region).Nonempty) :
    ∃ s ∈ r.sides, (segment a b ∩ segment s.1 s.2).Nonempty := by
  obtain ⟨p, hp, hregion⟩ := h
  obtain ⟨q, hq, hpos, hentry⟩ := exists_entry (fun _ => isAffine_of_mem_margins) a
    (mem_region_iff_margins.1 hregion)
  have hq' : q ∈ r.region := mem_region_iff_margins.2 hpos
  rcases hentry with rfl | ⟨f, hf, hzero⟩
  · exact absurd hq' ha
  · obtain ⟨s, hs, hside⟩ := exists_side_of_margin hq' hf hzero
    exact ⟨s, hs, q, segment_subset (left_mem_segment a b) hp hq, hside⟩

theorem segment_side_subset (hx : r.left ≤ r.right) (hy : r.top ≤ r.bottom) {s : Vec ℚ × Vec ℚ}
    (hs : s ∈ r.sides) : segment s.1 s.2 ⊆ r.region := by
  have hleftTop : r.leftTop ∈ r.region := ⟨⟨le_rfl, hx⟩, le_rfl, hy⟩
  have hrightTop : r.rightTop ∈ r.region := ⟨⟨hx, le_rfl⟩, le_rfl, hy⟩
  have hleftBottom : r.leftBottom ∈ r.region := ⟨⟨le_rfl, hx⟩, hy, le_rfl⟩
  have hrightBottom : r.rightBottom ∈ r.region := ⟨⟨hx, le_rfl⟩, hy, le_rfl⟩
  simp only [sides, List.mem_cons, List.not_mem_nil, or_false] at hs
  rcases hs with rfl | rfl | rfl | rfl
  · exact segment_subset_region hleftTop hrightTop
  · exact segment_subset_region hrightTop hrightBottom
  · exact segment_subset_region hrightBottom hleftBottom
  · exact segment_subset_region hleftBottom hleftTop

end Rect

/-! ## Edges -/

section
variable {r : Rect ℚ} {a b : Vec ℚ} {padding : ℚ}

/-- What the test asks: the padded box of the edge does not lie beyond a side, and an end of the edge is in
the rectangle or a side is met. -/
theorem edgeVisible_iff_sides :
    edgeVisible r a b padding ↔
      ((r.left ≤ max a.x b.x + padding ∧ min a.x b.x - padding ≤ r.right) ∧
        r.top ≤ max a.y b.y + padding ∧ min a.y b.y - padding ≤ r.bottom) ∧
      ((a ∈ r.region ∨ b ∈ r.region) ∨ ∃ s ∈ r.sides, (segment a b ∩ segment s.1 s.2).Nonempty) := by
  have hsides : (∃ s ∈ r.sides, (segment a b ∩ segment s.1 s.2).Nonempty) ↔
      (segmentsMeet a b r.leftTop r.rightTop || segmentsMeet a b r.rightTop r.rightBottom ||
        segmentsMeet a b r.rightBottom r.leftBottom || segmentsMeet a b r.leftBottom r.leftTop) := by
    simp only [Rect.sides, ← segmentsMeet_iff, List.mem_cons, List.not_mem_nil, or_false, exists_eq_or_imp,
      exists_eq_left, Bool.or_eq_true, or_assoc]
  rw [hsides, ← Rect.contains_iff_mem_region, ← Rect.contains_iff_mem_region, edgeVisible]
  simp only [least_eq_min, greatest_eq_max, Bool.if_false_left, Bool.if_true_left, Bool.and_eq_true,
    Bool.or_eq_true, Bool.not_eq_true', decide_eq_true_eq, decide_eq_false_iff_not, not_or, not_lt,
    and_assoc]

/-- The padded box of an edge with a point in the rectangle does not lie beyond a side. -/
theorem box_of_nonempty (hpadding : 0 ≤ padding) (h : (segment a b ∩ r.region).Nonempty) :
    (r.left ≤ max a.x b.x + padding ∧ min a.x b.x - padding ≤ r.right) ∧
      r.top ≤ max a.y b.y + padding ∧ min a.y b.y - padding ≤ r.bottom := by
  obtain ⟨p, hp, ⟨hleft, hright⟩, htop, hbottom⟩ := h
  obtain ⟨hminX, hmaxX⟩ := Set.mem_Icc.1 (isAffine_x.mem_uIcc hp)
  obtain ⟨hminY, hmaxY⟩ := Set.mem_Icc.1 (isAffine_y.mem_uIcc hp)
  exact ⟨⟨by linarith, by linarith⟩, by linarith, by linarith⟩

theorem edgeVisible_iff_nonempty (hx : r.left ≤ r.right) (hy : r.top ≤ r.bottom)
    (hpadding : 0 ≤ padding) :
    edgeVisible r a b padding ↔ (segment a b ∩ r.region).Nonempty := by
  rw [edgeVisible_iff_sides]
  constructor
  · rintro ⟨-, (ha | hb) | ⟨s, hs, p, hp, hside⟩⟩
    · exact ⟨a, left_mem_segment a b, ha⟩
    · exact ⟨b, right_mem_segment a b, hb⟩
    · exact ⟨p, hp, Rect.segment_side_subset hx hy hs hside⟩
  · intro h
    refine ⟨box_of_nonempty hpadding h, ?_⟩
    by_cases ha : a ∈ r.region
    · exact .inl (.inl ha)
    · exact .inr (Rect.exists_side_of_notMem ha h)

end

/-- An edge is visible exactly if its segment has a point in the rectangle. So neither the padding nor the
direction of the edge makes a difference. -/
theorem edgeVisible_exact {r : Rect ℚ} (hx : r.left ≤ r.right) (hy : r.top ≤ r.bottom)
    (start stop : Vec ℚ) {padding : ℚ} (hpadding : 0 ≤ padding) :
    (edgeVisible r start stop padding = true ↔ (segment start stop ∩ r.region).Nonempty) ∧
      (∀ padding', 0 ≤ padding' →
        edgeVisible r start stop padding' = edgeVisible r start stop padding) ∧
      edgeVisible r stop start padding = edgeVisible r start stop padding := by
  refine ⟨edgeVisible_iff_nonempty hx hy hpadding, ?_, ?_⟩
  · intro padding' hpadding'
    rw [Bool.eq_iff_iff, edgeVisible_iff_nonempty hx hy hpadding',
      edgeVisible_iff_nonempty hx hy hpadding]
  · rw [Bool.eq_iff_iff, edgeVisible_iff_nonempty hx hy hpadding,
      edgeVisible_iff_nonempty hx hy hpadding, segment_comm]

/-- An edge that touches the rectangle in a corner and nowhere else is visible. -/
theorem edgeVisible_exact_corner :
    ((0 : ℚ) ≤ 100 ∧ (0 : ℚ) ≤ 3) ∧
      (segment ⟨-10, 10⟩ ⟨10, -10⟩ ∩ Rect.region ⟨0, 0, 100, 100⟩).Nonempty ∧
      edgeVisible (⟨0, 0, 100, 100⟩ : Rect ℚ) ⟨-10, 10⟩ ⟨10, -10⟩ 3 = true ∧
      edgeVisible (⟨0, 0, 100, 100⟩ : Rect ℚ) ⟨10, -10⟩ ⟨-10, 10⟩ 3 = true := by
  have hside : (0 : ℚ) ≤ 100 := by norm_num
  have hpadding : (0 : ℚ) ≤ 3 := by norm_num
  have hcorner : (segment ⟨-10, 10⟩ ⟨10, -10⟩ ∩ Rect.region ⟨0, 0, 100, 100⟩).Nonempty := by
    refine ⟨⟨0, 0⟩, ⟨1 / 2, by norm_num, ?_⟩, ⟨le_rfl, hside⟩, le_rfl, hside⟩
    ext <;> simp [blend] <;> norm_num
  obtain ⟨hvisible, -, hswap⟩ :=
    edgeVisible_exact (r := ⟨0, 0, 100, 100⟩) hside hside ⟨-10, 10⟩ ⟨10, -10⟩ hpadding
  exact ⟨⟨hside, hpadding⟩, hcorner, hvisible.2 hcorner, hswap.trans (hvisible.2 hcorner)⟩

/-- An edge that passes a corner outside is not visible, although its padded box reaches into the
rectangle. -/
example : edgeVisible (⟨0, 0, 100, 100⟩ : Rect ℚ) ⟨-10, 9⟩ ⟨9, -10⟩ 3 = false := by decide +kernel

end ImportAtlas
