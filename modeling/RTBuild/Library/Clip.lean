import Mathlib

namespace RTBuild.Library.Clip

variable {𝕜 E : Type*} [Field 𝕜] [AddCommGroup E] [Module 𝕜 E]

/-- The point where the line through two points crosses a plane. -/
def crossing (f : E →ₗ[𝕜] 𝕜) (pos : 𝕜) (u v : E) : E := ((pos - f u) * (1 / (f v - f u))) • (v - u) + u

variable {f : E →ₗ[𝕜] 𝕜} {pos : 𝕜} {u v w : E}

theorem map_crossing (h : f u ≠ f v) : f (crossing f pos u v) = pos := by
  have hne : f v - f u ≠ 0 := sub_ne_zero.2 h.symm
  rw [crossing, map_add, map_smul, map_sub, smul_eq_mul]
  field_simp
  ring

theorem crossing_comm (h : f u ≠ f v) : crossing f pos u v = crossing f pos v u := by
  have hne : f v - f u ≠ 0 := sub_ne_zero.2 h.symm
  have hne' : f u - f v ≠ 0 := sub_ne_zero.2 h
  rw [crossing, crossing]
  match_scalars
  · field_simp
    ring
  · field_simp
    ring

theorem crossing_neg : crossing (-f) (-pos) u v = crossing f pos u v := by
  have hnum : -pos - (-f) u = -(pos - f u) := by
    rw [LinearMap.neg_apply]
    ring
  have hden : (-f) v - (-f) u = -(f v - f u) := by
    rw [LinearMap.neg_apply, LinearMap.neg_apply]
    ring
  rw [crossing, crossing, hnum, hden, one_div, one_div, inv_neg, neg_mul_neg]

theorem crossing_of_eq (h : f u = pos) : crossing f pos u v = u := by
  rw [crossing, h, sub_self, zero_mul, zero_smul, zero_add]

/-- There is no other point of the line on the plane. -/
theorem eq_crossing {r : 𝕜} (hw : w = (1 - r) • u + r • v) (hpos : f w = pos) (h : f u ≠ f v) :
    w = crossing f pos u v := by
  have hne : f v - f u ≠ 0 := sub_ne_zero.2 h.symm
  have hr : (pos - f u) * (1 / (f v - f u)) = r := by
    rw [← hpos, hw, map_add, map_smul, map_smul, smul_eq_mul, smul_eq_mul]
    field_simp
    ring
  rw [crossing, hr, hw]
  module

variable [LinearOrder 𝕜] [IsStrictOrderedRing 𝕜]

/-- The point where a segment crosses a plane is between its ends. -/
theorem crossing_mem_segment (hu : f u ≤ pos) (hv : pos < f v) : crossing f pos u v ∈ segment 𝕜 u v := by
  have hpos : 0 < f v - f u := by linarith
  refine ⟨1 - (pos - f u) * (1 / (f v - f u)), (pos - f u) * (1 / (f v - f u)), ?_, ?_, ?_, ?_⟩
  · rw [mul_one_div, sub_nonneg, div_le_one hpos]
    linarith
  · exact mul_nonneg (by linarith) (one_div_nonneg.2 hpos.le)
  · exact sub_add_cancel _ _
  · rw [crossing]
    module

/-- A segment is below a plane up to the point where it crosses it. -/
theorem mem_segment_crossing (hu : f u ≤ pos) (hv : pos < f v) (hw : w ∈ segment 𝕜 u v)
    (hle : f w ≤ pos) : w ∈ segment 𝕜 u (crossing f pos u v) := by
  obtain ⟨a, b, ha, hb, hab, rfl⟩ := hw
  have hpos : 0 < f v - f u := by linarith
  obtain rfl : a = 1 - b := by linarith
  have hfb : b * (f v - f u) ≤ pos - f u := by
    rw [map_add, map_smul, map_smul, smul_eq_mul, smul_eq_mul] at hle
    linarith
  rcases (sub_nonneg.2 hu).eq_or_lt with hzero | hlt
  · have hbzero : b = 0 := by
      have hmul : b * (f v - f u) = 0 := le_antisymm (hfb.trans_eq hzero.symm) (mul_nonneg hb hpos.le)
      exact (mul_eq_zero.1 hmul).resolve_right hpos.ne'
    rw [hbzero, sub_zero, one_smul, zero_smul, add_zero]
    exact left_mem_segment 𝕜 _ _
  · refine ⟨1 - b * (f v - f u) / (pos - f u), b * (f v - f u) / (pos - f u), ?_, ?_, ?_, ?_⟩
    · rw [sub_nonneg, div_le_one hlt]
      exact hfb
    · exact div_nonneg (mul_nonneg hb hpos.le) hlt.le
    · exact sub_add_cancel _ _
    · rw [crossing]
      match_scalars
      · field_simp
        ring
      · field_simp

section hull

variable {s H : Set E} (hH : Convex 𝕜 H)
include hH

/-- The points beyond a plane whose lines from some point cross it in a convex set. -/
theorem convex_crossing_right (hu : f u ≤ pos) : Convex 𝕜 {v | pos < f v ∧ crossing f pos u v ∈ H} := by
  rintro v ⟨hv, hcv⟩ w ⟨hw, hcw⟩ a b ha hb hab
  have hv' : 0 < f v - f u := by linarith
  have hw' : 0 < f w - f u := by linarith
  obtain rfl : a = 1 - b := by linarith
  have hf : f ((1 - b) • v + b • w) = (1 - b) * f v + b * f w := by
    rw [map_add, map_smul, map_smul, smul_eq_mul, smul_eq_mul]
  have hsum : 0 < (1 - b) * (f v - f u) + b * (f w - f u) := by
    rcases hb.eq_or_lt with rfl | hb
    · linarith
    · exact add_pos_of_nonneg_of_pos (mul_nonneg ha hv'.le) (mul_pos hb hw')
  have hlt : pos < f ((1 - b) • v + b • w) := by
    rw [hf]
    rcases hb.eq_or_lt with rfl | hb
    · linarith
    · have hleft := mul_nonneg ha (sub_nonneg.2 hv.le)
      have hright := mul_pos hb (sub_pos.2 hw)
      linarith
  refine ⟨hlt, ?_⟩
  -- the weights are those of the points, scaled by the distances beyond u
  have hcombo := hH hcv hcw
    (a := (1 - b) * (f v - f u) / ((1 - b) * (f v - f u) + b * (f w - f u)))
    (b := b * (f w - f u) / ((1 - b) * (f v - f u) + b * (f w - f u)))
    (div_nonneg (mul_nonneg ha hv'.le) hsum.le) (div_nonneg (mul_nonneg hb hw'.le) hsum.le)
    (by rw [← add_div, div_self hsum.ne'])
  convert hcombo using 1
  have hden : f ((1 - b) • v + b • w) - f u = (1 - b) * (f v - f u) + b * (f w - f u) := by
    rw [hf]
    ring
  rw [crossing, hden, crossing, crossing]
  match_scalars
  · field_simp
  · field_simp
  · field_simp
    ring

theorem convex_crossing_left (hv : pos < f v) : Convex 𝕜 {u | f u ≤ pos ∧ crossing f pos u v ∈ H} := by
  rintro u ⟨hu, hcu⟩ w ⟨hw, hcw⟩ a b ha hb hab
  have hu' : 0 < f v - f u := by linarith
  have hw' : 0 < f v - f w := by linarith
  obtain rfl : a = 1 - b := by linarith
  have hf : f ((1 - b) • u + b • w) = (1 - b) * f u + b * f w := by
    rw [map_add, map_smul, map_smul, smul_eq_mul, smul_eq_mul]
  have hsum : 0 < (1 - b) * (f v - f u) + b * (f v - f w) := by
    rcases hb.eq_or_lt with rfl | hb
    · linarith
    · exact add_pos_of_nonneg_of_pos (mul_nonneg ha hu'.le) (mul_pos hb hw')
  have hle : f ((1 - b) • u + b • w) ≤ pos := by
    have hleft := mul_nonneg ha (sub_nonneg.2 hu)
    have hright := mul_nonneg hb (sub_nonneg.2 hw)
    rw [hf]
    linarith
  refine ⟨hle, ?_⟩
  have hcombo := hH hcu hcw
    (a := (1 - b) * (f v - f u) / ((1 - b) * (f v - f u) + b * (f v - f w)))
    (b := b * (f v - f w) / ((1 - b) * (f v - f u) + b * (f v - f w)))
    (div_nonneg (mul_nonneg ha hu'.le) hsum.le) (div_nonneg (mul_nonneg hb hw'.le) hsum.le)
    (by rw [← add_div, div_self hsum.ne'])
  convert hcombo using 1
  have hden : f v - f ((1 - b) • u + b • w) = (1 - b) * (f v - f u) + b * (f v - f w) := by
    rw [hf]
    ring
  rw [crossing, hden, hf, crossing, crossing]
  match_scalars
  · field_simp
    ring
  · field_simp
    ring
  · field_simp
    ring

/-- A convex set that contains the points below a plane, and the crossings of the lines to those
above it, contains what their hull has below. -/
theorem mem_of_mem_convexHull (hbelow : ∀ u ∈ s, f u ≤ pos → u ∈ H)
    (hcross : ∀ u ∈ s, ∀ v ∈ s, f u < pos → pos < f v → crossing f pos u v ∈ H)
    {x : E} (hx : x ∈ convexHull 𝕜 s) (hle : f x ≤ pos) : x ∈ H := by
  have hcross' : ∀ u ∈ s, ∀ v ∈ s, f u ≤ pos → pos < f v → crossing f pos u v ∈ H := by
    intro u hu v hv hle hlt
    rcases hle.eq_or_lt with heq | hlt'
    · rw [crossing_of_eq heq]
      exact hbelow u hu hle
    · exact hcross u hu v hv hlt' hlt
  have hunion : s = {u ∈ s | f u ≤ pos} ∪ {v ∈ s | pos < f v} := by
    ext u
    by_cases h : f u ≤ pos
    · simp [h]
    · simp [h, not_le.1 h]
  have hhalf : convexHull 𝕜 {u ∈ s | f u ≤ pos} ⊆ {u | f u ≤ pos ∧ u ∈ H} :=
    convexHull_min (fun u hu => ⟨hu.2, hbelow u hu.1 hu.2⟩)
      ((convex_halfSpace_le f.isLinear pos).inter hH)
  rcases Set.eq_empty_or_nonempty {v ∈ s | pos < f v} with hright | hright
  · rw [hright, Set.union_empty] at hunion
    rw [hunion] at hx
    exact (hhalf hx).2
  rcases Set.eq_empty_or_nonempty {u ∈ s | f u ≤ pos} with hleft | hleft
  · rw [hleft, Set.empty_union] at hunion
    rw [hunion] at hx
    have habove : convexHull 𝕜 {v ∈ s | pos < f v} ⊆ {v | pos < f v} :=
      convexHull_min (fun v hv => hv.2) (convex_halfSpace_gt f.isLinear pos)
    exact absurd (habove hx) (not_lt.2 hle)
  rw [hunion, convexHull_union hleft hright, mem_convexJoin] at hx
  obtain ⟨u, hu, v, hv, hx⟩ := hx
  have huH := hhalf hu
  -- first the points above vary, then those below
  have hright' : ∀ u ∈ s, f u ≤ pos → convexHull 𝕜 {v ∈ s | pos < f v} ⊆
      {v | pos < f v ∧ crossing f pos u v ∈ H} := fun u hu hle =>
    convexHull_min (fun v hv => ⟨hv.2, hcross' u hu v hv.1 hle hv.2⟩) (convex_crossing_right hH hle)
  obtain ⟨u', hu'⟩ := hleft
  have hlt : pos < f v := (hright' u' hu'.1 hu'.2 hv).1
  have hleft' : convexHull 𝕜 {u ∈ s | f u ≤ pos} ⊆ {u | f u ≤ pos ∧ crossing f pos u v ∈ H} :=
    convexHull_min (fun u hu => ⟨hu.2, (hright' u hu.1 hu.2 hv).2⟩) (convex_crossing_left hH hlt)
  exact hH.segment_subset huH.2 (hleft' hu).2 (mem_segment_crossing huH.1 hlt hx hle)

/-- The same for the other side. -/
theorem mem_of_mem_convexHull_right (habove : ∀ v ∈ s, pos ≤ f v → v ∈ H)
    (hcross : ∀ u ∈ s, ∀ v ∈ s, f u < pos → pos < f v → crossing f pos u v ∈ H)
    {x : E} (hx : x ∈ convexHull 𝕜 s) (hle : pos ≤ f x) : x ∈ H := by
  have hle' : (-f) x ≤ -pos := by
    rw [LinearMap.neg_apply]
    exact neg_le_neg hle
  refine mem_of_mem_convexHull hH (fun v hv h => habove v hv ?_) (fun v hv u hu hv' hu' => ?_) hx hle'
  · rw [LinearMap.neg_apply] at h
    exact neg_le_neg_iff.1 h
  · rw [LinearMap.neg_apply, neg_lt_neg_iff] at hv' hu'
    rw [crossing_neg, crossing_comm (hu'.trans hv').ne']
    exact hcross u hu v hv hu' hv'

/-- Where one diagonal of a quad crosses a plane, if it meets the other one: the edges at the ends of
the other one cross the plane on both sides. -/
theorem crossing_mem_of_diagonals {p0 p1 p2 p3 : E} {a b : 𝕜} (hb0 : 0 ≤ b) (hb1 : b ≤ 1)
    (hmeet : (1 - b) • p0 + b • p2 = (1 - a) • p1 + a • p3) (h1 : f p1 < pos) (h3 : pos < f p3)
    (hbelow : ∀ p, p = p0 ∨ p = p2 → f p ≤ pos → crossing f pos p p3 ∈ H)
    (habove : ∀ p, p = p0 ∨ p = p2 → pos < f p → crossing f pos p1 p ∈ H) :
    crossing f pos p1 p3 ∈ H := by
  have hpoint : ∀ p, p = p0 ∨ p = p2 → ∃ w r : 𝕜, 0 < w ∧
      w • p + (1 - w - r) • p1 + r • p3 ∈ H ∧ f (w • p + (1 - w - r) • p1 + r • p3) = pos := by
    intro p hp
    rcases le_or_gt (f p) pos with hle | hgt
    · have hden : 0 < f p3 - f p := by linarith
      have heq : (1 - (pos - f p) * (1 / (f p3 - f p))) • p +
          (1 - (1 - (pos - f p) * (1 / (f p3 - f p))) - (pos - f p) * (1 / (f p3 - f p))) • p1 +
          ((pos - f p) * (1 / (f p3 - f p))) • p3 = crossing f pos p p3 := by
        rw [crossing]
        module
      refine ⟨1 - (pos - f p) * (1 / (f p3 - f p)), (pos - f p) * (1 / (f p3 - f p)), ?_, ?_, ?_⟩
      · rw [mul_one_div, sub_pos, div_lt_one hden]
        linarith
      · rw [heq]
        exact hbelow p hp hle
      · rw [heq]
        exact map_crossing (by linarith)
    · have hden : 0 < f p - f p1 := by linarith
      have heq : ((pos - f p1) * (1 / (f p - f p1))) • p +
          (1 - (pos - f p1) * (1 / (f p - f p1)) - 0) • p1 + (0 : 𝕜) • p3 = crossing f pos p1 p := by
        rw [crossing]
        module
      refine ⟨(pos - f p1) * (1 / (f p - f p1)), 0, ?_, ?_, ?_⟩
      · exact mul_pos (by linarith) (one_div_pos.2 hden)
      · rw [heq]
        exact habove p hp hgt
      · rw [heq]
        exact map_crossing (by linarith)
  obtain ⟨w0, r0, hw0, hmem0, hpos0⟩ := hpoint p0 (Or.inl rfl)
  obtain ⟨w2, r2, hw2, hmem2, hpos2⟩ := hpoint p2 (Or.inr rfl)
  have ha0 : 0 ≤ (1 - b) / w0 := div_nonneg (sub_nonneg.2 hb1) hw0.le
  have hb2 : 0 ≤ b / w2 := div_nonneg hb0 hw2.le
  have hsum : 0 < (1 - b) / w0 + b / w2 := by
    rcases hb0.eq_or_lt with rfl | hb
    · rw [sub_zero, zero_div, add_zero]
      exact one_div_pos.2 hw0
    · exact add_pos_of_nonneg_of_pos ha0 (div_pos hb hw2)
  -- a mean of the two crossings in which the corners p0 and p2 have the weights of the meeting point
  have hmean := hH hmem0 hmem2 (div_nonneg ha0 hsum.le) (div_nonneg hb2 hsum.le)
    (by rw [← add_div, div_self hsum.ne'])
  rw [← eq_crossing (r := (a + (1 - b) / w0 * r0 + b / w2 * r2) / ((1 - b) / w0 + b / w2)) ?_ ?_
    (h1.trans h3).ne]
  · exact hmean
  · generalize hd : (1 - b) / w0 + b / w2 = d at hsum
    have hd0 : (1 - b) / w0 / d * w0 = (1 - b) / d := by
      field_simp
    have hd2 : b / w2 / d * w2 = b / d := by
      field_simp
    calc
      ((1 - b) / w0 / d) • (w0 • p0 + (1 - w0 - r0) • p1 + r0 • p3) +
          (b / w2 / d) • (w2 • p2 + (1 - w2 - r2) • p1 + r2 • p3)
        = (1 / d) • ((1 - b) • p0 + b • p2) +
            (((1 - b) / w0 / d) * (1 - r0) + (b / w2 / d) * (1 - r2) - 1 / d) • p1 +
            (((1 - b) / w0 * r0 + b / w2 * r2) / d) • p3 := by
          match_scalars
          · field_simp
          · field_simp
            ring
          · field_simp
          · field_simp
      _ = (1 - (a + (1 - b) / w0 * r0 + b / w2 * r2) / d) • p1 +
            ((a + (1 - b) / w0 * r0 + b / w2 * r2) / d) • p3 := by
          rw [hmeet]
          match_scalars
          · have hd' : (1 - b) / w0 / d + b / w2 / d = 1 := by
              rw [← add_div, hd, div_self hsum.ne']
            linear_combination hd'
          · field_simp
            ring
  · rw [map_add, map_smul, map_smul, hpos0, hpos2, ← add_smul, ← add_div, div_self hsum.ne', one_smul]

end hull

section corners

variable {𝕜 E F : Type*} [Field 𝕜] [LinearOrder 𝕜] [IsStrictOrderedRing 𝕜]

theorem convexHull_ends {a b : 𝕜} (h : a ≤ b) : convexHull 𝕜 {a, b} = Set.Icc a b := by
  rw [convexHull_pair, segment_eq_Icc h]

variable [AddCommGroup E] [Module 𝕜 E] [PartialOrder E] [AddCommGroup F] [Module 𝕜 F] [PartialOrder F]

/-- The corners of a product of boxes are the pairs of their corners. -/
theorem convexHull_corners {s : Set E} {t : Set F} {a b : E} {c d : F}
    (hs : convexHull 𝕜 s = Set.Icc a b) (ht : convexHull 𝕜 t = Set.Icc c d) :
    convexHull 𝕜 (s ×ˢ t) = Set.Icc (a, c) (b, d) := by
  rw [convexHull_prod, hs, ht, Set.Icc_prod_Icc]

end corners

end RTBuild.Library.Clip
