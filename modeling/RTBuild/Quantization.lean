import RTBuild.QNode
import RTBuild.Library.Grid

namespace RTBuild.InternalNode

open Library

def exponent (node : InternalNode) : Fin 3 → Int
  | 0 => node.exp.1
  | 1 => node.exp.2.1
  | 2 => node.exp.2.2

def lowerQ (node : InternalNode) : Fin 3 → Fin 6 → BitVec 8
  | 0 => node.lowerX
  | 1 => node.lowerY
  | 2 => node.lowerZ

def upperQ (node : InternalNode) : Fin 3 → Fin 6 → BitVec 8
  | 0 => node.upperX
  | 1 => node.upperY
  | 2 => node.upperZ

/-- The float FLT_LARGE, which is written 1.844E18f. -/
def fltLarge : ℚ := 13416866 * 2 ^ 37

def chosenExp (len : ℚ) : Int :=
  max (-128) (frexpExp len + if 255 / 256 < ldexp len (-frexpExp len) then 1 else 0)

theorem gridExp_eq (len : ℚ) : gridExp len = (chosenExp len).bmod 256 := rfl

def gridLength (box : NonemptyInterval Vec3f) (dim : Fin 3) : ℚ :=
  (component (conservativeBox box).2 dim - component (conservativeBox box).1 dim) * (1 + ulp)

def dequantize (base : ℚ) (e : Int) (q : BitVec 8) : ℚ := base + ldexp q.toNat (e - 8)

def bounds (node : InternalNode) (childID : Fin 6) : Vec3f × Vec3f :=
  ((dequantize node.lower.1 node.exp.1 (node.lowerX childID),
      dequantize node.lower.2.1 node.exp.2.1 (node.lowerY childID),
      dequantize node.lower.2.2 node.exp.2.2 (node.lowerZ childID)),
    (dequantize node.lower.1 node.exp.1 (node.upperX childID),
      dequantize node.lower.2.1 node.exp.2.1 (node.upperY childID),
      dequantize node.lower.2.2 node.exp.2.2 (node.upperZ childID)))

section asserts

/-- The assertions of quantize_bounds in one dimension: the values before they
are rounded, and the box against what it is stored as, up to some slack. -/
def quantizeAsserts (base : ℚ) (e : Int) (lower upper : ℚ) : Bool :=
  let qlower := ldexp (lower - base) (-e + 8)
  let qupper := ldexp (upper - base) (-e + 8)
  let slack := 2 * ulp * (|base| + ldexp 255 (e - 8))
  (0 ≤ qlower && qlower ≤ 255) && (0 ≤ qupper && qupper ≤ 255) &&
    (dequantize base e (quantizeLower e (lower - base)) - slack ≤ lower &&
      upper ≤ dequantize base e (quantizeUpper e (upper - base)) + slack)

def setChildBoundsAsserts (node : InternalNode) (childID : Fin 6)
    (fbounds : NonemptyInterval Vec3f) : Bool :=
  (List.finRange 3).all (fun dim => quantizeAsserts (component node.lower dim) (node.exponent dim)
    (component (conservativeBox fbounds).1 dim) (component (conservativeBox fbounds).2 dim)) &&
    (node.setChildBounds childID fbounds).valid childID

def setNodeBoundsAsserts (box : BBox3f) : Bool :=
  match box with
  | ⊥ => false
  | (box : NonemptyInterval Vec3f) =>
      (List.finRange 3).all (fun dim =>
        -128 ≤ chosenExp (gridLength box dim) && chosenExp (gridLength box dim) ≤ 127)

def setAllBounds (node : InternalNode) : List (Fin 6 × NonemptyInterval Vec3f) → Option InternalNode
  | [] => some node
  | s :: sets =>
      if node.setChildBoundsAsserts s.1 s.2 then (node.setChildBounds s.1 s.2).setAllBounds sets
        else none

def unionBounds (sets : List (Fin 6 × NonemptyInterval Vec3f)) : BBox3f :=
  sets.foldl (fun b s => b ⊔ s.2) ⊥

def quantizedNode (type : NodeType) (sets : List (Fin 6 × NonemptyInterval Vec3f)) :
    Option InternalNode :=
  if setNodeBoundsAsserts (unionBounds sets) then
    (ofBounds (unionBounds sets) type).setAllBounds sets else none

end asserts

/-- What a child box is stored as in one dimension. -/
structure Quantized (node : InternalNode) (i : Fin 6) (box : NonemptyInterval Vec3f)
    (dim : Fin 3) : Prop where
  lower_range :
    ldexp (component (conservativeBox box).1 dim - component node.lower dim)
      (-node.exponent dim + 8) ∈ Set.Icc 0 255
  upper_range :
    ldexp (component (conservativeBox box).2 dim - component node.lower dim)
      (-node.exponent dim + 8) ∈ Set.Icc 0 255
  lower_eq : ((node.lowerQ dim i).toNat : Int) =
    ⌊ldexp (component (conservativeBox box).1 dim - component node.lower dim) (-node.exponent dim + 8)⌋
  upper_eq : ((node.upperQ dim i).toNat : Int) =
    ⌈ldexp (component (conservativeBox box).2 dim - component node.lower dim) (-node.exponent dim + 8)⌉
  lower_le : component (node.bounds i).1 dim ≤ component (conservativeBox box).1 dim
  conservative_lower : component (conservativeBox box).1 dim ≤ component box.fst dim
  conservative_upper : component box.snd dim ≤ component (conservativeBox box).2 dim
  le_upper : component (conservativeBox box).2 dim ≤ component (node.bounds i).2 dim

theorem ldexp_eq_cell (e : Int) (v : ℚ) : ldexp v (-e + 8) = Grid.cell (e - 8) v := by
  rw [ldexp, Grid.cell]
  congr 2
  ring

theorem frexp_bounds {len : ℚ} (h : 0 < len) : frexpExp len = Int.log 2 len + 1 := by
  rw [frexpExp, if_neg h.ne', abs_of_pos h]

theorem cell_chosenExp_le {len v : ℚ} (hv : 0 ≤ v) (hle : v ≤ len) :
    Grid.cell (chosenExp len - 8) v ≤ 255 := by
  rcases (hv.trans hle).eq_or_lt with hzero | hpos
  · obtain rfl : v = 0 := le_antisymm (hle.trans_eq hzero.symm) hv
    rw [Grid.cell, zero_mul]
    norm_num
  · have hmant : ldexp len (-frexpExp len) = Grid.cell (frexpExp len) len := rfl
    have hone : Grid.cell (frexpExp len) len < 1 := frexp_bounds hpos ▸ Grid.cell_log_lt_one len
    have hscaled : ∀ n : Int, frexpExp len + n ≤ chosenExp len →
        Grid.cell (chosenExp len - 8) v ≤ Grid.cell (frexpExp len) len * 2 ^ (8 - n) := by
      intro n hn
      calc
        Grid.cell (chosenExp len - 8) v ≤ Grid.cell (frexpExp len - (8 - n)) v :=
          Grid.cell_anti (by omega) hv
        _ ≤ Grid.cell (frexpExp len - (8 - n)) len := Grid.cell_mono _ hle
        _ = Grid.cell (frexpExp len) len * 2 ^ (8 - n) := Grid.cell_sub ..
    -- the correction is made exactly where the mantissa does not fit below 255/256
    by_cases hlarge : 255 / 256 < ldexp len (-frexpExp len)
    · have hexp : frexpExp len + 1 ≤ chosenExp len := by
        rw [chosenExp, if_pos hlarge]
        exact le_max_right ..
      refine (hscaled 1 hexp).trans ?_
      norm_num
      linarith
    · have hexp : frexpExp len + 0 ≤ chosenExp len := by
        rw [chosenExp, if_neg hlarge]
        exact le_max_right ..
      refine (hscaled 0 hexp).trans ?_
      rw [hmant] at hlarge
      norm_num
      linarith

theorem chosenExp_le {len : ℚ} (h0 : 0 ≤ len) (h : len < 2 ^ 62) : chosenExp len ≤ 127 := by
  have hfrexp : frexpExp len ≤ 62 := by
    rcases h0.eq_or_lt with rfl | hpos
    · rw [frexpExp, if_pos rfl]
      norm_num
    · rw [frexp_bounds hpos]
      have hlog : Int.log 2 len < 62 :=
        (Int.lt_zpow_iff_log_lt Nat.one_lt_two hpos).1 (by exact_mod_cast h)
      omega
  rw [chosenExp]
  split <;> omega

theorem gridExp_eq_chosenExp {len : ℚ} (h0 : 0 ≤ len) (h : len < 2 ^ 62) :
    gridExp len = chosenExp len := by
  have hlower : -128 ≤ chosenExp len := le_max_left ..
  have hupper := chosenExp_le h0 h
  rw [gridExp_eq]
  apply Int.bmod_eq_of_le_mul_two <;> omega

theorem abs_component_le (v : Vec3f) (dim : Fin 3) : |component v dim| ≤ reduceMaxAbs v := by
  fin_cases dim
  · exact (le_max_left _ _).trans (le_max_left _ _)
  · exact (le_max_right _ _).trans (le_max_left _ _)
  · exact le_max_right _ _

theorem reduceMaxAbs_le {v : Vec3f} {m : ℚ} (h : ∀ dim, |component v dim| ≤ m) : reduceMaxAbs v ≤ m :=
  max_le (max_le (h 0) (h 1)) (h 2)

theorem component_le {v w : Vec3f} (h : v ≤ w) (dim : Fin 3) : component v dim ≤ component w dim := by
  fin_cases dim
  · exact h.1
  · exact h.2.1
  · exact h.2.2

def err (box : NonemptyInterval Vec3f) : ℚ := ulp * max (reduceMaxAbs box.fst) (reduceMaxAbs box.snd)

theorem err_nonneg (box : NonemptyInterval Vec3f) : 0 ≤ err box :=
  mul_nonneg (by norm_num [ulp]) ((reduceMaxAbs_nonneg _).trans (le_max_left _ _))

theorem component_conservativeBox_fst (box : NonemptyInterval Vec3f) (dim : Fin 3) :
    component (conservativeBox box).1 dim = component box.fst dim - err box := by
  fin_cases dim <;> rfl

theorem component_conservativeBox_snd (box : NonemptyInterval Vec3f) (dim : Fin 3) :
    component (conservativeBox box).2 dim = component box.snd dim + err box := by
  fin_cases dim <;> rfl

section parent

variable {box parent : NonemptyInterval Vec3f}

theorem err_le (h : box ≤ parent) : err box ≤ err parent := by
  have habs : ∀ v, parent.fst ≤ v → v ≤ parent.snd →
      reduceMaxAbs v ≤ max (reduceMaxAbs parent.fst) (reduceMaxAbs parent.snd) := by
    intro v hlower hupper
    apply reduceMaxAbs_le
    intro dim
    refine (abs_le_max_abs_abs (component_le hlower dim) (component_le hupper dim)).trans ?_
    exact max_le_max (abs_component_le _ _) (abs_component_le _ _)
  apply mul_le_mul_of_nonneg_left
  · exact max_le (habs _ h.1 (box.fst_le_snd.trans h.2)) (habs _ (h.1.trans box.fst_le_snd) h.2)
  · norm_num [ulp]

theorem conservative_lower_le (h : box ≤ parent) (dim : Fin 3) :
    component (conservativeBox parent).1 dim ≤ component (conservativeBox box).1 dim := by
  rw [component_conservativeBox_fst, component_conservativeBox_fst]
  exact sub_le_sub (component_le h.1 dim) (err_le h)

theorem le_conservative_upper (h : box ≤ parent) (dim : Fin 3) :
    component (conservativeBox box).2 dim ≤ component (conservativeBox parent).2 dim := by
  rw [component_conservativeBox_snd, component_conservativeBox_snd]
  exact add_le_add (component_le h.2 dim) (err_le h)

theorem conservative_le (box : NonemptyInterval Vec3f) (dim : Fin 3) :
    component (conservativeBox box).1 dim ≤ component (conservativeBox box).2 dim :=
  component_le (conservativeBox_le box) dim

theorem length_le_gridLength (box : NonemptyInterval Vec3f) (dim : Fin 3) :
    component (conservativeBox box).2 dim - component (conservativeBox box).1 dim ≤
      gridLength box dim := by
  apply le_mul_of_one_le_right (sub_nonneg.2 (conservative_le box dim))
  norm_num [ulp]

theorem gridLength_nonneg (box : NonemptyInterval Vec3f) (dim : Fin 3) : 0 ≤ gridLength box dim :=
  (sub_nonneg.2 (conservative_le box dim)).trans (length_le_gridLength box dim)

def Bounded (box : NonemptyInterval Vec3f) : Prop :=
  ∀ dim, |component box.fst dim| < fltLarge ∧ |component box.snd dim| < fltLarge

theorem gridLength_lt (h : Bounded box) (dim : Fin 3) : gridLength box dim < 2 ^ 62 := by
  have herr : err box ≤ ulp * fltLarge := by
    apply mul_le_mul_of_nonneg_left
    · exact max_le (reduceMaxAbs_le fun dim => (h dim).1.le) (reduceMaxAbs_le fun dim => (h dim).2.le)
    · norm_num [ulp]
  have hlower := (abs_lt.1 (h dim).1).1
  have hupper := (abs_lt.1 (h dim).2).2
  rw [gridLength, component_conservativeBox_fst, component_conservativeBox_snd]
  norm_num [ulp, fltLarge] at *
  linarith

end parent

structure HasGrid (node : InternalNode) (parent : NonemptyInterval Vec3f) : Prop where
  lower : ∀ dim, component node.lower dim = component (conservativeBox parent).1 dim
  exponent : ∀ dim, node.exponent dim = chosenExp (gridLength parent dim)

theorem hasGrid_ofBounds {parent : NonemptyInterval Vec3f} (h : Bounded parent) (type : NodeType) :
    HasGrid (ofBounds parent type) parent := by
  constructor
  · intro dim
    rfl
  · intro dim
    rw [← gridExp_eq_chosenExp (gridLength_nonneg parent dim) (gridLength_lt h dim)]
    fin_cases dim <;> rfl

section slots

variable (node : InternalNode) (i : Fin 6) (box : NonemptyInterval Vec3f)

theorem lowerQ_setChildBounds (dim : Fin 3) :
    (node.setChildBounds i box).lowerQ dim = Function.update (node.lowerQ dim) i
      (quantizeLower (node.exponent dim)
        (component (conservativeBox box).1 dim - component node.lower dim)) := by
  fin_cases dim <;> rfl

theorem upperQ_setChildBounds (dim : Fin 3) :
    (node.setChildBounds i box).upperQ dim = Function.update (node.upperQ dim) i
      (quantizeUpper (node.exponent dim)
        (component (conservativeBox box).2 dim - component node.lower dim)) := by
  fin_cases dim <;> rfl

theorem component_bounds_fst (dim : Fin 3) :
    component (node.bounds i).1 dim =
      dequantize (component node.lower dim) (node.exponent dim) (node.lowerQ dim i) := by
  fin_cases dim <;> rfl

theorem component_bounds_snd (dim : Fin 3) :
    component (node.bounds i).2 dim =
      dequantize (component node.lower dim) (node.exponent dim) (node.upperQ dim i) := by
  fin_cases dim <;> rfl

structure Stored : Prop where
  lower : ∀ dim, node.lowerQ dim i =
    quantizeLower (node.exponent dim) (component (conservativeBox box).1 dim - component node.lower dim)
  upper : ∀ dim, node.upperQ dim i =
    quantizeUpper (node.exponent dim) (component (conservativeBox box).2 dim - component node.lower dim)

theorem stored_setChildBounds : Stored (node.setChildBounds i box) i box := by
  constructor
  · intro dim
    rw [lowerQ_setChildBounds, Function.update_self]
    rfl
  · intro dim
    rw [upperQ_setChildBounds, Function.update_self]
    rfl

variable {node i box}

theorem Stored.valid (h : Stored node i box) : node.valid i = true := by
  apply valid_of_le
  have hle := quantize_le (sub_le_sub_right (conservative_le box 0) (component node.lower 0))
    (node.exponent 0)
  rw [← h.lower, ← h.upper] at hle
  exact hle

end slots

section grid

variable {node : InternalNode} {box parent : NonemptyInterval Vec3f}

theorem HasGrid.setChildBounds (h : HasGrid node parent) (i : Fin 6) (box : NonemptyInterval Vec3f) :
    HasGrid (node.setChildBounds i box) parent :=
  ⟨h.lower, h.exponent⟩

/-- A box inside of the parent is on the grid in every dimension. -/
theorem HasGrid.ranges (h : HasGrid node parent) (hbox : box ≤ parent) (dim : Fin 3) :
    ldexp (component (conservativeBox box).1 dim - component node.lower dim)
      (-node.exponent dim + 8) ∈ Set.Icc 0 255 ∧
    ldexp (component (conservativeBox box).2 dim - component node.lower dim)
      (-node.exponent dim + 8) ∈ Set.Icc 0 255 := by
  have hlower := conservative_lower_le hbox dim
  have hlower_upper := conservative_le box dim
  have hupper := le_conservative_upper hbox dim
  have hlength := length_le_gridLength parent dim
  have hrange : ∀ v, component (conservativeBox parent).1 dim ≤ v →
      v ≤ component (conservativeBox parent).2 dim →
      ldexp (v - component node.lower dim) (-node.exponent dim + 8) ∈ Set.Icc 0 255 := by
    intro v hv hv'
    rw [h.lower, h.exponent, ldexp_eq_cell]
    have hnonneg : 0 ≤ v - component (conservativeBox parent).1 dim := sub_nonneg.2 hv
    refine ⟨Grid.cell_nonneg _ hnonneg, cell_chosenExp_le hnonneg ?_⟩
    exact (sub_le_sub_right hv' _).trans hlength
  exact ⟨hrange _ hlower (hlower_upper.trans hupper), hrange _ (hlower.trans hlower_upper) hupper⟩

theorem toNat_clamp_of_mem {q : Int} (h0 : 0 ≤ q) (h255 : q ≤ 255) : ((clamp q).toNat : Int) = q := by
  rw [toNat_clamp, max_eq_left h0, min_eq_left h255]

theorem toNat_quantizeLower {e : Int} {v : ℚ} (h : ldexp v (-e + 8) ∈ Set.Icc 0 255) :
    ((quantizeLower e v).toNat : Int) = ⌊ldexp v (-e + 8)⌋ := by
  apply toNat_clamp_of_mem
  · exact Int.floor_nonneg.2 h.1
  · exact Int.floor_le_iff.2 (h.2.trans_lt (by norm_num))

theorem toNat_quantizeUpper {e : Int} {v : ℚ} (h : ldexp v (-e + 8) ∈ Set.Icc 0 255) :
    ((quantizeUpper e v).toNat : Int) = ⌈ldexp v (-e + 8)⌉ := by
  apply toNat_clamp_of_mem
  · exact Int.ceil_nonneg h.1
  · exact Int.ceil_le.2 (by exact_mod_cast h.2)

theorem dequantize_lower_le {base v : ℚ} {e : Int} (h : ldexp (v - base) (-e + 8) ∈ Set.Icc 0 255) :
    dequantize base e (quantizeLower e (v - base)) ≤ v := by
  have hq : ((quantizeLower e (v - base)).toNat : ℚ) = (⌊ldexp (v - base) (-e + 8)⌋ : ℚ) := by
    exact_mod_cast toNat_quantizeLower h
  rw [dequantize, hq, ldexp_eq_cell]
  have hpoint := Grid.point_down_le (e - 8) (v - base)
  exact le_sub_iff_add_le'.1 hpoint

theorem le_dequantize_upper {base v : ℚ} {e : Int} (h : ldexp (v - base) (-e + 8) ∈ Set.Icc 0 255) :
    v ≤ dequantize base e (quantizeUpper e (v - base)) := by
  have hq : ((quantizeUpper e (v - base)).toNat : ℚ) = (⌈ldexp (v - base) (-e + 8)⌉ : ℚ) := by
    exact_mod_cast toNat_quantizeUpper h
  rw [dequantize, hq, ldexp_eq_cell]
  have hpoint := Grid.le_point_up (e - 8) (v - base)
  exact sub_le_iff_le_add'.1 hpoint

/-- No assertion fails for a box inside of the parent, and it is stored conservatively. -/
theorem HasGrid.asserts (h : HasGrid node parent) (hbox : box ≤ parent) (i : Fin 6) :
    node.setChildBoundsAsserts i box = true := by
  rw [setChildBoundsAsserts, Bool.and_eq_true]
  constructor
  · apply List.all_eq_true.2
    intro dim _
    obtain ⟨hlower, hupper⟩ := h.ranges hbox dim
    have hslack : 0 ≤ 2 * ulp * (|component node.lower dim| + ldexp 255 (node.exponent dim - 8)) := by
      apply mul_nonneg
      · norm_num [ulp]
      · exact add_nonneg (abs_nonneg _) (mul_nonneg (by norm_num) (zpow_pos two_pos _).le)
    have hlower_le := dequantize_lower_le hlower
    have hle_upper := le_dequantize_upper hupper
    simp only [quantizeAsserts, Bool.and_eq_true, decide_eq_true_eq]
    exact ⟨⟨hlower, hupper⟩, (sub_le_self _ hslack).trans hlower_le,
      hle_upper.trans (le_add_of_nonneg_right hslack)⟩
  · exact (stored_setChildBounds node i box).valid

theorem HasGrid.quantized (h : HasGrid node parent) (hbox : box ≤ parent) {i : Fin 6}
    (hstored : Stored node i box) (dim : Fin 3) : Quantized node i box dim := by
  obtain ⟨hlower, hupper⟩ := h.ranges hbox dim
  refine ⟨hlower, hupper, ?_, ?_, ?_, ?_, ?_, ?_⟩
  · rw [hstored.lower, toNat_quantizeLower hlower]
  · rw [hstored.upper, toNat_quantizeUpper hupper]
  · rw [component_bounds_fst, hstored.lower]
    exact dequantize_lower_le hlower
  · rw [component_conservativeBox_fst]
    exact sub_le_self _ (err_nonneg box)
  · rw [component_conservativeBox_snd]
    exact le_add_of_nonneg_right (err_nonneg box)
  · rw [component_bounds_snd, hstored.upper]
    exact le_dequantize_upper hupper

/-- A child that is set stays as it is while others are set. -/
theorem HasGrid.setAllBounds (h : HasGrid node parent) {sets : List (Fin 6 × NonemptyInterval Vec3f)}
    (hsets : ∀ s ∈ sets, s.2 ≤ parent) (hnodup : (sets.map Prod.fst).Nodup) :
    ∃ node', node.setAllBounds sets = some node' ∧ HasGrid node' parent ∧
      (∀ s ∈ sets, Stored node' s.1 s.2) ∧
      ∀ i ∉ sets.map Prod.fst, ∀ dim, node'.lowerQ dim i = node.lowerQ dim i ∧
        node'.upperQ dim i = node.upperQ dim i := by
  induction sets generalizing node with
  | nil => exact ⟨node, rfl, h, fun _ hs => absurd hs List.not_mem_nil, fun _ _ _ => ⟨rfl, rfl⟩⟩
  | cons s sets ih =>
      rw [List.map_cons, List.nodup_cons] at hnodup
      obtain ⟨node', hrun, hgrid, hstored, hframe⟩ := ih (h.setChildBounds s.1 s.2)
        (fun s' hs => hsets s' (List.mem_cons_of_mem _ hs)) hnodup.2
      have hasserts := h.asserts (hsets s (List.mem_cons_self ..)) s.1
      refine ⟨node', by rw [InternalNode.setAllBounds, if_pos hasserts, hrun], hgrid, ?_, ?_⟩
      · intro s' hs
        rcases List.mem_cons.1 hs with rfl | hs
        · have hself := stored_setChildBounds node s'.1 s'.2
          have hkept := hframe s'.1 hnodup.1
          constructor
          · intro dim
            rw [(hkept dim).1, hself.lower, hgrid.lower, hgrid.exponent, ← h.lower, ← h.exponent]
            rfl
          · intro dim
            rw [(hkept dim).2, hself.upper, hgrid.lower, hgrid.exponent, ← h.lower, ← h.exponent]
            rfl
        · exact hstored s' hs
      · intro i hi dim
        rw [List.map_cons, List.mem_cons, not_or] at hi
        rw [(hframe i hi.2 dim).1, (hframe i hi.2 dim).2, lowerQ_setChildBounds, upperQ_setChildBounds,
          Function.update_of_ne hi.1, Function.update_of_ne hi.1]
        exact ⟨rfl, rfl⟩

end grid

theorem Bounded.sup {a b : NonemptyInterval Vec3f} (ha : Bounded a) (hb : Bounded b) :
    Bounded (a ⊔ b) := by
  have hmin : ∀ dim, component (a ⊔ b).fst dim = min (component a.fst dim) (component b.fst dim) := by
    intro dim
    fin_cases dim <;> rfl
  have hmax : ∀ dim, component (a ⊔ b).snd dim = max (component a.snd dim) (component b.snd dim) := by
    intro dim
    fin_cases dim <;> rfl
  intro dim
  rw [hmin, hmax]
  constructor
  · rcases min_choice (component a.fst dim) (component b.fst dim) with h | h
    · rw [h]
      exact (ha dim).1
    · rw [h]
      exact (hb dim).1
  · rcases max_choice (component a.snd dim) (component b.snd dim) with h | h
    · rw [h]
      exact (ha dim).2
    · rw [h]
      exact (hb dim).2

theorem exists_union_from {sets : List (Fin 6 × NonemptyInterval Vec3f)}
    {b : NonemptyInterval Vec3f} (hb : Bounded b) (hsets : ∀ s ∈ sets, Bounded s.2) :
    ∃ parent : NonemptyInterval Vec3f, sets.foldl (fun b s => b ⊔ (s.2 : BBox3f)) (b : BBox3f) = parent ∧
      Bounded parent ∧ b ≤ parent ∧ ∀ s ∈ sets, s.2 ≤ parent := by
  induction sets generalizing b with
  | nil => exact ⟨b, rfl, hb, le_rfl, fun _ hs => absurd hs List.not_mem_nil⟩
  | cons s sets ih =>
      obtain ⟨parent, hunion, hbounded, hle, hall⟩ := ih (hb.sup (hsets s (List.mem_cons_self ..)))
        (fun s' hs => hsets s' (List.mem_cons_of_mem _ hs))
      refine ⟨parent, hunion, hbounded, le_sup_left.trans hle, fun s' hs => ?_⟩
      rcases List.mem_cons.1 hs with rfl | hs
      · exact le_sup_right.trans hle
      · exact hall s' hs

theorem exists_union {sets : List (Fin 6 × NonemptyInterval Vec3f)} (hne : sets ≠ [])
    (hsets : ∀ s ∈ sets, Bounded s.2) :
    ∃ parent : NonemptyInterval Vec3f, unionBounds sets = parent ∧ Bounded parent ∧
      ∀ s ∈ sets, s.2 ≤ parent := by
  cases sets with
  | nil => exact absurd rfl hne
  | cons s sets =>
      obtain ⟨parent, hunion, hbounded, hle, hall⟩ := exists_union_from (hsets s (List.mem_cons_self ..))
        (fun s' hs => hsets s' (List.mem_cons_of_mem _ hs))
      refine ⟨parent, hunion, hbounded, fun s' hs => ?_⟩
      rcases List.mem_cons.1 hs with rfl | hs
      · exact hle
      · exact hall s' hs

theorem setNodeBounds_asserts {parent : NonemptyInterval Vec3f} (h : Bounded parent) :
    setNodeBoundsAsserts parent = true := by
  apply List.all_eq_true.2
  intro dim _
  rw [Bool.and_eq_true, decide_eq_true_eq, decide_eq_true_eq]
  exact ⟨le_max_left .., chosenExp_le (gridLength_nonneg parent dim) (gridLength_lt h dim)⟩

/-- The boxes of a node contain the boxes that its children were given. -/
theorem quantizedNode_conservative (type : NodeType) {sets : List (Fin 6 × NonemptyInterval Vec3f)}
    (hne : sets ≠ []) (hnodup : (sets.map Prod.fst).Nodup) (hsets : ∀ s ∈ sets, Bounded s.2) :
    ∃ (parent : NonemptyInterval Vec3f) (node : InternalNode),
      unionBounds sets = parent ∧ quantizedNode type sets = some node ∧
      (∀ dim, node.exponent dim = chosenExp (gridLength parent dim) ∧
        node.exponent dim ∈ Set.Icc (-128) 127) ∧
      (∀ s ∈ sets, node.valid s.1 = true ∧ ∀ dim, Quantized node s.1 s.2 dim) ∧
      ∀ i ∉ sets.map Prod.fst, node.valid i = false := by
  obtain ⟨parent, hunion, hbounded, hparent⟩ := exists_union hne hsets
  have hgrid := hasGrid_ofBounds hbounded type
  obtain ⟨node, hrun, hgrid', hstored, hframe⟩ := hgrid.setAllBounds hparent hnodup
  refine ⟨parent, node, hunion, ?_, fun dim => ?_, fun s hs => ?_, fun i hi => ?_⟩
  · rw [quantizedNode, hunion, if_pos (setNodeBounds_asserts hbounded), hrun]
  · rw [hgrid'.exponent]
    exact ⟨rfl, le_max_left .., chosenExp_le (gridLength_nonneg parent dim) (gridLength_lt hbounded dim)⟩
  · exact ⟨(hstored s hs).valid, hgrid'.quantized (hparent s hs) (hstored s hs)⟩
  · obtain ⟨hlower, hupper⟩ := hframe i hi 0
    have hinvalid : (ofBounds parent type).valid i = false :=
      valid_slot_ofBounds (parent : BBox3f) type i
    rw [valid] at hinvalid ⊢
    change node.lowerX i = _ at hlower
    change node.upperX i = _ at hupper
    rw [hlower, hupper]
    exact hinvalid

def unitBox : NonemptyInterval Vec3f := ⟨((0, 0, 0), (1, 1, 1)), by decide⟩

/-- A box with thirds for its sides, none of which is a multiple of the grid's spacing. -/
def thirdsBox : NonemptyInterval Vec3f :=
  ⟨((-1 / 3, 1 / 3, 2), (2 / 3, 5 / 3, 7 / 3)), by norm_num [Prod.le_def]⟩

theorem bounded_thirdsBox {s : Fin 6 × NonemptyInterval Vec3f}
    (hs : s ∈ [((2 : Fin 6), unitBox), (4, thirdsBox)]) : Bounded s.2 := by
  rcases List.mem_cons.1 hs with rfl | hs
  · intro dim
    fin_cases dim <;> norm_num [component, unitBox, fltLarge]
  · obtain rfl := List.mem_singleton.1 hs
    intro dim
    fin_cases dim <;> norm_num [component, thirdsBox, fltLarge]

theorem quantizedNode_conservative_unitBox :
    ∃ node, quantizedNode .internal [(2, unitBox), (4, thirdsBox)] = some node ∧
      node.valid 2 = true ∧ node.valid 4 = true ∧ node.valid 0 = false ∧
      component (node.bounds 2).1 1 ≤ 0 ∧ 1 ≤ component (node.bounds 2).2 1 ∧
      component (node.bounds 4).1 0 ≤ -1 / 3 ∧ 5 / 3 ≤ component (node.bounds 4).2 1 := by
  obtain ⟨parent, node, -, hnode, -, hset, hunset⟩ := @quantizedNode_conservative .internal
    [(2, unitBox), (4, thirdsBox)] (by decide) (by decide) (fun s hs => bounded_thirdsBox hs)
  obtain ⟨hvalid, hunit⟩ := hset (2, unitBox) List.mem_cons_self
  obtain ⟨hvalid', hthirds⟩ := hset (4, thirdsBox) (List.mem_cons_of_mem _ List.mem_cons_self)
  refine ⟨node, hnode, hvalid, hvalid', hunset 0 (by decide), ?_, ?_, ?_, ?_⟩
  · exact (hunit 1).lower_le.trans (hunit 1).conservative_lower
  · exact (hunit 1).conservative_upper.trans (hunit 1).le_upper
  · exact (hthirds 0).lower_le.trans (hthirds 0).conservative_lower
  · exact (hthirds 1).conservative_upper.trans (hthirds 1).le_upper

end RTBuild.InternalNode
