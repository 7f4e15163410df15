import RTBuild.Presplit
import RTBuild.Quantization
import RTBuild.Splitter
import RTBuild.SplittingGrid

namespace RTBuild

open Library Quadifier

def cellMargin : ℚ := 13421773 / 2 ^ 26

def cvtps (q : ℚ) : Int :=
  if q - ⌊q⌋ < 1 / 2 then ⌊q⌋
  else if 1 / 2 < q - ⌊q⌋ then ⌊q⌋ + 1
  else if ⌊q⌋ % 2 = 0 then ⌊q⌋ else ⌊q⌋ + 1

structure SplittingGrid where
  base : Vec3f
  scale : ℚ
  extend : ℚ

namespace SplittingGrid

def ofBounds (bounds : NonemptyInterval Vec3f) : SplittingGrid :=
  let diag := bounds.snd - bounds.fst
  let extend := max diag.1 (max diag.2.1 diag.2.2)
  ⟨bounds.fst, if extend = 0 then 0 else gridSize / extend, extend⟩

section code

variable (grid : SplittingGrid) (prim : PrimRef)

def glower (dim : Fin 3) : ℚ :=
  (component prim.bounds.fst dim - component grid.base dim) * grid.scale + cellMargin

def gupper (dim : Fin 3) : ℚ :=
  (component prim.bounds.snd dim - component grid.base dim) * grid.scale - cellMargin

def ilower : Vec3ia := fun dim => BitVec.ofInt 32 ⌊grid.glower prim dim⌋

/-- Dimensions that are empty are ignored. Their comparison is one of rounded values. -/
def iupper : Vec3ia := fun dim =>
  if cvtps (grid.glower prim dim) ≥ cvtps (grid.gupper prim dim) then grid.ilower prim dim
  else BitVec.ofInt 32 ⌊grid.gupper prim dim⌋

def worldSplitPos : Option (Fin 3 × ℚ) :=
  (splitPos (grid.ilower prim) (grid.iupper prim)).map (fun s =>
    (s.dim, component grid.base s.dim + s.isplit.toNat * (1 / gridSize) * grid.extend))

def computeMC : BitVec 32 × BitVec 32 := (code (grid.ilower prim), code (grid.iupper prim))

end code

theorem floor_le_cvtps (q : ℚ) : ⌊q⌋ ≤ cvtps q ∧ cvtps q ≤ ⌊q⌋ + 1 := by
  rw [cvtps]
  split_ifs <;> omega

theorem cvtps_mono {p q : ℚ} (h : p ≤ q) : cvtps p ≤ cvtps q := by
  rcases (Int.floor_le_floor h).lt_or_eq with hlt | heq
  · have hp := (floor_le_cvtps p).2
    have hq := (floor_le_cvtps q).1
    omega
  · have hfract : p - ⌊p⌋ ≤ q - ⌊q⌋ := by
      rw [heq]
      linarith
    simp only [cvtps]
    split_ifs <;> first | omega | linarith

/-- Only the low ten bits of a component go into the code. -/
theorem spreadBits_gridSize : spreadBits 1024 = spreadBits 0 := by decide

def wrapCell (cell : Vec3ia) : Vec3ia := fun dim => if cell dim = 1024 then 0 else cell dim

theorem code_wrapCell (cell : Vec3ia) : code (wrapCell cell) = code cell := by
  have hspread : ∀ dim, spreadBits (wrapCell cell dim) = spreadBits (cell dim) := by
    intro dim
    rw [wrapCell]
    split
    · next h => rw [h, spreadBits_gridSize]
    · rfl
  simp only [code, bitInterleave, hspread]

section bounds

variable {bounds : NonemptyInterval Vec3f} {prim : PrimRef}

theorem diag_le_extend (bounds : NonemptyInterval Vec3f) (dim : Fin 3) :
    component bounds.snd dim - component bounds.fst dim ≤ (ofBounds bounds).extend := by
  fin_cases dim
  · exact le_max_left _ _
  · exact (le_max_left _ _).trans (le_max_right _ _)
  · exact (le_max_right _ _).trans (le_max_right _ _)

theorem scale_eq {bounds : NonemptyInterval Vec3f} (h : (ofBounds bounds).extend ≠ 0) :
    (ofBounds bounds).scale = gridSize / (ofBounds bounds).extend := if_neg h

theorem scale_eq_zero {bounds : NonemptyInterval Vec3f} (h : (ofBounds bounds).extend = 0) :
    (ofBounds bounds).scale = 0 := if_pos h

theorem extend_nonneg (bounds : NonemptyInterval Vec3f) : 0 ≤ (ofBounds bounds).extend :=
  (sub_nonneg.2 bounds.fst_le_snd.1).trans (diag_le_extend bounds 0)

/-- The cells of a primitive inside of the grid. The last cell may be one too far for an empty
dimension. -/
theorem cell_range (h : prim.bounds ≤ bounds) (dim : Fin 3) :
    0 ≤ ⌊(ofBounds bounds).glower prim dim⌋ ∧ ⌊(ofBounds bounds).glower prim dim⌋ ≤ 1024 ∧
      ⌊(ofBounds bounds).gupper prim dim⌋ < 1024 := by
  have hfst := InternalNode.component_le h.1 dim
  have hsnd := InternalNode.component_le h.2 dim
  have hle := InternalNode.component_le prim.bounds.fst_le_snd dim
  have hdiag := diag_le_extend bounds dim
  have hbase : (ofBounds bounds).base = bounds.fst := rfl
  have hmargin : cellMargin = 13421773 / 2 ^ 26 := rfl
  rw [Int.floor_lt, Int.le_floor, glower, gupper, hbase]
  have hscaled :
      0 ≤ (component prim.bounds.fst dim - component bounds.fst dim) * (ofBounds bounds).scale ∧
      (component prim.bounds.fst dim - component bounds.fst dim) * (ofBounds bounds).scale ≤ 1024 ∧
      (component prim.bounds.snd dim - component bounds.fst dim) * (ofBounds bounds).scale ≤ 1024 := by
    rcases (extend_nonneg bounds).eq_or_lt with hzero | hpos
    · rw [scale_eq_zero hzero.symm]
      norm_num
    · rw [scale_eq hpos.ne', gridSize]
      have hle1024 : ∀ v : ℚ, v ≤ (ofBounds bounds).extend →
          v * ((1024 : Nat) / (ofBounds bounds).extend) ≤ 1024 := by
        intro v hv
        rw [mul_div_assoc', div_le_iff₀ hpos]
        push_cast
        linarith
      refine ⟨mul_nonneg (by linarith) (by positivity), hle1024 _ (by linarith), hle1024 _ (by linarith)⟩
  refine ⟨?_, ?_, ?_⟩
  · push_cast
    norm_num [hmargin]
    linarith
  · refine Int.le_of_lt_add_one (Int.floor_lt.2 ?_)
    push_cast
    norm_num [hmargin]
    linarith
  · push_cast
    norm_num [hmargin]
    linarith

theorem toNat_ofInt_of_lt {z : Int} (h0 : 0 ≤ z) (h : z < 2 ^ 32) :
    ((BitVec.ofInt 32 z).toNat : Int) = z := by
  rw [BitVec.toNat_ofInt]
  omega

/-- Where the cells of a dimension differ, they are those of the lower and upper coordinates. -/
theorem iupper_of_ne {grid : SplittingGrid} {dim : Fin 3}
    (h : grid.iupper prim dim ≠ grid.ilower prim dim) :
    grid.glower prim dim < grid.gupper prim dim ∧
      grid.iupper prim dim = BitVec.ofInt 32 ⌊grid.gupper prim dim⌋ := by
  rw [iupper] at h ⊢
  split at h
  · exact absurd rfl h
  · next hlt =>
      refine ⟨?_, if_neg hlt⟩
      by_contra hle
      exact hlt (cvtps_mono (not_lt.1 hle))

def cells (h : prim.bounds ≤ bounds) : Cells where
  ilower := wrapCell ((ofBounds bounds).ilower prim)
  iupper := wrapCell ((ofBounds bounds).iupper prim)
  le dim := by
    obtain ⟨h0, -, hupper⟩ := cell_range h dim
    by_cases heq : (ofBounds bounds).iupper prim dim = (ofBounds bounds).ilower prim dim
    · rw [wrapCell, wrapCell, heq]
    · obtain ⟨hlt, hiupper⟩ := iupper_of_ne heq
      have hfloor := Int.floor_le_floor hlt.le
      have hl : (((ofBounds bounds).ilower prim dim).toNat : Int) = _ := toNat_ofInt_of_lt h0 (by omega)
      have hu : (((ofBounds bounds).iupper prim dim).toNat : Int) = _ :=
        hiupper ▸ toNat_ofInt_of_lt (h0.trans hfloor) (by omega)
      have hne : (ofBounds bounds).iupper prim dim ≠ 1024 := by
        intro h1024
        rw [h1024] at hu
        change (1024 : Int) = _ at hu
        omega
      simp only [wrapCell]
      rw [if_neg hne]
      split
      · exact Nat.zero_le _
      · omega
  lt dim := by
    obtain ⟨h0, hlower, hupper⟩ := cell_range h dim
    have hgrid : gridSize = 1024 := rfl
    rw [wrapCell, hgrid]
    split
    · decide
    · next hne =>
        by_cases heq : (ofBounds bounds).iupper prim dim = (ofBounds bounds).ilower prim dim
        · have hl : (((ofBounds bounds).ilower prim dim).toNat : Int) = _ :=
            toNat_ofInt_of_lt h0 (by omega)
          have hne' : ((ofBounds bounds).iupper prim dim).toNat ≠ 1024 :=
            fun h => hne (BitVec.eq_of_toNat_eq h)
          rw [heq] at hne' ⊢
          omega
        · obtain ⟨hlt, hiupper⟩ := iupper_of_ne heq
          have hfloor := Int.floor_le_floor hlt.le
          have hu : (((ofBounds bounds).iupper prim dim).toNat : Int) = _ :=
            hiupper ▸ toNat_ofInt_of_lt (h0.trans hfloor) (by omega)
          omega

/-- The plane of a split goes through the box of the primitive. -/
theorem worldSplitPos_inside (h : prim.bounds ≤ bounds) {dim : Fin 3} {fsplit : ℚ}
    (hsplit : (ofBounds bounds).worldSplitPos prim = some (dim, fsplit)) :
    component prim.bounds.fst dim < fsplit ∧ fsplit < component prim.bounds.snd dim := by
  rw [worldSplitPos, Option.map_eq_some_iff] at hsplit
  obtain ⟨s, hs, heq⟩ := hsplit
  obtain ⟨rfl, rfl⟩ := Prod.mk.inj heq
  -- the same split of the cells that are inside of the grid
  obtain ⟨s', hs', hdim, hisplit⟩ : ∃ s', splitPos (cells h).ilower (cells h).iupper = some s' ∧
      s'.dim = s.dim ∧ s'.isplit = (wrapCell ((ofBounds bounds).iupper prim) s.dim) &&&
        ~~~(1#32 <<< s.level - 1) ∧ s.isplit = ((ofBounds bounds).iupper prim s.dim) &&&
        ~~~(1#32 <<< s.level - 1) := by
    rw [splitPos] at hs ⊢
    rw [cells, code_wrapCell, code_wrapCell]
    split at hs
    · cases hs
    · next hne =>
        obtain rfl := Option.some.inj hs
        rw [if_neg hne]
        exact ⟨_, rfl, rfl, rfl, rfl⟩
  have hdescribes := splitPos_describes hs'
  have hlower := hdescribes.lower_lt
  have hupper := hdescribes.le_upper
  rw [hdim] at hlower hupper
  have hcells : (cells h).ilower s.dim = wrapCell ((ofBounds bounds).ilower prim) s.dim ∧
      (cells h).iupper s.dim = wrapCell ((ofBounds bounds).iupper prim) s.dim := ⟨rfl, rfl⟩
  rw [hcells.1] at hlower
  rw [hcells.2] at hupper
  have hne1024 : (ofBounds bounds).iupper prim s.dim ≠ 1024 := by
    intro h1024
    rw [wrapCell, if_pos h1024] at hupper
    exact absurd (hlower.trans_le hupper) (Nat.not_lt_zero _)
  rw [wrapCell, if_neg hne1024] at hisplit hupper
  rw [hisplit.1, ← hisplit.2] at hlower hupper
  obtain ⟨h0, -, hfloor1024⟩ := cell_range h s.dim
  have hne : (ofBounds bounds).iupper prim s.dim ≠ (ofBounds bounds).ilower prim s.dim := by
    intro heq
    rw [wrapCell, ← heq, if_neg hne1024] at hlower
    exact absurd (hlower.trans_le hupper) (lt_irrefl _)
  obtain ⟨hlt, hiupper⟩ := iupper_of_ne hne
  have hfloor := Int.floor_le_floor hlt.le
  have hl : (((ofBounds bounds).ilower prim s.dim).toNat : Int) =
      ⌊(ofBounds bounds).glower prim s.dim⌋ :=
    toNat_ofInt_of_lt h0 (by omega)
  have hu : (((ofBounds bounds).iupper prim s.dim).toNat : Int) =
      ⌊(ofBounds bounds).gupper prim s.dim⌋ :=
    hiupper ▸ toNat_ofInt_of_lt (h0.trans hfloor) (by omega)
  have hlne : (ofBounds bounds).ilower prim s.dim ≠ 1024 := by
    intro h1024
    rw [h1024] at hl
    change (1024 : Int) = _ at hl
    omega
  rw [wrapCell, if_neg hlne] at hlower
  have hlower' : (ofBounds bounds).glower prim s.dim < s.isplit.toNat := by
    refine (Int.lt_floor_add_one _).trans_le ?_
    rw [← hl]
    exact_mod_cast hlower
  have hupper' : (s.isplit.toNat : ℚ) ≤ (ofBounds bounds).gupper prim s.dim := by
    refine le_trans ?_ (Int.floor_le _)
    rw [← hu]
    exact_mod_cast hupper
  have hmargin : (0 : ℚ) < cellMargin := by norm_num [cellMargin]
  have hextend : 0 < (ofBounds bounds).extend := by
    rcases (extend_nonneg bounds).eq_or_lt with hzero | hpos
    · rw [glower, gupper, scale_eq_zero hzero.symm, mul_zero, mul_zero] at hlt
      linarith
    · exact hpos
  rw [glower, scale_eq hextend.ne'] at hlower'
  rw [gupper, scale_eq hextend.ne'] at hupper'
  have hscale : ∀ v : ℚ, v * ((gridSize : ℚ) / (ofBounds bounds).extend) *
      ((1 / gridSize) * (ofBounds bounds).extend) = v := by
    intro v
    have hgrid : (gridSize : ℚ) ≠ 0 := by norm_num [gridSize]
    field_simp
  have hcell : (0 : ℚ) < (1 / gridSize) * (ofBounds bounds).extend :=
    mul_pos (by norm_num [gridSize]) hextend
  constructor
  · have hmul := mul_lt_mul_of_pos_right (lt_of_add_lt_of_nonneg_left hlower' hmargin.le) hcell
    rw [hscale, ← mul_assoc] at hmul
    linarith
  · have hmul := mul_lt_mul_of_pos_right (hupper'.trans_lt (sub_lt_self _ hmargin)) hcell
    rw [hscale, ← mul_assoc] at hmul
    linarith

end bounds

end SplittingGrid

inductive BoxSide
  | lower (dim : Fin 3)
  | upper (dim : Fin 3)

namespace BoxSide

def Within (b : NonemptyInterval Vec3f) (y : Vec3f) : BoxSide → Prop
  | lower dim => component b.fst dim ≤ component y dim
  | upper dim => component y dim ≤ component b.snd dim

def Beyond (b : NonemptyInterval Vec3f) (y : Vec3f) : BoxSide → Prop
  | lower dim => component y dim ≤ component b.fst dim
  | upper dim => component b.snd dim ≤ component y dim

end BoxSide

/-- For every two sides of a box there is a point beyond the one that is not beyond the other. -/
def Tight (T : Set Vec3f) (b : NonemptyInterval Vec3f) : Prop :=
  ∀ s s' : BoxSide, ∃ y ∈ T, s.Beyond b y ∧ s'.Within b y

section tight

variable {T S : Set Vec3f} {b b' : NonemptyInterval Vec3f} {box : BBox3fa}

theorem BBox3fa.Bounds.exists_sides (h : box.Bounds S) (hS : S.Nonempty) (dim : Fin 3) :
    (∃ y ∈ S, box.lower dim = component y dim) ∧ ∃ y ∈ S, box.upper dim = component y dim := by
  obtain ⟨y, hy⟩ := hS
  obtain ⟨hlower, hupper⟩ := h.contains y hy dim
  constructor
  · refine (h.lower dim).resolve_left (fun htop => ?_)
    rw [htop, top_le_iff] at hlower
    exact WithTop.coe_ne_top hlower
  · refine (h.upper dim).resolve_left (fun hbot => ?_)
    rw [hbot, le_bot_iff] at hupper
    exact WithBot.coe_ne_bot hupper

/-- Clipping a box around some of the points leaves a box, and one that is still tight. -/
theorem Tight.intersect (hT : Tight T b) (hbox : box.Bounds S) (hsub : S ⊆ T)
    (hS : ∀ s : BoxSide, ∃ y ∈ S, s.Within b y) :
    ∃ b', (box.intersect (.ofBounds b)).toBounds = some b' ∧ Tight T b' := by
  have hne : S.Nonempty := (hS (.lower 0)).imp fun y h => h.1
  choose! ylower hylower hlower using fun dim => (hbox.exists_sides hne dim).1
  choose! yupper hyupper hupper using fun dim => (hbox.exists_sides hne dim).2
  have hcontains : ∀ y ∈ S, ∀ dim, component (ylower dim) dim ≤ component y dim ∧
      component y dim ≤ component (yupper dim) dim := by
    intro y hy dim
    have h := hbox.contains y hy dim
    rw [hlower, hupper] at h
    exact ⟨WithTop.coe_le_coe.1 h.1, WithBot.coe_le_coe.1 h.2⟩
  have hlower' : ∀ dim, (box.intersect (.ofBounds b)).lower dim =
      ((max (component (ylower dim) dim) (component b.fst dim) : ℚ) : WithTop ℚ) := by
    intro dim
    change max (box.lower dim) (component b.fst dim : WithTop ℚ) = _
    rw [hlower, WithTop.coe_max]
  have hupper' : ∀ dim, (box.intersect (.ofBounds b)).upper dim =
      ((min (component (yupper dim) dim) (component b.snd dim) : ℚ) : WithBot ℚ) := by
    intro dim
    change min (box.upper dim) (component b.snd dim : WithBot ℚ) = _
    rw [hupper, WithBot.coe_min]
  have hle : ∀ dim, max (component (ylower dim) dim) (component b.fst dim) ≤
      min (component (yupper dim) dim) (component b.snd dim) := by
    intro dim
    obtain ⟨y, hy, hwithin⟩ := hS (.upper dim)
    obtain ⟨z, hz, hwithin'⟩ := hS (.lower dim)
    refine max_le (le_min ((hcontains y hy dim).1.trans (hcontains y hy dim).2) ?_) (le_min ?_ ?_)
    · exact le_trans (hcontains y hy dim).1 hwithin
    · exact le_trans hwithin' (hcontains z hz dim).2
    · exact InternalNode.component_le b.fst_le_snd dim
  obtain ⟨b', hb'⟩ := BBox3fa.exists_toBounds (b := box.intersect (.ofBounds b))
    (fun dim => ⟨⟨(_, _), hle dim⟩, hlower' dim, hupper' dim⟩)
  have hsides := BBox3fa.toBounds_eq_some.1 hb'
  have hfst : ∀ dim, component b'.fst dim = max (component (ylower dim) dim) (component b.fst dim) :=
    fun dim => WithTop.coe_injective ((hsides dim).1.symm.trans (hlower' dim))
  have hsnd : ∀ dim, component b'.snd dim = min (component (yupper dim) dim) (component b.snd dim) :=
    fun dim => WithBot.coe_injective ((hsides dim).2.symm.trans (hupper' dim))
  -- a side of the clipped box is one of the box, or one of that around the points
  have hbeyond : ∀ s : BoxSide, ∀ y, s.Beyond b y → s.Beyond b' y := by
    rintro (dim | dim) y h
    · exact le_trans h ((le_max_right _ _).trans_eq (hfst dim).symm)
    · exact ((hsnd dim).trans_le (min_le_right _ _)).trans h
  have hreach : ∀ s : BoxSide, ∃ y ∈ S, s.Beyond b' y := by
    rintro (dim | dim)
    · exact ⟨ylower dim, hylower dim, (le_max_left _ _).trans_eq (hfst dim).symm⟩
    · exact ⟨yupper dim, hyupper dim, (hsnd dim).trans_le (min_le_left _ _)⟩
  have hwithin : ∀ s : BoxSide, (∀ y, s.Within b y → s.Within b' y) ∨ ∀ y ∈ S, s.Within b' y := by
    rintro (dim | dim)
    · rcases max_choice (component (ylower dim) dim) (component b.fst dim) with hmax | hmax
      · exact Or.inr fun y hy => ((hfst dim).trans hmax).trans_le (hcontains y hy dim).1
      · exact Or.inl fun y hy => ((hfst dim).trans hmax).trans_le hy
    · rcases min_choice (component (yupper dim) dim) (component b.snd dim) with hmin | hmin
      · exact Or.inr fun y hy => (hcontains y hy dim).2.trans_eq ((hsnd dim).trans hmin).symm
      · exact Or.inl fun y hy => le_trans hy ((hsnd dim).trans hmin).ge
  refine ⟨b', hb', fun s s' => ?_⟩
  rcases hwithin s' with hkeep | hall
  · obtain ⟨y, hy, hs, hs'⟩ := hT s s'
    exact ⟨y, hy, hbeyond s y hs, hkeep y hs'⟩
  · obtain ⟨y, hy, hs⟩ := hreach s
    exact ⟨y, hsub hy, hs, hall y hy⟩

/-- A plane through a tight box leaves boxes on both sides. -/
theorem Tight.split (hT : Tight T b) {dim : Fin 3} {pos : ℚ} {r : BBox3fa × BBox3fa}
    (hr : SplitsAt T dim pos r) (hlower : component b.fst dim ≤ pos)
    (hupper : pos ≤ component b.snd dim) :
    (∃ left, (r.1.intersect (.ofBounds b)).toBounds = some left ∧ Tight T left) ∧
      ∃ right, (r.2.intersect (.ofBounds b)).toBounds = some right ∧ Tight T right := by
  constructor
  · refine hT.intersect hr.left (fun y hy => hy.1) (fun s => ?_)
    obtain ⟨y, hy, hbeyond, hwithin⟩ := hT (.lower dim) s
    exact ⟨y, ⟨hy, le_trans hbeyond hlower⟩, hwithin⟩
  · refine hT.intersect hr.right (fun y hy => hy.1) (fun s => ?_)
    obtain ⟨y, hy, hbeyond, hwithin⟩ := hT (.upper dim) s
    exact ⟨y, ⟨hy, hupper.trans hbeyond⟩, hwithin⟩

def Reached (V : Set Vec3f) (b : NonemptyInterval Vec3f) : Prop := ∀ s : BoxSide, ∃ v ∈ V, s.Beyond b v

theorem reached_pure (v : Vec3f) : Reached {v} (NonemptyInterval.pure v) := by
  rintro (dim | dim)
  · exact ⟨v, rfl, le_rfl⟩
  · exact ⟨v, rfl, le_rfl⟩

theorem component_sup_fst (b b' : NonemptyInterval Vec3f) (dim : Fin 3) :
    component (b ⊔ b').fst dim = min (component b.fst dim) (component b'.fst dim) := by
  fin_cases dim <;> rfl

theorem component_sup_snd (b b' : NonemptyInterval Vec3f) (dim : Fin 3) :
    component (b ⊔ b').snd dim = max (component b.snd dim) (component b'.snd dim) := by
  fin_cases dim <;> rfl

theorem Reached.sup {V V' : Set Vec3f} (h : Reached V b) (h' : Reached V' b') :
    Reached (V ∪ V') (b ⊔ b') := by
  rintro (dim | dim)
  · have hfst := component_sup_fst b b' dim
    rcases min_choice (component b.fst dim) (component b'.fst dim) with hmin | hmin
    · obtain ⟨v, hv, hbeyond⟩ := h (.lower dim)
      exact ⟨v, Or.inl hv, le_trans hbeyond (hfst.trans hmin).ge⟩
    · obtain ⟨v, hv, hbeyond⟩ := h' (.lower dim)
      exact ⟨v, Or.inr hv, le_trans hbeyond (hfst.trans hmin).ge⟩
  · have hsnd := component_sup_snd b b' dim
    rcases max_choice (component b.snd dim) (component b'.snd dim) with hmax | hmax
    · obtain ⟨v, hv, hbeyond⟩ := h (.upper dim)
      exact ⟨v, Or.inl hv, (hsnd.trans hmax).trans_le hbeyond⟩
    · obtain ⟨v, hv, hbeyond⟩ := h' (.upper dim)
      exact ⟨v, Or.inr hv, (hsnd.trans hmax).trans_le hbeyond⟩

/-- The box around some points of a shape is tight. -/
theorem Reached.tight {V : Set Vec3f} (h : Reached V b) (hV : ∀ v ∈ V, v ∈ T ∧ v ∈ b) : Tight T b := by
  intro s s'
  obtain ⟨v, hv, hs⟩ := h s
  obtain ⟨hmem, hb⟩ := hV v hv
  refine ⟨v, hmem, hs, ?_⟩
  rcases s' with dim | dim
  · exact InternalNode.component_le hb.1 dim
  · exact InternalNode.component_le hb.2 dim

def Quad.bounds (quad : Quad) : NonemptyInterval Vec3f :=
  .pure quad.p0 ⊔ .pure quad.p1 ⊔ .pure quad.p2 ⊔ .pure quad.p3

theorem reached_triangle (tri : TrianglePairs.Triangle) :
    Reached ({tri.p0} ∪ {tri.p1} ∪ {tri.p2}) tri.bounds :=
  ((reached_pure tri.p0).sup (reached_pure tri.p1)).sup (reached_pure tri.p2)

theorem vertices_triangle (tri : TrianglePairs.Triangle) :
    ∀ v ∈ ({tri.p0} ∪ {tri.p1} ∪ {tri.p2} : Set Vec3f), v ∈ tri.surface ∧ v ∈ tri.bounds := by
  rintro v ((rfl | rfl) | rfl)
  · exact ⟨subset_convexHull ℚ _ (by simp),
      (le_sup_left.trans le_sup_left : NonemptyInterval.pure tri.p0 ≤ tri.bounds)⟩
  · exact ⟨subset_convexHull ℚ _ (by simp),
      (le_sup_right.trans le_sup_left : NonemptyInterval.pure tri.p1 ≤ tri.bounds)⟩
  · exact ⟨subset_convexHull ℚ _ (by simp), (le_sup_right : NonemptyInterval.pure tri.p2 ≤ tri.bounds)⟩

theorem tight_triangle (tri : TrianglePairs.Triangle) : Tight tri.surface tri.bounds :=
  (reached_triangle tri).tight (vertices_triangle tri)

theorem tight_pair (tri0 tri1 : TrianglePairs.Triangle) :
    Tight (tri0.surface ∪ tri1.surface) (tri0.bounds ⊔ tri1.bounds) := by
  refine ((reached_triangle tri0).sup (reached_triangle tri1)).tight ?_
  rintro v (hv | hv)
  · exact ⟨Or.inl (vertices_triangle tri0 v hv).1,
      (le_trans (vertices_triangle tri0 v hv).2 le_sup_left : NonemptyInterval.pure v ≤ _)⟩
  · exact ⟨Or.inr (vertices_triangle tri1 v hv).1,
      (le_trans (vertices_triangle tri1 v hv).2 le_sup_right : NonemptyInterval.pure v ≤ _)⟩

theorem tight_quad (quad : Quad) : Tight (outline quad.polygon) quad.bounds := by
  have hreached : Reached ({quad.p0} ∪ {quad.p1} ∪ {quad.p2} ∪ {quad.p3}) quad.bounds :=
    (((reached_pure quad.p0).sup (reached_pure quad.p1)).sup (reached_pure quad.p2)).sup
      (reached_pure quad.p3)
  have hvertex : ∀ u w, Edge quad.polygon u w → u ∈ outline quad.polygon :=
    fun u w huw => segment_subset_outline huw (left_mem_segment ℚ u w)
  refine hreached.tight ?_
  rintro v (((rfl | rfl) | rfl) | rfl)
  · exact ⟨hvertex _ quad.p1 (by simp [Edge, Quad.polygon]),
      (le_sup_left.trans (le_sup_left.trans le_sup_left) : NonemptyInterval.pure quad.p0 ≤ quad.bounds)⟩
  · exact ⟨hvertex _ quad.p2 (by simp [Edge, Quad.polygon]),
      (le_sup_right.trans (le_sup_left.trans le_sup_left) : NonemptyInterval.pure quad.p1 ≤ quad.bounds)⟩
  · exact ⟨hvertex _ quad.p3 (by simp [Edge, Quad.polygon]),
      (le_sup_right.trans le_sup_left : NonemptyInterval.pure quad.p2 ≤ quad.bounds)⟩
  · exact ⟨hvertex _ quad.p0 (by simp [Edge, Quad.polygon]),
      (le_sup_right : NonemptyInterval.pure quad.p3 ≤ quad.bounds)⟩

end tight

/-- Boxes for the sides of a plane that contain what a shape has there inside of a box, and nothing
outside of it. -/
structure Halves (T : Set Vec3f) (b : NonemptyInterval Vec3f) (dim : Fin 3) (pos : ℚ)
    (r : BBox3fa × BBox3fa) : Prop where
  left : ∀ x ∈ T, x ∈ b → component x dim ≤ pos → r.1.Contains x
  right : ∀ x ∈ T, x ∈ b → pos ≤ component x dim → r.2.Contains x
  left_inside : ∀ d, (component b.fst d : WithTop ℚ) ≤ r.1.lower d ∧ r.1.upper d ≤ component b.snd d
  right_inside : ∀ d, (component b.fst d : WithTop ℚ) ≤ r.2.lower d ∧ r.2.upper d ≤ component b.snd d

section halves

variable {T T' : Set Vec3f} {b : NonemptyInterval Vec3f} {dim : Fin 3} {pos : ℚ}
  {r r' : BBox3fa × BBox3fa}

theorem halves_splitPolygon {v : List Vec3f}
    (h : ∀ x ∈ T, x ∈ b → (component x dim ≤ pos → (splitPolygon (.ofBounds b) dim pos v).1.Contains x) ∧
      (pos ≤ component x dim → (splitPolygon (.ofBounds b) dim pos v).2.Contains x)) :
    Halves T b dim pos (splitPolygon (.ofBounds b) dim pos v) where
  left x hx hb := (h x hx hb).1
  right x hx hb := (h x hx hb).2
  left_inside _ := ⟨le_max_right _ _, min_le_right _ _⟩
  right_inside _ := ⟨le_max_right _ _, min_le_right _ _⟩

theorem halves_triangle (tri : TrianglePairs.Triangle) (b : NonemptyInterval Vec3f) (dim : Fin 3)
    (pos : ℚ) :
    Halves tri.surface b dim pos (splitPolygon (.ofBounds b) dim pos tri.polygon) := by
  have hclips := (tri.splitsAt dim pos).clipsAt b
  exact halves_splitPolygon (fun x hx hb => ⟨hclips.left x hx hb, hclips.right x hx hb⟩)

theorem Halves.extend (h : Halves T b dim pos r) (h' : Halves T' b dim pos r') :
    Halves (T ∪ T') b dim pos (r.1.extend r'.1, r.2.extend r'.2) where
  left x hx hb hle := hx.elim (fun hx => (h.left x hx hb hle).extend_left r'.1)
    (fun hx => (h'.left x hx hb hle).extend_right r.1)
  right x hx hb hge := hx.elim (fun hx => (h.right x hx hb hge).extend_left r'.2)
    (fun hx => (h'.right x hx hb hge).extend_right r.2)
  left_inside d := ⟨le_min (h.left_inside d).1 (h'.left_inside d).1,
    max_le (h.left_inside d).2 (h'.left_inside d).2⟩
  right_inside d := ⟨le_min (h.right_inside d).1 (h'.right_inside d).1,
    max_le (h.right_inside d).2 (h'.right_inside d).2⟩

end halves

def addSubPrim (prim : PrimRef) (subPrims : List PrimRef) : Option (List PrimRef) :=
  if subPrims.length < maxPresplitsPerPrimitive then some (subPrims ++ [prim]) else none

/-- splitPrimitive with its assertions, of which one fails where there is no result. -/
def checkedSplitPrimitive (splitter : PrimRef → Fin 3 → ℚ → Option (PrimRef × PrimRef))
    (splitPos : PrimRef → Option (Fin 3 × ℚ)) (prim : PrimRef) (splitprims : Nat)
    (subPrims : List PrimRef) : Option (List PrimRef) :=
  if splitprims = 0 ∨ maxPresplitsPerPrimitive < splitprims then none
  else if splitprims = 1 then addSubPrim prim subPrims
  else
    match splitPos prim with
    | none => addSubPrim prim subPrims
    | some (dim, fsplit) => do
        let r ← splitter prim dim fsplit
        let splitprimsLeft := splitprims / 2
        let splitprimsRight := splitprims - splitprimsLeft
        let subPrims ← checkedSplitPrimitive splitter splitPos r.1 splitprimsLeft subPrims
        checkedSplitPrimitive splitter splitPos r.2 splitprimsRight subPrims
termination_by splitprims
decreasing_by all_goals omega

section checked

variable {splitter : PrimRef → Fin 3 → ℚ → Option (PrimRef × PrimRef)}
  {splitPos : PrimRef → Option (Fin 3 × ℚ)} {prim : PrimRef} {splitprims : Nat}
  {subPrims all : List PrimRef}

theorem addSubPrim_eq_some : addSubPrim prim subPrims = some all ↔
    subPrims.length < maxPresplitsPerPrimitive ∧ subPrims ++ [prim] = all := by
  rw [addSubPrim, Option.ite_none_right_eq_some, Option.some.injEq]

theorem checkedSplitPrimitive_single (hpos : 0 < splitprims)
    (hle : splitprims ≤ maxPresplitsPerPrimitive) (h : splitprims ≤ 1 ∨ splitPos prim = none) :
    checkedSplitPrimitive splitter splitPos prim splitprims subPrims = addSubPrim prim subPrims := by
  rw [checkedSplitPrimitive, if_neg (by omega)]
  rcases h with h | h
  · rw [if_pos (by omega)]
  · rw [h, ite_self]

theorem checkedSplitPrimitive_of_some {dim : Fin 3} {fsplit : ℚ}
    (hpos : splitPos prim = some (dim, fsplit)) (h : 1 < splitprims)
    (hle : splitprims ≤ maxPresplitsPerPrimitive) :
    checkedSplitPrimitive splitter splitPos prim splitprims subPrims = some all ↔
      ∃ left right subPrims', splitter prim dim fsplit = some (left, right) ∧
        checkedSplitPrimitive splitter splitPos left (splitprims / 2) subPrims = some subPrims' ∧
        checkedSplitPrimitive splitter splitPos right (splitprims - splitprims / 2) subPrims' =
          some all := by
  rw [checkedSplitPrimitive, if_neg (by omega), if_neg (by omega), hpos]
  simp only [Option.bind_eq_bind, Option.bind_eq_some_iff, Prod.exists]
  constructor
  · rintro ⟨left, right, hsplit, subPrims', hleft, hright⟩
    exact ⟨left, right, subPrims', hsplit, hleft, hright⟩
  · rintro ⟨left, right, subPrims', hsplit, hleft, hright⟩
    exact ⟨left, right, hsplit, subPrims', hleft, hright⟩

theorem checkedSplitPrimitive_range
    (h : checkedSplitPrimitive splitter splitPos prim splitprims subPrims = some all) :
    0 < splitprims ∧ splitprims ≤ maxPresplitsPerPrimitive := by
  by_contra hrange
  rw [checkedSplitPrimitive, if_pos (by omega)] at h
  cases h

inductive SplitInto (splitter : PrimRef → Fin 3 → ℚ → Option (PrimRef × PrimRef))
    (splitPos : PrimRef → Option (Fin 3 × ℚ)) : PrimRef → Nat → List PrimRef → Prop
  | single {prim : PrimRef} {splitprims : Nat} (h : splitprims ≤ 1 ∨ splitPos prim = none) :
      SplitInto splitter splitPos prim splitprims [prim]
  | split {prim left right : PrimRef} {splitprims : Nat} {dim : Fin 3} {fsplit : ℚ}
      {leftPieces rightPieces : List PrimRef} (h : 1 < splitprims)
      (hpos : splitPos prim = some (dim, fsplit))
      (hsplit : splitter prim dim fsplit = some (left, right))
      (hleft : SplitInto splitter splitPos left (splitprims / 2) leftPieces)
      (hright : SplitInto splitter splitPos right (splitprims - splitprims / 2) rightPieces) :
      SplitInto splitter splitPos prim splitprims (leftPieces ++ rightPieces)

theorem splitInto_of_checked
    (h : checkedSplitPrimitive splitter splitPos prim splitprims subPrims = some all) :
    ∃ pieces, subPrims ++ pieces = all ∧ SplitInto splitter splitPos prim splitprims pieces := by
  induction splitprims using Nat.strong_induction_on generalizing prim subPrims all with
  | _ splitprims ih =>
      obtain ⟨hrange, hle⟩ := checkedSplitPrimitive_range h
      by_cases hsingle : splitprims ≤ 1 ∨ splitPos prim = none
      · rw [checkedSplitPrimitive_single hrange hle hsingle, addSubPrim_eq_some] at h
        exact ⟨[prim], h.2, .single hsingle⟩
      · obtain ⟨hone, hsome⟩ := not_or.1 hsingle
        obtain ⟨⟨dim, fsplit⟩, hpos⟩ := Option.ne_none_iff_exists'.1 hsome
        obtain ⟨left, right, subPrims', hsplit, hleft, hright⟩ :=
          (checkedSplitPrimitive_of_some hpos (Nat.lt_of_not_le hone) hle).1 h
        obtain ⟨leftPieces, rfl, hintoLeft⟩ := ih _ (by omega) hleft
        obtain ⟨rightPieces, rfl, hintoRight⟩ := ih _ (by omega) hright
        exact ⟨leftPieces ++ rightPieces, (List.append_assoc ..).symm,
          .split (Nat.lt_of_not_le hone) hpos hsplit hintoLeft hintoRight⟩

theorem SplitInto.length_le {pieces : List PrimRef}
    (h : SplitInto splitter splitPos prim splitprims pieces) (hpos : 0 < splitprims) :
    pieces.length ≤ splitprims := by
  induction h with
  | single h => exact hpos
  | split h _ _ _ _ ihleft ihright =>
      have hleft := ihleft (by omega)
      have hright := ihright (by omega)
      rw [List.length_append]
      omega

/-- Where all assertions hold, splitPrimitive has the same result. -/
theorem SplitInto.splitPrimitive_eq {pieces : List PrimRef}
    (h : SplitInto splitter splitPos prim splitprims pieces)
    {splitter' : PrimRef → Fin 3 → ℚ → PrimRef × PrimRef}
    (hsplitter : ∀ prim dim pos r, splitter prim dim pos = some r → splitter' prim dim pos = r) :
    splitPrimitive splitter' splitPos prim splitprims = pieces := by
  induction h with
  | single h =>
      rcases h with h | h
      · rw [splitPrimitive, if_pos h]
      · exact splitPrimitive_of_none h _
  | split h hpos hsplit hleft hright ihleft ihright =>
      rw [splitPrimitive_of_some hpos h, hsplitter _ _ _ _ hsplit, ihleft, ihright]

/-- What every split keeps holds for all pieces. -/
theorem SplitInto.forall {I : PrimRef → Prop}
    (hI : ∀ prim dim pos left right, I prim → splitter prim dim pos = some (left, right) →
      I left ∧ I right)
    {pieces : List PrimRef} (h : SplitInto splitter splitPos prim splitprims pieces)
    (hprim : I prim) :
    ∀ piece ∈ pieces, I piece := by
  induction h with
  | single h => exact fun piece hpiece => List.mem_singleton.1 hpiece ▸ hprim
  | split h hpos hsplit hleft hright ihleft ihright =>
      obtain ⟨hIleft, hIright⟩ := hI _ _ _ _ _ hprim hsplit
      intro piece hpiece
      rcases List.mem_append.1 hpiece with hpiece | hpiece
      · exact ihleft hIleft piece hpiece
      · exact ihright hIright piece hpiece

/-- What every split leaves to one side at least is left to one piece at least. -/
theorem SplitInto.exists {I C : PrimRef → Prop}
    (hI : ∀ prim dim pos left right, I prim → splitter prim dim pos = some (left, right) →
      I left ∧ I right)
    (hC : ∀ prim dim pos left right, I prim → splitter prim dim pos = some (left, right) → C prim →
      C left ∨ C right) {pieces : List PrimRef}
    (h : SplitInto splitter splitPos prim splitprims pieces) (hprim : I prim) (hcatch : C prim) :
    ∃ piece ∈ pieces, C piece := by
  induction h with
  | single h => exact ⟨_, List.mem_singleton_self _, hcatch⟩
  | split h hpos hsplit hleft hright ihleft ihright =>
      obtain ⟨hIleft, hIright⟩ := hI _ _ _ _ _ hprim hsplit
      rcases hC _ _ _ _ _ hprim hsplit hcatch with hcatch | hcatch
      · obtain ⟨piece, hpiece, hC⟩ := ihleft hIleft hcatch
        exact ⟨piece, List.mem_append_left _ hpiece, hC⟩
      · obtain ⟨piece, hpiece, hC⟩ := ihright hIright hcatch
        exact ⟨piece, List.mem_append_right _ hpiece, hC⟩

/-- No assertion fails if none does for a split that keeps an invariant. The array has room for as many
sub-primitives as are asked for. -/
theorem exists_checked {I : PrimRef → Prop}
    (hI : ∀ prim dim pos, I prim → splitPos prim = some (dim, pos) →
      ∃ left right, splitter prim dim pos = some (left, right) ∧ I left ∧ I right) (hprim : I prim)
    (hpos : 0 < splitprims) (hroom : subPrims.length + splitprims ≤ maxPresplitsPerPrimitive) :
    ∃ all, checkedSplitPrimitive splitter splitPos prim splitprims subPrims = some all := by
  induction splitprims using Nat.strong_induction_on generalizing prim subPrims with
  | _ splitprims ih =>
      by_cases hsingle : splitprims ≤ 1 ∨ splitPos prim = none
      · rw [checkedSplitPrimitive_single hpos (by omega) hsingle]
        exact ⟨_, addSubPrim_eq_some.2 ⟨by omega, rfl⟩⟩
      · obtain ⟨hone, hsome⟩ := not_or.1 hsingle
        obtain ⟨⟨dim, fsplit⟩, hpos'⟩ := Option.ne_none_iff_exists'.1 hsome
        obtain ⟨left, right, hsplit, hIleft, hIright⟩ := hI _ _ _ hprim hpos'
        have hroomLeft : subPrims.length + splitprims / 2 ≤ maxPresplitsPerPrimitive := by omega
        obtain ⟨all, hleft⟩ := ih (splitprims / 2) (by omega) hIleft (by omega) hroomLeft
        obtain ⟨pieces, rfl, hpieces⟩ := splitInto_of_checked hleft
        have hlength := hpieces.length_le (by omega)
        have hroomRight : (subPrims ++ pieces).length + (splitprims - splitprims / 2) ≤
            maxPresplitsPerPrimitive := by
          rw [List.length_append]
          omega
        obtain ⟨all, hright⟩ :=
          ih (splitprims - splitprims / 2) (by omega) hIright (by omega) hroomRight
        exact ⟨all, (checkedSplitPrimitive_of_some hpos' (by omega) (by omega)).2
          ⟨_, _, _, hsplit, hleft, hright⟩⟩

end checked

theorem splitPrims_eq_some {prim left right : PrimRef} {r : BBox3fa × BBox3fa} :
    splitPrims prim r = some (left, right) ↔
      (r.1.toBounds = some left.bounds ∧ left.geomID = prim.geomID ∧ left.primID = prim.primID) ∧
        r.2.toBounds = some right.bounds ∧ right.geomID = prim.geomID ∧ right.primID = prim.primID := by
  simp only [splitPrims, Option.bind_eq_bind, Option.bind_eq_some_iff, Option.pure_def,
    Option.some.injEq, Prod.mk.injEq]
  constructor
  · rintro ⟨l, hl, r, hr, rfl, rfl⟩
    exact ⟨⟨hl, rfl, rfl⟩, hr, rfl, rfl⟩
  · rintro ⟨⟨hl, hg, hp⟩, hr, hg', hp'⟩
    exact ⟨_, hl, _, hr, by rw [← hg, ← hp], by rw [← hg', ← hp']⟩

/-- The same primitive in a box that is part of the other one. -/
structure PieceOf (prim piece : PrimRef) : Prop where
  geomID_eq : piece.geomID = prim.geomID
  primID_eq : piece.primID = prim.primID
  bounds_le : piece.bounds ≤ prim.bounds

theorem PieceOf.refl (prim : PrimRef) : PieceOf prim prim := ⟨rfl, rfl, le_rfl⟩

theorem PieceOf.trans {a b c : PrimRef} (h : PieceOf a b) (h' : PieceOf b c) : PieceOf a c :=
  ⟨h'.geomID_eq.trans h.geomID_eq, h'.primID_eq.trans h.primID_eq, h'.bounds_le.trans h.bounds_le⟩

section pieces

variable {T : Set Vec3f} {boxes : PrimRef → Fin 3 → ℚ → BBox3fa × BBox3fa}
  {splitPos : PrimRef → Option (Fin 3 × ℚ)} {prim : PrimRef} {splitprims : Nat}

theorem le_of_toBounds {b : NonemptyInterval Vec3f} {box : BBox3fa} {bounds : NonemptyInterval Vec3f}
    (hinside : ∀ d, (component b.fst d : WithTop ℚ) ≤ box.lower d ∧ box.upper d ≤ component b.snd d)
    (h : box.toBounds = some bounds) : bounds ≤ b := by
  rw [BBox3fa.eq_ofBounds_of_toBounds h] at hinside
  have hlower : ∀ d, component b.fst d ≤ component bounds.fst d :=
    fun d => WithTop.coe_le_coe.1 (hinside d).1
  have hupper : ∀ d, component bounds.snd d ≤ component b.snd d :=
    fun d => WithBot.coe_le_coe.1 (hinside d).2
  exact ⟨⟨hlower 0, hlower 1, hlower 2⟩, ⟨hupper 0, hupper 1, hupper 2⟩⟩

theorem Halves.split {dim : Fin 3} {pos : ℚ} {left right : PrimRef}
    (h : Halves T prim.bounds dim pos (boxes prim dim pos))
    (hsplit : splitPrims prim (boxes prim dim pos) = some (left, right)) :
    PieceOf prim left ∧ PieceOf prim right ∧
      ∀ x ∈ T, x ∈ prim.bounds → x ∈ left.bounds ∨ x ∈ right.bounds := by
  obtain ⟨⟨hleft, hg, hp⟩, hright, hg', hp'⟩ := splitPrims_eq_some.1 hsplit
  refine ⟨⟨hg, hp, le_of_toBounds h.left_inside hleft⟩,
    ⟨hg', hp', le_of_toBounds h.right_inside hright⟩, ?_⟩
  intro x hx hb
  rcases le_total (component x dim) pos with hle | hge
  · have hcontains := h.left x hx hb hle
    rw [BBox3fa.eq_ofBounds_of_toBounds hleft] at hcontains
    exact Or.inl (BBox3fa.contains_ofBounds.1 hcontains)
  · have hcontains := h.right x hx hb hge
    rw [BBox3fa.eq_ofBounds_of_toBounds hright] at hcontains
    exact Or.inr (BBox3fa.contains_ofBounds.1 hcontains)

/-- All pieces of a primitive are inside of its box, and what its shape has there is in some piece. -/
theorem SplitInto.covers
    (hboxes : ∀ piece dim pos, PieceOf prim piece → Halves T piece.bounds dim pos (boxes piece dim pos))
    {pieces : List PrimRef}
    (h : SplitInto (fun prim dim pos => splitPrims prim (boxes prim dim pos)) splitPos prim splitprims
      pieces) :
    (∀ piece ∈ pieces, PieceOf prim piece) ∧
      ∀ x ∈ T, x ∈ prim.bounds → ∃ piece ∈ pieces, x ∈ piece.bounds := by
  have hkeeps : ∀ piece dim pos left right, PieceOf prim piece →
      splitPrims piece (boxes piece dim pos) = some (left, right) →
        PieceOf prim left ∧ PieceOf prim right := by
    intro piece dim pos left right hpiece hsplit
    obtain ⟨hleft, hright, -⟩ := (hboxes piece dim pos hpiece).split hsplit
    exact ⟨hpiece.trans hleft, hpiece.trans hright⟩
  refine ⟨h.forall hkeeps (.refl prim), fun x hx hb => ?_⟩
  exact h.exists hkeeps (fun piece dim pos left right hpiece hsplit hmem =>
    ((hboxes piece dim pos hpiece).split hsplit).2.2 x hx hmem) (.refl prim) hb

/-- No assertion fails for a primitive in a tight box when the planes go through the boxes. -/
theorem exists_pieces {bounds : NonemptyInterval Vec3f} (hpos : 0 < splitprims)
    (hle : splitprims ≤ maxPresplitsPerPrimitive) (hprim : prim.bounds ≤ bounds)
    (htight : Tight T prim.bounds)
    (hboxes : ∀ piece dim pos, PieceOf prim piece → ∃ r : BBox3fa × BBox3fa, SplitsAt T dim pos r ∧
      boxes piece dim pos =
        (r.1.intersect (.ofBounds piece.bounds), r.2.intersect (.ofBounds piece.bounds))) :
    ∃ pieces, checkedSplitPrimitive (fun prim dim pos => splitPrims prim (boxes prim dim pos))
      (SplittingGrid.ofBounds bounds).worldSplitPos prim splitprims [] = some pieces := by
  refine exists_checked (I := fun piece => PieceOf prim piece ∧ Tight T piece.bounds) ?_
    ⟨.refl prim, htight⟩ hpos (by rwa [List.length_nil, Nat.zero_add])
  rintro piece dim pos ⟨hpiece, htight⟩ hpos
  obtain ⟨hlower, hupper⟩ := SplittingGrid.worldSplitPos_inside (hpiece.bounds_le.trans hprim) hpos
  obtain ⟨r, hr, heq⟩ := hboxes piece dim pos hpiece
  obtain ⟨⟨left, hleft, htleft⟩, right, hright, htright⟩ := htight.split hr hlower.le hupper.le
  have hinside : ∀ b : BBox3fa, ∀ d, (component piece.bounds.fst d : WithTop ℚ) ≤
      (b.intersect (.ofBounds piece.bounds)).lower d ∧
        (b.intersect (.ofBounds piece.bounds)).upper d ≤ component piece.bounds.snd d :=
    fun b d => ⟨le_max_right _ _, min_le_right _ _⟩
  refine ⟨⟨left, piece.geomID, piece.primID⟩, ⟨right, piece.geomID, piece.primID⟩,
    splitPrims_eq_some.2 ⟨⟨by rw [heq]; exact hleft, rfl, rfl⟩, by rw [heq]; exact hright,
      rfl, rfl⟩, ?_, ?_⟩
  · exact ⟨hpiece.trans ⟨rfl, rfl, le_of_toBounds (hinside r.1) hleft⟩, htleft⟩
  · exact ⟨hpiece.trans ⟨rfl, rfl, le_of_toBounds (hinside r.2) hright⟩, htright⟩

end pieces

section shapes

variable (getTriangle : Nat → TrianglePairs.Triangle) (quadification : Nat → Nat) (getQuad : Nat → Quad)

def pairSurface (primID : Nat) : Set Vec3f :=
  if quadification primID ≠ triangle then
    (getTriangle primID).surface ∪ (getTriangle (primID + quadification primID)).surface
  else (getTriangle primID).surface

def pairBounds (primID : Nat) : NonemptyInterval Vec3f :=
  if quadification primID ≠ triangle then
    (getTriangle primID).bounds ⊔ (getTriangle (primID + quadification primID)).bounds
  else (getTriangle primID).bounds

theorem halves_splitTrianglePair (prim : PrimRef) (dim : Fin 3) (pos : ℚ) :
    Halves (pairSurface getTriangle quadification prim.primID) prim.bounds dim pos
      (splitTrianglePair getTriangle quadification prim dim pos) := by
  rw [pairSurface, splitTrianglePair]
  split
  · exact (halves_triangle _ _ _ _).extend (halves_triangle _ _ _ _)
  · exact halves_triangle _ _ _ _

theorem splitsAt_pair (prim : PrimRef) (dim : Fin 3) (pos : ℚ) :
    ∃ r : BBox3fa × BBox3fa, SplitsAt (pairSurface getTriangle quadification prim.primID) dim pos r ∧
      splitTrianglePair getTriangle quadification prim dim pos =
        (r.1.intersect (.ofBounds prim.bounds), r.2.intersect (.ofBounds prim.bounds)) := by
  rw [pairSurface, splitTrianglePair]
  split
  · have h0 := (getTriangle prim.primID).splitsAt dim pos
    have h1 := (getTriangle (prim.primID + quadification prim.primID)).splitsAt dim pos
    exact ⟨_, h0.union h1, congrArg₂ Prod.mk (BBox3fa.extend_intersect _ _ _)
      (BBox3fa.extend_intersect _ _ _)⟩
  · exact ⟨_, (getTriangle prim.primID).splitsAt dim pos, rfl⟩

theorem tight_pairBounds (primID : Nat) :
    Tight (pairSurface getTriangle quadification primID)
      (pairBounds getTriangle quadification primID) := by
  rw [pairSurface, pairBounds]
  split
  · exact tight_pair _ _
  · exact tight_triangle _

theorem halves_splitQuad {prim : PrimRef} (h : ∀ dim pos, (getQuad prim.primID).Covered dim pos)
    (dim : Fin 3) (pos : ℚ) :
    Halves (getQuad prim.primID).surface prim.bounds dim pos (splitQuad getQuad prim dim pos) :=
  halves_splitPolygon (h dim pos prim.bounds)

theorem splitsAt_quad (prim : PrimRef) (dim : Fin 3) (pos : ℚ) :
    ∃ r : BBox3fa × BBox3fa, SplitsAt (outline (getQuad prim.primID).polygon) dim pos r ∧
      splitQuad getQuad prim dim pos =
        (r.1.intersect (.ofBounds prim.bounds), r.2.intersect (.ofBounds prim.bounds)) := by
  refine ⟨_, splitsAt_outline (fun u w huw => ?_) dim pos, rfl⟩
  simp only [Edge, Quad.polygon, List.tail_cons, List.zip_cons_cons, List.zip_nil_right, List.mem_cons,
    Prod.mk.injEq, List.not_mem_nil, or_false] at huw
  rcases huw with ⟨-, rfl⟩ | ⟨-, rfl⟩ | ⟨-, rfl⟩ | ⟨-, rfl⟩
  · exact ⟨(getQuad prim.primID).p2, by simp [Edge, Quad.polygon]⟩
  · exact ⟨(getQuad prim.primID).p3, by simp [Edge, Quad.polygon]⟩
  · exact ⟨(getQuad prim.primID).p0, by simp [Edge, Quad.polygon]⟩
  · exact ⟨(getQuad prim.primID).p1, by simp [Edge, Quad.polygon]⟩

variable {getTriangle quadification getQuad}

def splitPair (getTriangle : Nat → TrianglePairs.Triangle) (quadification : Nat → Nat)
    (grid : SplittingGrid) (prim : PrimRef) (splitprims : Nat) : Option (List PrimRef) :=
  checkedSplitPrimitive
    (fun prim dim pos => splitPrims prim (splitTrianglePair getTriangle quadification prim dim pos))
    grid.worldSplitPos prim splitprims []

def splitQuads (getQuad : Nat → Quad) (grid : SplittingGrid) (prim : PrimRef) (splitprims : Nat) :
    Option (List PrimRef) :=
  checkedSplitPrimitive (fun prim dim pos => splitPrims prim (splitQuad getQuad prim dim pos))
    grid.worldSplitPos prim splitprims []

def PiecesCover (T : Set Vec3f) (prim : PrimRef) (pieces : List PrimRef) : Prop :=
  (∀ piece ∈ pieces, PieceOf prim piece) ∧ ∀ x ∈ T, x ∈ prim.bounds → ∃ piece ∈ pieces, x ∈ piece.bounds

theorem splitPair_covers {grid : SplittingGrid} {prim : PrimRef} {splitprims : Nat}
    {pieces : List PrimRef}
    (h : splitPair getTriangle quadification grid prim splitprims = some pieces) :
    PiecesCover (pairSurface getTriangle quadification prim.primID) prim pieces := by
  obtain ⟨pieces, rfl, hpieces⟩ := splitInto_of_checked h
  refine hpieces.covers (fun piece dim pos hpiece => ?_)
  rw [← hpiece.primID_eq]
  exact halves_splitTrianglePair getTriangle quadification piece dim pos

theorem splitQuads_covers {grid : SplittingGrid} {prim : PrimRef} {splitprims : Nat}
    {pieces : List PrimRef} (hcovered : ∀ dim pos, (getQuad prim.primID).Covered dim pos)
    (h : splitQuads getQuad grid prim splitprims = some pieces) :
    PiecesCover (getQuad prim.primID).surface prim pieces := by
  obtain ⟨pieces, rfl, hpieces⟩ := splitInto_of_checked h
  refine hpieces.covers (fun piece dim pos hpiece => ?_)
  rw [← hpiece.primID_eq] at hcovered ⊢
  exact halves_splitQuad getQuad hcovered dim pos

theorem exists_splitPair {bounds : NonemptyInterval Vec3f} {prim : PrimRef} {splitprims : Nat}
    (hpos : 0 < splitprims) (hle : splitprims ≤ maxPresplitsPerPrimitive) (hprim : prim.bounds ≤ bounds)
    (hbounds : prim.bounds = pairBounds getTriangle quadification prim.primID) :
    ∃ pieces, splitPair getTriangle quadification (.ofBounds bounds) prim splitprims = some pieces := by
  refine exists_pieces hpos hle hprim (hbounds ▸ tight_pairBounds getTriangle quadification prim.primID)
    (fun piece dim pos hpiece => ?_)
  rw [← hpiece.primID_eq]
  exact splitsAt_pair getTriangle quadification piece dim pos

theorem exists_splitQuads {bounds : NonemptyInterval Vec3f} {prim : PrimRef} {splitprims : Nat}
    (hpos : 0 < splitprims) (hle : splitprims ≤ maxPresplitsPerPrimitive) (hprim : prim.bounds ≤ bounds)
    (hbounds : prim.bounds = (getQuad prim.primID).bounds) :
    ∃ pieces, splitQuads getQuad (.ofBounds bounds) prim splitprims = some pieces := by
  refine exists_pieces hpos hle hprim (hbounds ▸ tight_quad (getQuad prim.primID))
    (fun piece dim pos hpiece => ?_)
  rw [← hpiece.primID_eq]
  exact splitsAt_quad getQuad piece dim pos

end shapes

/-- Splitting a primitive inside of the grid, whose box is the one that it is created with, in up to 32
pieces: the planes go through the boxes, no assertion fails, and the pieces cover the primitive. For
quads they do so if each single split does. -/
theorem splitPrimitive_covers (bounds : NonemptyInterval Vec3f)
    (getTriangle : Nat → TrianglePairs.Triangle) (quadification : Nat → Nat) (getQuad : Nat → Quad)
    (prim : PrimRef) (splitprims : Nat) (hpos : 0 < splitprims)
    (hle : splitprims ≤ maxPresplitsPerPrimitive) (hprim : prim.bounds ≤ bounds) :
    (∀ piece, PieceOf prim piece → ∀ dim fsplit,
        (SplittingGrid.ofBounds bounds).worldSplitPos piece = some (dim, fsplit) →
          component piece.bounds.fst dim < fsplit ∧ fsplit < component piece.bounds.snd dim) ∧
      (prim.bounds = pairBounds getTriangle quadification prim.primID →
        ∃ pieces, splitPair getTriangle quadification (.ofBounds bounds) prim splitprims = some pieces ∧
          PiecesCover (pairSurface getTriangle quadification prim.primID) prim pieces) ∧
      (prim.bounds = (getQuad prim.primID).bounds →
        ∃ pieces, splitQuads getQuad (.ofBounds bounds) prim splitprims = some pieces ∧
          (∀ piece ∈ pieces, PieceOf prim piece) ∧
          ((∀ dim pos, (getQuad prim.primID).Covered dim pos) →
            PiecesCover (getQuad prim.primID).surface prim pieces)) := by
  refine ⟨fun piece hpiece dim fsplit =>
    SplittingGrid.worldSplitPos_inside (hpiece.bounds_le.trans hprim),
    fun hbounds => ?_, fun hbounds => ?_⟩
  · obtain ⟨pieces, hpieces⟩ := exists_splitPair hpos hle hprim hbounds
    exact ⟨pieces, hpieces, splitPair_covers hpieces⟩
  · obtain ⟨pieces, hpieces⟩ := exists_splitQuads hpos hle hprim hbounds
    have hinside : PiecesCover ∅ prim pieces := by
      obtain ⟨all, rfl, hsplit⟩ := splitInto_of_checked hpieces
      refine hsplit.covers (fun piece dim pos _ => ?_)
      exact halves_splitPolygon (fun x hx => absurd hx (Set.notMem_empty x))
    exact ⟨pieces, hpieces, hinside.1, fun hcovered => splitQuads_covers hcovered hpieces⟩

def wideTriangle : TrianglePairs.Triangle :=
  ⟨⟨0, 1, 2⟩, (0, 0, 0), (4, 0, 0), (0, 4, 4), .isOpaque, 0xFF⟩

def wideQuad : Quad := ⟨(0, 0, 0), (4, 0, 0), (4, 4, 0), (0, 4, 0), .isOpaque, 0xFF⟩

theorem covered_wideQuad (dim : Fin 3) (pos : ℚ) : wideQuad.Covered dim pos := by
  refine wideQuad.covered_of_hasCrossing (wideQuad.hasCrossing_of_diagonals ⟨(2, 2, 0), ?_, ?_⟩ dim pos)
  · exact ⟨1 / 2, 1 / 2, by norm_num, by norm_num, by norm_num, by norm_num [wideQuad]⟩
  · exact ⟨1 / 2, 1 / 2, by norm_num, by norm_num, by norm_num, by norm_num [wideQuad]⟩

theorem splitPrimitive_covers_wide :
    (∃ pieces, splitPair (fun _ => wideTriangle) (fun _ => triangle) (.ofBounds wideTriangle.bounds)
      ⟨wideTriangle.bounds, 0, 0⟩ 8 = some pieces ∧
        PiecesCover wideTriangle.surface ⟨wideTriangle.bounds, 0, 0⟩ pieces) ∧
      ∃ pieces, splitQuads (fun _ => wideQuad) (.ofBounds wideQuad.bounds) ⟨wideQuad.bounds, 0, 0⟩ 8 =
        some pieces ∧ PiecesCover wideQuad.surface ⟨wideQuad.bounds, 0, 0⟩ pieces := by
  constructor
  · exact (splitPrimitive_covers wideTriangle.bounds (fun _ => wideTriangle) (fun _ => triangle)
      (fun _ => wideQuad) ⟨wideTriangle.bounds, 0, 0⟩ 8 (by decide) (by decide) le_rfl).2.1 rfl
  · obtain ⟨pieces, hpieces, -, hcover⟩ :=
      (splitPrimitive_covers wideQuad.bounds (fun _ => wideTriangle) (fun _ => triangle)
        (fun _ => wideQuad) ⟨wideQuad.bounds, 0, 0⟩ 8 (by decide) (by decide) le_rfl).2.2 rfl
    exact ⟨pieces, hpieces, hcover covered_wideQuad⟩

end RTBuild
