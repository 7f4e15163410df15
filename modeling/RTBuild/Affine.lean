import RTBuild.AffineSpace
import RTBuild.FloatValue
import RTBuild.Pieces

namespace RTBuild

open Library

namespace AffineSpace3f

def corners (b : Vec3f × Vec3f) : List Vec3f :=
  [(b.1.1, b.1.2.1, b.1.2.2), (b.1.1, b.1.2.1, b.2.2.2), (b.1.1, b.2.2.1, b.1.2.2),
    (b.1.1, b.2.2.1, b.2.2.2), (b.2.1, b.1.2.1, b.1.2.2), (b.2.1, b.1.2.1, b.2.2.2),
    (b.2.1, b.2.2.1, b.1.2.2), (b.2.1, b.2.2.1, b.2.2.2)]

def xfmBounds (m : AffineSpace3f) (b : Vec3f × Vec3f) : BBox3fa :=
  (corners b).foldl (fun dst p => dst.extendPoint (m.xfmPoint p)) .empty

variable {m : AffineSpace3f} {b : Vec3f × Vec3f} {x : Vec3f}

theorem convex_preimage (m : AffineSpace3f) {C : Set Vec3f} (hC : Convex ℚ C) :
    Convex ℚ {x | m.xfmPoint x ∈ C} := by
  have heq : {x | m.xfmPoint x ∈ C} =
      Set.preimage m.l.toLinearMap (Set.preimage (fun v => v + m.p) C) := by
    ext x
    rw [Set.mem_ofPred_eq, xfmPoint_eq]
    rfl
  rw [heq]
  exact (hC.translate_preimage_left m.p).linear_preimage m.l.toLinearMap

/-- A box is the hull of its corners. -/
theorem convexHull_corners (b : NonemptyInterval Vec3f) :
    convexHull ℚ {v | v ∈ corners (b.fst, b.snd)} = Set.Icc b.fst b.snd := by
  obtain ⟨⟨⟨x, y, z⟩, ⟨x', y', z'⟩⟩, hx, hy, hz⟩ := b
  have hyz : convexHull ℚ (({y, y'} : Set ℚ) ×ˢ ({z, z'} : Set ℚ)) = Set.Icc (y, z) (y', z') :=
    Clip.convexHull_corners (Clip.convexHull_ends hy) (Clip.convexHull_ends hz)
  have hcorners : {v | v ∈ corners ((x, y, z), (x', y', z'))} =
      ({x, x'} : Set ℚ) ×ˢ (({y, y'} : Set ℚ) ×ˢ ({z, z'} : Set ℚ)) := by
    ext ⟨u, v, w⟩
    simp only [corners, Set.mem_ofPred_eq, List.mem_cons, List.not_mem_nil, or_false, Prod.mk.injEq,
      Set.mem_prod, Set.mem_insert_iff, Set.mem_singleton_iff]
    constructor
    · rintro (⟨rfl, rfl, rfl⟩ | ⟨rfl, rfl, rfl⟩ | ⟨rfl, rfl, rfl⟩ | ⟨rfl, rfl, rfl⟩ |
        ⟨rfl, rfl, rfl⟩ | ⟨rfl, rfl, rfl⟩ | ⟨rfl, rfl, rfl⟩ | ⟨rfl, rfl, rfl⟩) <;> simp
    · rintro ⟨rfl | rfl, rfl | rfl, rfl | rfl⟩ <;> simp
  change convexHull ℚ {v | v ∈ corners ((x, y, z), (x', y', z'))} = Set.Icc (x, y, z) (x', y', z')
  rw [hcorners]
  exact Clip.convexHull_corners (Clip.convexHull_ends hx) hyz

theorem foldl_extendPoint (f : Vec3f → Vec3f) {S : Set Vec3f} {points : List Vec3f}
    (hpoints : ∀ v ∈ points, f v ∈ S) {dst : BBox3fa} (hdst : dst.Attained S) :
    (points.foldl (fun dst v => dst.extendPoint (f v)) dst).Attained S ∧
      ∀ y, dst.Contains y ∨ y ∈ points.map f →
        (points.foldl (fun dst v => dst.extendPoint (f v)) dst).Contains y := by
  induction points generalizing dst with
  | nil => exact ⟨hdst, fun y hy => hy.resolve_right List.not_mem_nil⟩
  | cons v points ih =>
      obtain ⟨hv, hpoints⟩ := List.forall_mem_cons.1 hpoints
      obtain ⟨hattained, hcontains⟩ := ih hpoints (hdst.extendPoint hv)
      refine ⟨hattained, fun y hy => hcontains y ?_⟩
      rw [List.map_cons, List.mem_cons] at hy
      rcases hy with hy | rfl | hy
      · exact Or.inl (hy.extendPoint _)
      · exact Or.inl (dst.contains_extendPoint_self _)
      · exact Or.inr hy

/-- The box goes through images of corners, and has all of them. -/
theorem xfmBounds_corners (m : AffineSpace3f) (b : Vec3f × Vec3f) :
    (m.xfmBounds b).Attained {y | y ∈ (corners b).map m.xfmPoint} ∧
      ∀ v ∈ corners b, (m.xfmBounds b).Contains (m.xfmPoint v) := by
  have hpoints : ∀ v ∈ corners b, m.xfmPoint v ∈ {y | y ∈ (corners b).map m.xfmPoint} :=
    fun v hv => List.mem_map_of_mem hv
  obtain ⟨hattained, hcontains⟩ := foldl_extendPoint m.xfmPoint hpoints (BBox3fa.attained_empty _)
  exact ⟨hattained, fun v hv => hcontains _ (Or.inr (List.mem_map_of_mem hv))⟩

/-- Even where the sides of a box are the wrong way round, the box of its image is not empty. -/
theorem exists_xfmBounds (m : AffineSpace3f) (b : Vec3f × Vec3f) :
    ∃ box, (m.xfmBounds b).toBounds = some box := by
  obtain ⟨hattained, hcontains⟩ := xfmBounds_corners m b
  have hmem : (m.xfmBounds b).Contains (m.xfmPoint (b.1.1, b.1.2.1, b.1.2.2)) :=
    hcontains _ List.mem_cons_self
  apply BBox3fa.exists_toBounds
  intro dim
  obtain ⟨hlower, hupper⟩ := hmem dim
  rcases hattained.lower dim with htop | ⟨y, -, hy⟩
  · rw [htop, top_le_iff] at hlower
    cases hlower
  rcases hattained.upper dim with hbot | ⟨z, -, hz⟩
  · rw [hbot, le_bot_iff] at hupper
    cases hupper
  refine ⟨⟨(component y dim, component z dim), ?_⟩, hy, hz⟩
  rw [hy] at hlower
  rw [hz] at hupper
  exact (WithTop.coe_le_coe.1 hlower).trans (WithBot.coe_le_coe.1 hupper)

theorem mem_xfmBounds {box b : NonemptyInterval Vec3f}
    (h : (m.xfmBounds (b.fst, b.snd)).toBounds = some box) (hx : x ∈ b) : m.xfmPoint x ∈ box := by
  have hconvex := convex_preimage m (m.xfmBounds (b.fst, b.snd)).convex_contains
  have hcorners : {v | v ∈ corners (b.fst, b.snd)} ⊆
      {x | m.xfmPoint x ∈ {y | (m.xfmBounds (b.fst, b.snd)).Contains y}} :=
    fun v hv => (xfmBounds_corners m (b.fst, b.snd)).2 v hv
  have hhull := convexHull_min hcorners hconvex
  rw [convexHull_corners] at hhull
  have hcontains : (m.xfmBounds (b.fst, b.snd)).Contains (m.xfmPoint x) := hhull hx
  rw [BBox3fa.eq_ofBounds_of_toBounds h] at hcontains
  exact BBox3fa.contains_ofBounds.1 hcontains

theorem corners_subset {b : NonemptyInterval Vec3f} {v : Vec3f} (hv : v ∈ corners (b.fst, b.snd)) :
    v ∈ b := by
  have hhull := subset_convexHull ℚ _ (show v ∈ {v | v ∈ corners (b.fst, b.snd)} from hv)
  rw [convexHull_corners] at hhull
  exact hhull

/-- There is no smaller box around the image of a box. -/
theorem xfmBounds_le {box box' b : NonemptyInterval Vec3f}
    (h : (m.xfmBounds (b.fst, b.snd)).toBounds = some box) (h' : ∀ x ∈ b, m.xfmPoint x ∈ box') :
    box ≤ box' := by
  have hbounds : (m.xfmBounds (b.fst, b.snd)).Bounds
      {y | y ∈ (corners (b.fst, b.snd)).map m.xfmPoint} := by
    obtain ⟨hattained, hcontains⟩ := xfmBounds_corners m (b.fst, b.snd)
    refine ⟨fun y hy => ?_, hattained.lower, hattained.upper⟩
    obtain ⟨v, hv, rfl⟩ := List.mem_map.1 hy
    exact hcontains v hv
  apply le_of_toBounds (fun dim => ?_) h
  apply hbounds.least (b := .ofBounds box')
  intro y hy
  obtain ⟨v, hv, rfl⟩ := List.mem_map.1 hy
  exact BBox3fa.contains_ofBounds.2 (h' v (corners_subset hv))

/-- The box is the smallest one around all points that the inverse takes into the given one. -/
theorem xfmBounds_le_iff {box box' b : NonemptyInterval Vec3f} (hdet : m.l.det ≠ 0)
    (h : (m.xfmBounds (b.fst, b.snd)).toBounds = some box) :
    box ≤ box' ↔ ∀ x, m.rcp.xfmPoint x ∈ b → x ∈ box' := by
  constructor
  · intro hle x hx
    have hmem := mem_xfmBounds h hx
    rw [xfmPoint_rcp hdet] at hmem
    exact ⟨hle.1.trans hmem.1, hmem.2.trans hle.2⟩
  · intro hbox
    apply xfmBounds_le h
    intro x hx
    apply hbox
    rwa [rcp_xfmPoint hdet]

end AffineSpace3f

structure AffineSpace3fa where
  vx : FloatVec
  vy : FloatVec
  vz : FloatVec
  p : FloatVec

namespace AffineSpace3fa

inductive Format
  | columnMajor
  | alignedColumnMajor
  | rowMajor
  deriving DecidableEq

def Format.ofCode : Nat → Option Format
  | 1 => some columnMajor
  | 2 => some alignedColumnMajor
  | 3 => some rowMajor
  | _ => none

def Format.index : Format → Nat → Nat → Nat
  | columnMajor, column, row => 3 * column + row
  | alignedColumnMajor, column, row => 4 * column + row
  | rowMajor, column, row => 4 * row + column

/-- The transformation in a buffer. There is none where the source throws, for a format without name. -/
def getTransform (transformFormat : Nat) (xfm : Nat → FloatValue) : Option AffineSpace3fa :=
  (Format.ofCode transformFormat).map (fun format =>
    let column (c : Nat) : FloatVec := fun dim => xfm (format.index c dim)
    ⟨column 0, column 1, column 2, column 3⟩)

def xfmPoint (m : AffineSpace3fa) (v : FloatVec) : FloatVec := fun dim =>
  v 0 * m.vx dim + (v 1 * m.vy dim + (v 2 * m.vz dim + m.p dim))

def corners (b : FloatVec × FloatVec) : List FloatVec :=
  [![b.1 0, b.1 1, b.1 2], ![b.1 0, b.1 1, b.2 2], ![b.1 0, b.2 1, b.1 2], ![b.1 0, b.2 1, b.2 2],
    ![b.2 0, b.1 1, b.1 2], ![b.2 0, b.1 1, b.2 2], ![b.2 0, b.2 1, b.1 2], ![b.2 0, b.2 1, b.2 2]]

def extend (dst : FloatVec × FloatVec) (v : FloatVec) : FloatVec × FloatVec :=
  (fun dim => (dst.1 dim).minPs (v dim), fun dim => (dst.2 dim).maxPs (v dim))

def xfmBounds (m : AffineSpace3fa) (b : FloatVec × FloatVec) : FloatVec × FloatVec :=
  (corners b).foldl (fun dst v => extend dst (m.xfmPoint v))
    (fun _ => .inf false, fun _ => .inf true)

def finite (m : AffineSpace3fa) : Option AffineSpace3f := do
  let vx ← m.vx.finite
  let vy ← m.vy.finite
  let vz ← m.vz.finite
  let p ← m.p.finite
  return ⟨⟨vx, vy, vz⟩, p⟩

def ofFinite (m : AffineSpace3f) : AffineSpace3fa :=
  ⟨.ofVec3f m.l.vx, .ofVec3f m.l.vy, .ofVec3f m.l.vz, .ofVec3f m.p⟩

def ofBox (b : BBox3fa) : FloatVec × FloatVec :=
  (fun dim => .ofTop (b.lower dim), fun dim => .ofBot (b.upper dim))

theorem finite_eq_some {m : AffineSpace3fa} {m' : AffineSpace3f} :
    m.finite = some m' ↔ m = ofFinite m' := by
  obtain ⟨⟨vx, vy, vz⟩, p⟩ := m'
  simp only [finite, Option.bind_eq_bind, Option.bind_eq_some_iff, FloatVec.finite_eq_some]
  constructor
  · rintro ⟨vx', hx, vy', hy, vz', hz, p', hp, heq⟩
    cases heq
    obtain ⟨mx, my, mz, mp⟩ := m
    rw [ofFinite, ← hx, ← hy, ← hz, ← hp]
  · rintro rfl
    exact ⟨vx, rfl, vy, rfl, vz, rfl, p, rfl, rfl⟩

theorem xfmPoint_ofVec3f (m : AffineSpace3f) (v : Vec3f) :
    (ofFinite m).xfmPoint (.ofVec3f v) = .ofVec3f (m.xfmPoint v) := by
  funext dim
  fin_cases dim
  all_goals rfl

theorem corners_ofVec3f (b : Vec3f × Vec3f) :
    corners (.ofVec3f b.1, .ofVec3f b.2) = (AffineSpace3f.corners b).map .ofVec3f := by
  have hpoint : ∀ x y z : ℚ,
      ![FloatValue.num x, FloatValue.num y, FloatValue.num z] = FloatVec.ofVec3f (x, y, z) := by
    intro x y z
    funext dim
    fin_cases dim
    all_goals rfl
  simp only [AffineSpace3f.corners, List.map_cons, List.map_nil, ← hpoint]
  rfl

theorem extend_ofBox (dst : BBox3fa) (v : Vec3f) :
    extend (ofBox dst) (.ofVec3f v) = ofBox (dst.extendPoint v) := by
  apply Prod.ext
  · funext dim
    exact FloatValue.minPs_ofTop (dst.lower dim) (component v dim)
  · funext dim
    exact FloatValue.maxPs_ofBot (dst.upper dim) (component v dim)

/-- On numbers the box is the exact one. -/
theorem xfmBounds_ofVec3f (m : AffineSpace3f) (b : Vec3f × Vec3f) :
    (ofFinite m).xfmBounds (.ofVec3f b.1, .ofVec3f b.2) = ofBox (m.xfmBounds b) := by
  have hfold : ∀ (points : List Vec3f) (dst : BBox3fa),
      (points.map FloatVec.ofVec3f).foldl (fun dst v => extend dst ((ofFinite m).xfmPoint v))
        (ofBox dst) = ofBox (points.foldl (fun dst v => dst.extendPoint (m.xfmPoint v)) dst) := by
    intro points
    induction points with
    | nil => exact fun dst => rfl
    | cons v points ih =>
        intro dst
        rw [List.map_cons, List.foldl_cons, List.foldl_cons, xfmPoint_ofVec3f, extend_ofBox, ih]
  rw [xfmBounds, corners_ofVec3f]
  exact hfold _ .empty

theorem fold_eq_num {points : List FloatVec} {dst : FloatVec × FloatVec} {f : FloatVec → FloatVec}
    {dim : Fin 3} {x : ℚ} (h : (points.foldl (fun dst v => extend dst (f v)) dst).1 dim = .num x) :
    dst.1 dim = .num x ∨ ∃ v ∈ points, f v dim = .num x := by
  induction points generalizing dst with
  | nil => exact Or.inl h
  | cons v points ih =>
      rcases ih h with hdst | ⟨w, hw, hnum⟩
      · rcases FloatValue.minPs_eq_or (dst.1 dim) (f v dim) with heq | heq
        · exact Or.inl (heq.symm.trans hdst)
        · exact Or.inr ⟨v, List.mem_cons_self, heq.symm.trans hdst⟩
      · exact Or.inr ⟨w, List.mem_cons_of_mem _ hw, hnum⟩

/-- A box whose lower corner has only numbers comes from a transformation that has only numbers,
whatever the box is that is transformed. -/
theorem exists_finite {m : AffineSpace3fa} {b : FloatVec × FloatVec} {lower : Vec3f}
    (h : (m.xfmBounds b).1.finite = some lower) : ∃ m', m.finite = some m' := by
  have hcolumns : ∀ dim, ∃ x y z w, m.vx dim = .num x ∧ m.vy dim = .num y ∧ m.vz dim = .num z ∧
      m.p dim = .num w := by
    intro dim
    have hnum : (m.xfmBounds b).1 dim = .num (component lower dim) := by
      rw [FloatVec.finite_eq_some.1 h]
      rfl
    rcases fold_eq_num hnum with hstart | ⟨v, -, hv⟩
    · cases hstart
    · obtain ⟨_, _, hx, hrest⟩ := FloatValue.of_add_eq_num hv
      obtain ⟨_, _, hy, hrest⟩ := FloatValue.of_add_eq_num hrest
      obtain ⟨_, w, hz, hw⟩ := FloatValue.of_add_eq_num hrest
      obtain ⟨_, x, -, hx⟩ := FloatValue.of_mul_eq_num hx
      obtain ⟨_, y, -, hy⟩ := FloatValue.of_mul_eq_num hy
      obtain ⟨_, z, -, hz⟩ := FloatValue.of_mul_eq_num hz
      exact ⟨x, y, z, w, hx, hy, hz, hw⟩
  choose x y z w hx hy hz hw using hcolumns
  obtain ⟨vx, hvx⟩ := FloatVec.exists_finite (fun dim => ⟨x dim, hx dim⟩)
  obtain ⟨vy, hvy⟩ := FloatVec.exists_finite (fun dim => ⟨y dim, hy dim⟩)
  obtain ⟨vz, hvz⟩ := FloatVec.exists_finite (fun dim => ⟨z dim, hz dim⟩)
  obtain ⟨p, hp⟩ := FloatVec.exists_finite (fun dim => ⟨w dim, hw dim⟩)
  refine ⟨⟨⟨vx, vy, vz⟩, p⟩, ?_⟩
  rw [finite, hvx, hvy, hvz, hp]
  rfl

end AffineSpace3fa

end RTBuild
