import RTBuild.Leaf

namespace RTBuild

open Quadifier TrianglePairs

namespace QuadLeaf

variable (leaf : QuadLeaf)

def vertex : Fin 4 → Vec3f
  | 0 => leaf.v0
  | 1 => leaf.v1
  | 2 => leaf.v2
  | 3 => leaf.v3

/-- The second triangle exists unless all of its selectors are 0. -/
def valid2 : Bool := !(leaf.j0 == 0 && leaf.j1 == 0 && leaf.j2 == 0)

def size : Nat := 1 + leaf.valid2.toNat

def primIndexDelta (i : Fin 2) : Nat := i * leaf.primIndex1Delta

def primIndex (i : Fin 2) : Fin (2 ^ 32) := Fin.ofNat _ (leaf.primIndex0 + leaf.primIndexDelta i)

def triangle : Fin 2 → (Vec3f × Vec3f × Vec3f) × Fin (2 ^ 32)
  | 0 => ((leaf.v0, leaf.v1, leaf.v2), leaf.primIndex 0)
  | 1 => ((leaf.vertex leaf.j0, leaf.vertex leaf.j1, leaf.vertex leaf.j2), leaf.primIndex 1)

end QuadLeaf

structure MemHit where
  primLeafIndex : Fin (2 ^ 4)
  primIndexDelta : Nat

def getHitTriangleVertices (leaf : QuadLeaf) (hit : MemHit) : Vec3f × Vec3f × Vec3f :=
  let (j0, j1, j2) : Fin 4 × Fin 4 × Fin 4 :=
    if hit.primLeafIndex ≠ 0 then (leaf.j0, leaf.j1, leaf.j2) else (0, 1, 2)
  (leaf.vertex j0, leaf.vertex j1, leaf.vertex j2)

def getHitTrianglePrimitiveID (leaf : QuadLeaf) (hit : MemHit) : Fin (2 ^ 32) :=
  Fin.ofNat _ (leaf.primIndex0 + hit.primIndexDelta)

/-- A hit of triangle i carries the index delta that the leaf has for it. -/
def QuadLeaf.hit (leaf : QuadLeaf) (i : Fin 2) : MemHit :=
  ⟨Fin.castLE (by decide) i, leaf.primIndexDelta i⟩

def QuadLeaf.tracedTriangle (leaf : QuadLeaf) (i : Fin 2) : (Vec3f × Vec3f × Vec3f) × Fin (2 ^ 32) :=
  (getHitTriangleVertices leaf (leaf.hit i), getHitTrianglePrimitiveID leaf (leaf.hit i))

theorem QuadLeaf.tracedTriangle_eq (leaf : QuadLeaf) (i : Fin 2) :
    leaf.tracedTriangle i = leaf.triangle i := by
  fin_cases i <;> rfl

structure TrianglePairs.Triangle.InBuffer (vertices : Nat → Vec3f) (tri : Triangle) : Prop where
  p0 : tri.p0 = vertices tri.indices.x
  p1 : tri.p1 = vertices tri.indices.y
  p2 : tri.p2 = vertices tri.indices.z

def TrianglePairs.Triangle.corners (tri : Triangle) : Vec3f × Vec3f × Vec3f := (tri.p0, tri.p1, tri.p2)

section

variable (getTriangle : Nat → Triangle) (quadification : Nat → Nat) (primID : Fin (2 ^ 32))

/-- The leaf gives back the triangle primID and the partner of it, if it has one, in both decoders. -/
structure Lossless (leaf : QuadLeaf) : Prop where
  valid2_iff : leaf.valid2 = true ↔ quadification primID ≠ 0
  size_eq : leaf.size = if quadification primID = 0 then 1 else 2
  first : leaf.triangle 0 = ((getTriangle primID).corners, primID)
  second : quadification primID ≠ 0 →
    leaf.triangle 1 =
      ((getTriangle (primID + quadification primID)).corners,
        Fin.ofNat _ (primID + quadification primID))
  traced : ∀ i, leaf.tracedTriangle i = leaf.triangle i

def Pairs : Prop :=
  quadification primID ≠ 0 →
    quadification primID ≤ maxDistance ∧ primID + quadification primID < 2 ^ 32 ∧
      pairTriangles (getTriangle primID).indices
        (getTriangle (primID + quadification primID)).indices = true

def Collapsed (a b : Indices) : Prop := b.x = a.x ∧ b.y = a.x ∧ b.z = a.x

end

theorem lane_cases (a : Indices) (b : Nat) :
    lane a b = 0 ∧ b = a.x ∨ lane a b = 1 ∧ b ≠ a.x ∧ b = a.y ∨
      lane a b = 2 ∧ b ≠ a.x ∧ b = a.z ∨ lane a b = 3 ∧ b ≠ a.x := by
  rw [lane, bsf]
  simp only [List.findIdx_cons, id]
  by_cases hx : b = a.x
  · rw [beq_iff_eq.2 hx]
    exact Or.inl ⟨rfl, hx⟩
  · rw [beq_false_of_ne hx]
    by_cases hy : b = a.y
    · rw [beq_iff_eq.2 hy]
      exact Or.inr (Or.inl ⟨rfl, hx, hy⟩)
    · rw [beq_false_of_ne hy]
      by_cases hz : b = a.z
      · rw [beq_iff_eq.2 hz]
        exact Or.inr (Or.inr (Or.inl ⟨rfl, hx, hz⟩))
      · rw [beq_false_of_ne hz]
        exact Or.inr (Or.inr (Or.inr ⟨rfl, hx⟩))

theorem lane_eq_zero_iff {a : Indices} {b : Nat} : Fin.ofNat 4 (lane a b) = 0 ↔ b = a.x := by
  rcases lane_cases a b with ⟨hl, hb⟩ | ⟨hl, hne, -⟩ | ⟨hl, hne, -⟩ | ⟨hl, hne⟩
  · exact iff_of_true (by rw [hl]; rfl) hb
  · exact iff_of_false (by rw [hl]; decide) hne
  · exact iff_of_false (by rw [hl]; decide) hne
  · exact iff_of_false (by rw [hl]; decide) hne

/-- A selector finds its vertex among those of the first triangle or in v3. -/
theorem vertex_lane {vertices : Nat → Vec3f} {a : Indices} {b : Nat} {leaf : QuadLeaf}
    (h0 : leaf.v0 = vertices a.x) (h1 : leaf.v1 = vertices a.y) (h2 : leaf.v2 = vertices a.z)
    (h3 : lane a b = 3 → leaf.v3 = vertices b) : leaf.vertex (Fin.ofNat 4 (lane a b)) = vertices b := by
  rcases lane_cases a b with ⟨hl, hb⟩ | ⟨hl, -, hb⟩ | ⟨hl, -, hb⟩ | ⟨hl, -⟩
  · rw [hl, hb]
    exact h0
  · rw [hl, hb]
    exact h1
  · rw [hl, hb]
    exact h2
  · rw [hl]
    exact h3 hl

/-- At most one corner of a partner is missing in the first triangle. -/
theorem pairTriangles_lane {a b : Indices} (h : pairTriangles a b = true) :
    (lane a b.x = 3 → lane a b.y ≠ 3 ∧ lane a b.z ≠ 3) ∧ (lane a b.y = 3 → lane a b.z ≠ 3) := by
  rw [pairTriangles, decide_eq_true_eq] at h
  refine ⟨fun hx => ⟨fun hy => ?_, fun hz => ?_⟩, fun hy hz => ?_⟩
  · rw [hx, hy] at h
    simp only [beq_self_eq_true, Bool.toNat_true] at h
    omega
  · rw [hx, hz] at h
    simp only [beq_self_eq_true, Bool.toNat_true] at h
    omega
  · rw [hy, hz] at h
    simp only [beq_self_eq_true, Bool.toNat_true] at h
    omega

section

variable {vertices : Nat → Vec3f} {getTriangle : Nat → Triangle} {quadification : Nat → Nat}
  {primID : Fin (2 ^ 32)}
  {geomID : Fin maxGeometries}

theorem getTriangleInternal_first :
    (getTriangleInternal geomID primID getTriangle quadification).triangle 0 =
      ((getTriangle primID).corners, primID) := by
  rw [getTriangleInternal]
  split <;> simp [QuadLeaf.triangle, QuadLeaf.primIndex, QuadLeaf.primIndexDelta, Triangle.corners]

theorem valid2_iff {leaf : QuadLeaf} :
    leaf.valid2 = true ↔ ¬(leaf.j0 = 0 ∧ leaf.j1 = 0 ∧ leaf.j2 = 0) := by
  simp only [QuadLeaf.valid2, Bool.not_eq_true', ← Bool.not_eq_true, Bool.and_eq_true,
    beq_iff_eq, and_assoc]

theorem getTriangleInternal_valid2 (hpair : quadification primID ≠ 0) :
    (getTriangleInternal geomID primID getTriangle quadification).valid2 = true ↔
      ¬Collapsed (getTriangle primID).indices (getTriangle (primID + quadification primID)).indices := by
  rw [valid2_iff, Collapsed, getTriangleInternal, if_pos hpair]
  exact not_congr (and_congr lane_eq_zero_iff (and_congr lane_eq_zero_iff lane_eq_zero_iff))

theorem getTriangleInternal_second (h0 : (getTriangle primID).InBuffer vertices)
    (h1 : (getTriangle (primID + quadification primID)).InBuffer vertices)
    (hpairs : Pairs getTriangle quadification primID) (hpair : quadification primID ≠ 0) :
    (getTriangleInternal geomID primID getTriangle quadification).triangle 1 =
      ((getTriangle (primID + quadification primID)).corners,
        Fin.ofNat _ (primID + quadification primID)) := by
  obtain ⟨hmax, -, hpair'⟩ := hpairs hpair
  obtain ⟨hx, hy⟩ := pairTriangles_lane hpair'
  have hdelta : quadification primID % 2 ^ 5 = quadification primID :=
    Nat.mod_eq_of_lt (Nat.lt_succ_of_le hmax)
  rw [getTriangleInternal, if_pos hpair]
  apply Prod.ext
  · refine Prod.ext ?_ (Prod.ext ?_ ?_)
    · refine (vertex_lane h0.p0 h0.p1 h0.p2 fun hlane => ?_).trans h1.p0.symm
      simp only [hlane, if_true, if_neg (hx hlane).1, if_neg (hx hlane).2]
      exact h1.p0
    · refine (vertex_lane h0.p0 h0.p1 h0.p2 fun hlane => ?_).trans h1.p1.symm
      simp only [hlane, if_true, if_neg (hy hlane)]
      exact h1.p1
    · refine (vertex_lane h0.p0 h0.p1 h0.p2 fun hlane => ?_).trans h1.p2.symm
      simp only [hlane, if_true]
      exact h1.p2
  · simp only [QuadLeaf.triangle, QuadLeaf.primIndex, QuadLeaf.primIndexDelta, Fin.val_one, Nat.one_mul,
      Fin.val_ofNat, hdelta]

/-- A single triangle comes back as it is. A pair comes back unless the selectors
of the second triangle are those of a leaf without one. -/
theorem getTriangleInternal_lossless_iff (h0 : (getTriangle primID).InBuffer vertices)
    (h1 : (getTriangle (primID + quadification primID)).InBuffer vertices)
    (hpairs : Pairs getTriangle quadification primID) :
    Lossless getTriangle quadification primID
      (getTriangleInternal geomID primID getTriangle quadification) ↔
      (quadification primID ≠ 0 →
        ¬Collapsed (getTriangle primID).indices
          (getTriangle (primID + quadification primID)).indices) := by
  constructor
  · intro h hpair
    exact (getTriangleInternal_valid2 hpair).1 (h.valid2_iff.2 hpair)
  · intro hcollapsed
    have hvalid : (getTriangleInternal geomID primID getTriangle quadification).valid2 = true ↔
        quadification primID ≠ 0 := by
      by_cases hpair : quadification primID = 0
      · refine iff_of_false ?_ (not_not.2 hpair)
        rw [valid2_iff, getTriangleInternal, if_neg (not_not.2 hpair)]
        exact not_not.2 ⟨rfl, rfl, rfl⟩
      · exact iff_of_true ((getTriangleInternal_valid2 hpair).2 (hcollapsed hpair)) hpair
    refine ⟨hvalid, ?_, getTriangleInternal_first, getTriangleInternal_second h0 h1 hpairs,
      QuadLeaf.tracedTriangle_eq _⟩
    rw [QuadLeaf.size]
    by_cases hpair : quadification primID = 0
    · rw [if_pos hpair, Bool.eq_false_iff.2 (mt hvalid.1 (not_not.2 hpair))]
      rfl
    · rw [if_neg hpair, hvalid.2 hpair]
      rfl

end

def twoTriangles (second : Indices) : TriangleGeometry where
  triangleCount := 2
  getPrimitive i := if i = 0 then ⟨0, 1, 2⟩ else second
  vertexCount := 4
  getVertex i := some (i, 0, 0)
  geometryFlags := 0
  geometryMask := 0xFF

def firstPaired : Nat → Nat := Function.update (Function.update (fun _ => 0) 0 1) 1 paired

theorem getTriangleInternal_lossless_twoTriangles :
    Lossless (getTriangle (twoTriangles ⟨2, 1, 3⟩)) firstPaired 0
      (getTriangleInternal 0 0 (getTriangle (twoTriangles ⟨2, 1, 3⟩)) firstPaired) :=
  (@getTriangleInternal_lossless_iff (fun i => (i, 0, 0)) _ _ _ _ ⟨rfl, rfl, rfl⟩ ⟨rfl, rfl, rfl⟩
    (fun _ => ⟨by decide, by decide, by decide⟩)).2 (fun _ h => absurd h.1 (by decide))

/-- The second triangle of the pair is a point, the first corner of the first triangle. -/
theorem not_lossless_collapsed :
    pairRange (twoTriangles ⟨0, 0, 0⟩).getPrimitive 0 2 (fun _ => 0) = some (1, firstPaired) ∧
      Pairs (getTriangle (twoTriangles ⟨0, 0, 0⟩)) firstPaired 0 ∧
      (∀ i < 2, (getTriangle (twoTriangles ⟨0, 0, 0⟩) i).InBuffer (fun i => (i, 0, 0))) ∧
      ¬Lossless (getTriangle (twoTriangles ⟨0, 0, 0⟩)) firstPaired 0
        (getTriangleInternal 0 0 (getTriangle (twoTriangles ⟨0, 0, 0⟩)) firstPaired) := by
  refine ⟨rfl, fun _ => ⟨by decide, by decide, by decide⟩, fun i hi => ?_, fun h => ?_⟩
  · interval_cases i
    · exact ⟨rfl, rfl, rfl⟩
    · exact ⟨rfl, rfl, rfl⟩
  · exact absurd (h.valid2_iff.2 (by decide)) (by decide)

end RTBuild
