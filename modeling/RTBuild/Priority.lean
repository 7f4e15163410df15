import RTBuild.SceneSplit

namespace RTBuild

open Library Quadifier

def areaProjectedTriangle (v0 v1 v2 : Vec3f) : ℚ :=
  let d := cross (v1 - v0) (v2 - v0)
  |d.1| + |d.2.1| + |d.2.2|

def halfArea (bounds : NonemptyInterval Vec3f) : ℚ :=
  let d := bounds.snd - bounds.fst
  d.1 * (d.2.1 + d.2.2) + d.2.1 * d.2.2

def area (bounds : NonemptyInterval Vec3f) : ℚ := 2 * halfArea bounds

namespace BuilderT

variable (b : BuilderT) (prim : PrimRef)

def primitiveAreaTrianglePair : ℚ :=
  let pair := b.quadification prim.geomID prim.primID
  let tri0 := b.getTriangle prim.geomID prim.primID
  let A := areaProjectedTriangle tri0.p0 tri0.p1 tri0.p2
  if pair = triangle then A
  else
    let tri1 := b.getTriangle prim.geomID (prim.primID + pair)
    A + areaProjectedTriangle tri1.p0 tri1.p1 tri1.p2

def primitiveAreaQuad : ℚ :=
  let quad := b.getQuad prim.geomID prim.primID
  areaProjectedTriangle quad.p0 quad.p1 quad.p3 + areaProjectedTriangle quad.p2 quad.p3 quad.p1

def primitiveAreaInstance : ℚ := halfArea prim.bounds

def primitiveArea : ℚ :=
  match b.getType prim.geomID with
  | .triangle => b.primitiveAreaTrianglePair prim
  | .quad => b.primitiveAreaQuad prim
  | .inst => primitiveAreaInstance prim
  | .procedural => 0

end BuilderT

/-- A square root of floats, which is exact where a number has one. -/
structure Sqrtf where
  sqrtf : ℚ → ℚ
  sqrtf_mul_self : ∀ q, 0 ≤ q → sqrtf (q * q) = q

namespace Sqrtf

def ofRat : Sqrtf where
  sqrtf := Rat.sqrt
  sqrtf_mul_self q hq := by rw [Rat.sqrt_eq, abs_of_nonneg hq]

end Sqrtf

def prioritySplitPosWeight : ℚ := 3 / 2

section priority

variable (s : Sqrtf) (b : BuilderT) (grid : SplittingGrid)

def computePriority (ref : PrimRef) (mc : BitVec 32 × BitVec 32) : ℚ :=
  let areaAabb := area ref.bounds
  let areaPrim := b.primitiveArea ref
  if areaPrim = 0 then 0
  else
    let diff := 32 - lzcnt (mc.1 ^^^ mc.2)
    let areaDiff := max 0 (areaAabb - areaPrim)
    s.sqrtf (s.sqrtf (areaDiff * prioritySplitPosWeight ^ diff))

def priority (prim : PrimRef) : ℚ :=
  let mc := grid.computeMC prim
  if mc.1 ≠ mc.2 then computePriority s b prim mc else 0

def prioritySum (prims : Nat → PrimRef) (numPrimitives : Nat) : ℚ :=
  ∑ i ∈ Finset.range numPrimitives, priority s b grid (prims i)

/-- The logarithm of a split count, with the one of base 2 rounded up. -/
def splitLogOf (numSplitPrimitivesBudget : Nat) (priority psum : ℚ) :
    Fin (maxPresplitsPerPrimitiveLog + 1) :=
  if priority ≤ 0 then 0
  else
    let relP := numSplitPrimitivesBudget * priority * (1 / psum)
    if relP < 1 then 0
    else Fin.ofNat _ (max (min (Nat.clog 2 ⌈relP⌉₊) maxPresplitsPerPrimitiveLog) 1)

def splitLogs (c : Presplitting) (i : Nat) : Fin (maxPresplitsPerPrimitiveLog + 1) :=
  splitLogOf c.numSplitPrimitivesBudget (priority s b grid (c.prims i))
    (prioritySum s b grid c.prims c.numPrimitives)

variable {s b grid}

theorem priority_of_computeMC {prim : PrimRef}
    (h : (grid.computeMC prim).1 = (grid.computeMC prim).2) : priority s b grid prim = 0 :=
  if_neg (not_not_intro h)

/-- A point lies in one cell. -/
theorem computeMC_of_pure (grid : SplittingGrid) {prim : PrimRef} {p : Vec3f}
    (h : prim.bounds = .pure p) : (grid.computeMC prim).1 = (grid.computeMC prim).2 := by
  have hupper : grid.iupper prim = grid.ilower prim := by
    funext dim
    have hle : grid.gupper prim dim ≤ grid.glower prim dim := by
      have hmargin : (0 : ℚ) ≤ cellMargin := by norm_num [cellMargin]
      rw [SplittingGrid.gupper, SplittingGrid.glower, h]
      change (component p dim - _) * _ - _ ≤ (component p dim - _) * _ + _
      linarith
    exact if_pos (SplittingGrid.cvtps_mono hle)
  exact (congrArg SplittingGrid.code hupper).symm

theorem priority_procedural {prim : PrimRef} (h : b.getType prim.geomID = .procedural) :
    priority s b grid prim = 0 := by
  have harea : b.primitiveArea prim = 0 := by rw [BuilderT.primitiveArea, h]
  rw [priority, computePriority]
  simp only [harea, if_true, ite_self]

/-- A priority is the fourth root of what is computed from the areas. -/
theorem priority_eq {prim : PrimRef} {p : ℚ} (hp : 0 ≤ p)
    (hcells : (grid.computeMC prim).1 ≠ (grid.computeMC prim).2) (harea : b.primitiveArea prim ≠ 0)
    (hroot : max 0 (area prim.bounds - b.primitiveArea prim) * prioritySplitPosWeight ^
      (32 - lzcnt ((grid.computeMC prim).1 ^^^ (grid.computeMC prim).2)) = p * p * (p * p)) :
    priority s b grid prim = p := by
  rw [priority, if_pos hcells, computePriority]
  simp only [if_neg harea]
  rw [hroot, s.sqrtf_mul_self _ (mul_nonneg hp hp), s.sqrtf_mul_self _ hp]

theorem splitLogOf_of_nonpos {budget : Nat} {p psum : ℚ} (h : p ≤ 0) : splitLogOf budget p psum = 0 :=
  if_pos h

end priority

section calls

variable {geometries : Geometries} {b : BuilderT} (bvhs : InstancedBvhs b geometries.local2world)

/-- Pre-splitting with the functions of the builder, and with split counts by the priorities. -/
structure CallsSplitter1 (gen : Generation geometries.scene) (c : Presplitting) : Prop where
  call : gen.CallsPresplit (numPrimitives geometries.scene) c
  func_eq : ∀ bounds : NonemptyInterval Vec3f, gen.pinfo.geomBounds = bounds →
    c.func = bvhs.func (.ofBounds bounds)
  splitLog_eq : ∃ s : Sqrtf, ∀ bounds : NonemptyInterval Vec3f, gen.pinfo.geomBounds = bounds →
    ∀ i < c.numPrimitives, c.splitLog i = splitLogs s b (.ofBounds bounds) c i

variable {bvhs}

/-- A procedural has no area, and so no priority. -/
theorem CallsSplitter1.procedural {gen : Generation geometries.scene} {c : Presplitting}
    (h : CallsSplitter1 bvhs gen c) {bounds : NonemptyInterval Vec3f}
    (hbounds : gen.pinfo.geomBounds = bounds) {i : Nat} (hi : i < c.numPrimitives)
    (htype : b.getType (c.prims i).geomID = .procedural) : c.splitLog i = 0 := by
  obtain ⟨s, hlogs⟩ := h.splitLog_eq
  rw [hlogs bounds hbounds i hi]
  exact splitLogOf_of_nonpos (priority_procedural htype).le

end calls

end RTBuild
