import RTBuild.Affine
import RTBuild.Builder

namespace RTBuild

open InternalNode Quadifier TrianglePairs

def isvalid (v : Vec3f) : Bool := decide (∀ dim, |component v dim| < fltLarge)

def validVertex (v : FloatVec) : Option Vec3f := v.finite.filter isvalid

/-- ze_rtas_builder_triangles_geometry_info_exp_t. A null pointer is none. -/
structure TrianglesInfo where
  geometryFlags : BitVec 8
  geometryMask : BitVec 8
  triangleFormat : Nat
  vertexFormat : Nat
  triangleCount : Fin (2 ^ 32)
  vertexCount : Fin (2 ^ 32)
  triangleBuffer : Option (Nat → Indices)
  vertexBuffer : Option (Nat → FloatVec)

structure QuadIndices where
  v0 : Nat
  v1 : Nat
  v2 : Nat
  v3 : Nat

structure QuadsInfo where
  geometryFlags : BitVec 8
  geometryMask : BitVec 8
  quadFormat : Nat
  vertexFormat : Nat
  quadCount : Fin (2 ^ 32)
  vertexCount : Fin (2 ^ 32)
  quadBuffer : Option (Nat → QuadIndices)
  vertexBuffer : Option (Nat → FloatVec)

structure ProceduralInfo where
  geometryMask : BitVec 8
  reserved : BitVec 8
  primCount : Fin (2 ^ 32)
  getBoundsCb : Option (Nat → FloatVec × FloatVec)

structure InstanceInfo where
  geometryMask : BitVec 8
  transformFormat : Nat
  instanceUserID : BitVec 32
  transform : Option (Nat → FloatValue)
  bounds : Option (FloatVec × FloatVec)
  accelerationStructure : BitVec 64

inductive GeometryInfo
  | triangles (info : TrianglesInfo)
  | quads (info : QuadsInfo)
  | procedural (info : ProceduralInfo)
  | inst (info : InstanceInfo)
  | unknown

abbrev Geometries := List (Option GeometryInfo)

def float3 : Nat := 0

def triangleIndicesUint32 : Nat := 5

def quadIndicesUint32 : Nat := 6

section verify

def verifyBuffer {α : Type} (count : Nat) (buffer : Option α) (what : String) : Except String Unit :=
  if count ≠ 0 ∧ buffer.isNone = true then .error what else .ok ()

def TrianglesInfo.verify (geom : TrianglesInfo) : Except String Unit := do
  if geom.triangleFormat ≠ triangleIndicesUint32 then
    .error "triangle format must be ZE_RTAS_BUILDER_INPUT_DATA_FORMAT_EXP_TRIANGLE_INDICES_UINT32"
  if geom.vertexFormat ≠ float3 then
    .error "vertex format must be ZE_RTAS_BUILDER_INPUT_DATA_FORMAT_EXP_FLOAT3"
  verifyBuffer geom.triangleCount geom.triangleBuffer "no triangle buffer specified"
  verifyBuffer geom.vertexCount geom.vertexBuffer "no vertex buffer specified"

def QuadsInfo.verify (geom : QuadsInfo) : Except String Unit := do
  if geom.quadFormat ≠ quadIndicesUint32 then
    .error "quad format must be ZE_RTAS_BUILDER_INPUT_DATA_FORMAT_EXP_QUAD_INDICES_UINT32"
  if geom.vertexFormat ≠ float3 then
    .error "vertex format must be ZE_RTAS_BUILDER_INPUT_DATA_FORMAT_EXP_FLOAT3"
  verifyBuffer geom.quadCount geom.quadBuffer "no quad buffer specified"
  verifyBuffer geom.vertexCount geom.vertexBuffer "no vertex buffer specified"

def ProceduralInfo.verify (geom : ProceduralInfo) : Except String Unit := do
  verifyBuffer geom.primCount geom.getBoundsCb "no bounds function specified"
  if geom.reserved ≠ 0 then .error "reserved value must be zero"

def InstanceInfo.verify (geom : InstanceInfo) : Except String Unit := do
  if geom.transform.isNone then .error "no instance transformation specified"
  if geom.bounds.isNone then .error "no acceleration structure bounds specified"
  if geom.accelerationStructure = 0 then
    .error "no acceleration structure to instantiate specified"

def GeometryInfo.verify : GeometryInfo → Except String Unit
  | triangles info => info.verify
  | quads info => info.verify
  | procedural info => info.verify
  | inst info => info.verify
  | unknown => .error "invalid geometry type"

end verify

def TrianglesInfo.geometry (geom : TrianglesInfo) : TriangleGeometry where
  triangleCount := geom.triangleCount
  getPrimitive primID := (geom.triangleBuffer.map (· primID)).getD ⟨0, 0, 0⟩
  vertexCount := geom.vertexCount
  getVertex vertexID := (geom.vertexBuffer.map (· vertexID)).bind validVertex
  geometryFlags := geom.geometryFlags
  geometryMask := geom.geometryMask

def QuadsInfo.getVertex (geom : QuadsInfo) (vertexID : Nat) : Vec3f :=
  ((geom.vertexBuffer.map (· vertexID)).bind FloatVec.finite).getD (0, 0, 0)

def QuadsInfo.getPrimitive (geom : QuadsInfo) (primID : Nat) : QuadIndices :=
  (geom.quadBuffer.map (· primID)).getD ⟨0, 0, 0, 0⟩

def QuadsInfo.getQuad (geom : QuadsInfo) (primID : Nat) : Quad :=
  let quad := geom.getPrimitive primID
  ⟨geom.getVertex quad.v0, geom.getVertex quad.v1, geom.getVertex quad.v2, geom.getVertex quad.v3,
    convertGeometryFlags geom.geometryFlags, geom.geometryMask⟩

section buildBounds

def QuadsInfo.validVertex (geom : QuadsInfo) (vertexID : Nat) : Option Vec3f :=
  if geom.vertexCount.val ≤ vertexID then none
  else (geom.vertexBuffer.map (· vertexID)).bind RTBuild.validVertex

def QuadsInfo.buildBounds (geom : QuadsInfo) (primID : Nat) : Option (NonemptyInterval Vec3f) :=
  if geom.quadCount.val ≤ primID then none
  else do
    let quad := geom.getPrimitive primID
    let p0 ← geom.validVertex quad.v0
    let p1 ← geom.validVertex quad.v1
    let p2 ← geom.validVertex quad.v2
    let p3 ← geom.validVertex quad.v3
    return .pure p0 ⊔ .pure p1 ⊔ .pure p2 ⊔ .pure p3

def ProceduralInfo.buildBounds (geom : ProceduralInfo) (primID : Nat) :
    Option (NonemptyInterval Vec3f) :=
  if geom.primCount.val ≤ primID then none
  else do
    let getBounds ← geom.getBoundsCb
    let bounds := getBounds primID
    let lower ← validVertex bounds.1
    let upper ← validVertex bounds.2
    if h : lower ≤ upper then some ⟨(lower, upper), h⟩ else none

def InstanceInfo.buildBounds (geom : InstanceInfo) (primID : Nat) : Option (NonemptyInterval Vec3f) :=
  if 1 ≤ primID then none
  else if geom.accelerationStructure = 0 then none
  else do
    let xfm ← geom.transform
    let local2world ← AffineSpace3fa.getTransform geom.transformFormat xfm
    let bounds ← geom.bounds
    let bounds := local2world.xfmBounds bounds
    let lower ← validVertex bounds.1
    let upper ← validVertex bounds.2
    if h : lower ≤ upper then some ⟨(lower, upper), h⟩ else none

def InstanceInfo.local2world (geom : InstanceInfo) : Option AffineSpace3f := do
  let xfm ← geom.transform
  let local2world ← AffineSpace3fa.getTransform geom.transformFormat xfm
  local2world.finite

def GeometryInfo.buildBounds : GeometryInfo → Nat → Option (NonemptyInterval Vec3f)
  | quads info, primID => info.buildBounds primID
  | procedural info, primID => info.buildBounds primID
  | inst info, primID => info.buildBounds primID
  | _, _ => none

end buildBounds

namespace GeometryInfo

def getNumPrimitives : GeometryInfo → Nat
  | triangles info => info.triangleCount
  | quads info => info.quadCount
  | procedural info => info.primCount
  | inst _ => 1
  | unknown => 0

def getType : GeometryInfo → Option PrimType
  | triangles _ => some .triangle
  | quads _ => some .quad
  | procedural _ => some .procedural
  | inst _ => some .inst
  | unknown => none

def geometry (geom : GeometryInfo) : Option Geometry :=
  geom.getType.map (fun type => ⟨type, geom.getNumPrimitives⟩)

end GeometryInfo

namespace Geometries

variable (geometries : Geometries)

def scene : Scene := geometries.map (fun geom => geom.bind GeometryInfo.geometry)

def get (geomID : Nat) : Option GeometryInfo := geometries[geomID]?.join

/-- What the loops that create the primitives do for one of them, with the pairing of the triangles. -/
def createPrimRef (quadification : Nat → Nat → Nat) (geomID primID : Nat) : Option PrimRef :=
  match geometries.get geomID with
  | some (.triangles info) =>
      trianglePairPrimRef info.geometry (quadification geomID) (Fin.ofNat _ geomID) primID
  | some geom =>
      (geom.buildBounds primID).map (fun bounds => ⟨bounds, Fin.ofNat _ geomID, Fin.ofNat _ primID⟩)
  | none => none

def local2world (geomID : Fin maxGeometries) : AffineSpace3f :=
  match geometries.get geomID with
  | some (.inst info) => info.local2world.getD .one
  | _ => .one

def builder (quadification : Nat → Nat → Nat) (rtasFormat : RtasFormat) (heuristic : Heuristic) :
    BuilderT where
  getType geomID := ((geometries.get geomID).bind GeometryInfo.getType).getD .triangle
  getTriangle geomID primID :=
    match geometries.get geomID with
    | some (.triangles info) => getTriangle info.geometry primID
    | _ => .invalid
  getQuad geomID primID :=
    match geometries.get geomID with
    | some (.quads info) => info.getQuad primID
    | _ => ⟨(0, 0, 0), (0, 0, 0), (0, 0, 0), (0, 0, 0), .none, 0⟩
  getProcedural geomID :=
    match geometries.get geomID with
    | some (.procedural info) => info.geometryMask
    | _ => 0
  getInstance geomID :=
    match geometries.get geomID with
    | some (.inst info) =>
        ⟨geometries.local2world geomID, info.accelerationStructure, info.geometryMask,
          info.instanceUserID⟩
    | _ => ⟨.one, 0, 0, 0⟩
  quadification geomID := quadification geomID
  rtasFormat := rtasFormat
  heuristic := heuristic

/-- A point of the box that an instance descriptor gives for what is instanced, where the corners of
the box are numbers. -/
def HasLocal (geomID : Nat) (y : Vec3f) : Prop :=
  match geometries.get geomID with
  | some (.inst info) => ∃ lower upper, info.bounds = some (.ofVec3f lower, .ofVec3f upper) ∧
      lower ≤ y ∧ y ≤ upper
  | _ => False

def accepted (quadification : Nat → Nat → Nat) : List PrimRef :=
  PrimRefGen.accepted (geometries.createPrimRef quadification)
    (ForFor.items 0 (geometries.scene.map getSize))

end Geometries

section accepted

theorem validVertex_eq_some {v : FloatVec} {p : Vec3f} (h : validVertex v = some p) :
    v.finite = some p ∧ Bounded (.pure p) := by
  obtain ⟨hfinite, hvalid⟩ := Option.filter_eq_some_iff.1 h
  have hlt : ∀ dim, |component p dim| < fltLarge := of_decide_eq_true hvalid
  exact ⟨hfinite, fun dim => ⟨hlt dim, hlt dim⟩⟩

theorem TrianglesInfo.bounded {geom : TrianglesInfo} {primID : Nat}
    (h : (getTriangle geom.geometry primID).valid = true) :
    Bounded (getTriangle geom.geometry primID).bounds := by
  have hvertex : ∀ {vertexID : Nat} {p : Vec3f}, geom.geometry.getVertex vertexID = some p →
      Bounded (.pure p) := by
    intro vertexID p hp
    obtain ⟨v, -, hv⟩ := Option.bind_eq_some_iff.1 hp
    exact (validVertex_eq_some hv).2
  rw [getTriangle] at h ⊢
  split_ifs at h ⊢
  · cases h
  · cases h
  · cases h
  · split at h
    next p0 p1 p2 h0 h1 h2 => exact ((hvertex h0).sup (hvertex h1)).sup (hvertex h2)
    · cases h

theorem QuadsInfo.buildBounds_eq_some {geom : QuadsInfo} {primID : Nat}
    {bounds : NonemptyInterval Vec3f} (h : geom.buildBounds primID = some bounds) :
    bounds = (geom.getQuad primID).bounds ∧ Bounded bounds := by
  have hvertex : ∀ {vertexID : Nat} {p : Vec3f}, geom.validVertex vertexID = some p →
      p = geom.getVertex vertexID ∧ Bounded (.pure p) := by
    intro vertexID p hp
    rw [QuadsInfo.validVertex] at hp
    split at hp
    · cases hp
    · obtain ⟨v, hread, hv⟩ := Option.bind_eq_some_iff.1 hp
      obtain ⟨hfinite, hbounded⟩ := validVertex_eq_some hv
      refine ⟨?_, hbounded⟩
      rw [QuadsInfo.getVertex, hread, Option.bind_some, hfinite, Option.getD_some]
  rw [QuadsInfo.buildBounds] at h
  split at h
  · cases h
  · simp only [Option.bind_eq_bind, Option.bind_eq_some_iff, Option.pure_def, Option.some.injEq] at h
    obtain ⟨p0, h0, p1, h1, p2, h2, p3, h3, rfl⟩ := h
    obtain ⟨rfl, hb0⟩ := hvertex h0
    obtain ⟨rfl, hb1⟩ := hvertex h1
    obtain ⟨rfl, hb2⟩ := hvertex h2
    obtain ⟨rfl, hb3⟩ := hvertex h3
    exact ⟨rfl, ((hb0.sup hb1).sup hb2).sup hb3⟩

theorem ProceduralInfo.buildBounds_bounded {geom : ProceduralInfo} {primID : Nat}
    {bounds : NonemptyInterval Vec3f} (h : geom.buildBounds primID = some bounds) : Bounded bounds := by
  rw [ProceduralInfo.buildBounds] at h
  split at h
  · cases h
  · simp only [Option.bind_eq_bind, Option.bind_eq_some_iff] at h
    obtain ⟨getBounds, -, lower, hlower, upper, hupper, h⟩ := h
    split at h
    · cases h
      exact fun dim => ⟨((validVertex_eq_some hlower).2 dim).1, ((validVertex_eq_some hupper).2 dim).1⟩
    · cases h

/-- The box of an accepted instance is around the image of the given one, where that is a box. -/
theorem InstanceInfo.buildBounds_eq_some {geom : InstanceInfo} {primID : Nat}
    {bounds : NonemptyInterval Vec3f} (h : geom.buildBounds primID = some bounds) :
    primID = 0 ∧ Bounded bounds ∧ ∃ m, geom.local2world = some m ∧
      ∀ lower upper, geom.bounds = some (.ofVec3f lower, .ofVec3f upper) →
        (m.xfmBounds (lower, upper)).toBounds = some bounds := by
  rw [InstanceInfo.buildBounds] at h
  split_ifs at h with hprimID haccel
  simp only [Option.bind_eq_bind, Option.bind_eq_some_iff] at h
  obtain ⟨xfm, hxfm, local2world, hlocal, b, hb, lower, hlower, upper, hupper, h⟩ := h
  split at h
  next hle =>
    cases h
    obtain ⟨hfinite, hlower⟩ := validVertex_eq_some hlower
    obtain ⟨hfinite', hupper⟩ := validVertex_eq_some hupper
    obtain ⟨m, hm⟩ := AffineSpace3fa.exists_finite hfinite
    refine ⟨by omega, fun dim => ⟨(hlower dim).1, (hupper dim).1⟩, m, ?_, fun l u hlu => ?_⟩
    · rw [InstanceInfo.local2world, hxfm]
      simp only [Option.bind_eq_bind, Option.bind_some, hlocal, hm]
    · rw [hlu] at hb
      cases hb
      rw [AffineSpace3fa.finite_eq_some.1 hm, AffineSpace3fa.xfmBounds_ofVec3f m (l, u)]
        at hfinite hfinite'
      refine BBox3fa.toBounds_eq_some.2 (fun dim => ⟨?_, ?_⟩)
      · exact FloatValue.eq_of_ofTop_eq_num (congrFun (FloatVec.finite_eq_some.1 hfinite) dim)
      · exact FloatValue.eq_of_ofBot_eq_num (congrFun (FloatVec.finite_eq_some.1 hfinite') dim)
  · cases h

theorem mem_items {i : Nat} {sizes : List Nat} {p : Nat × Nat} (h : p ∈ ForFor.items i sizes) :
    i ≤ p.1 ∧ ∃ size, sizes[p.1 - i]? = some size ∧ p.2 < size := by
  induction sizes generalizing i with
  | nil => cases h
  | cons size sizes ih =>
      rcases List.mem_append.1 h with h | h
      · obtain ⟨j, hj, rfl⟩ := List.mem_map.1 h
        have hlt := (List.mem_range'_1.1 hj).2
        refine ⟨le_rfl, size, ?_, by omega⟩
        rw [Nat.sub_self]
        rfl
      · obtain ⟨hle, size', hsize, hlt⟩ := ih h
        refine ⟨by omega, size', ?_, hlt⟩
        have hsub : p.1 - i = (p.1 - (i + 1)) + 1 := by omega
        rw [hsub, List.getElem?_cons_succ, hsize]

variable {geometries : Geometries} {quadification : Nat → Nat → Nat} {prim : PrimRef}

/-- The numbers of a primitive are those of its geometry and of its place in it. -/
theorem Geometries.exists_geometry (hlength : geometries.length ≤ maxGeometries)
    (h : prim ∈ geometries.accepted quadification) :
    ∃ geom, geometries.get prim.geomID = some geom ∧ prim.primID.val < geom.getNumPrimitives ∧
      geometries.createPrimRef quadification prim.geomID prim.primID = some prim := by
  obtain ⟨p, hp, hcreate⟩ := List.mem_filterMap.1 h
  obtain ⟨-, size, hsize, hlt⟩ := mem_items hp
  rw [Nat.sub_zero, Geometries.scene, List.map_map, List.getElem?_map] at hsize
  obtain ⟨geom?, hgeom, rfl⟩ := Option.map_eq_some_iff.1 hsize
  have hp1 : p.1 < maxGeometries := by
    obtain ⟨hlt, -⟩ := List.getElem?_eq_some_iff.1 hgeom
    exact hlt.trans_le hlength
  cases geom? with
  | none => cases hlt
  | some geom =>
      have hget : geometries.get p.1 = some geom := by rw [Geometries.get, hgeom, Option.join_some]
      have hp2 : p.2 < 2 ^ 32 := by
        have hcount : getSize (GeometryInfo.geometry geom) ≤ 2 ^ 32 := by
          cases geom with
          | triangles info => exact info.triangleCount.isLt.le
          | quads info => exact info.quadCount.isLt.le
          | procedural info => exact info.primCount.isLt.le
          | inst info => exact Nat.one_le_two_pow
          | unknown => exact Nat.zero_le _
        exact hlt.trans_le hcount
      have hids : prim.geomID.val = p.1 ∧ prim.primID.val = p.2 := by
        have hcreate' := hcreate
        rw [Geometries.createPrimRef, hget] at hcreate'
        have hids : ∀ bounds, (⟨bounds, Fin.ofNat _ p.1, Fin.ofNat _ p.2⟩ : PrimRef) = prim →
            prim.geomID.val = p.1 ∧ prim.primID.val = p.2 := by
          rintro bounds rfl
          exact ⟨Nat.mod_eq_of_lt hp1, Nat.mod_eq_of_lt hp2⟩
        cases geom with
        | triangles info =>
            simp only [trianglePairPrimRef] at hcreate'
            split_ifs at hcreate'
            · exact hids _ (Option.some.inj hcreate')
            · exact hids _ (Option.some.inj hcreate')
        | quads info =>
            obtain ⟨bounds, -, heq⟩ := Option.map_eq_some_iff.1 hcreate'
            exact hids _ heq
        | procedural info =>
            obtain ⟨bounds, -, heq⟩ := Option.map_eq_some_iff.1 hcreate'
            exact hids _ heq
        | inst info =>
            obtain ⟨bounds, -, heq⟩ := Option.map_eq_some_iff.1 hcreate'
            exact hids _ heq
        | unknown => cases hcreate'
      rw [hids.1, hids.2]
      refine ⟨geom, hget, ?_, hcreate⟩
      cases geom with
      | unknown => cases hlt
      | _ => exact hlt

/-- The box of a primitive is that of its shape, for each type that can be split. -/
structure Geometries.Describes (geometries : Geometries) (b : BuilderT) (prim : PrimRef) : Prop where
  bounded : Bounded prim.bounds
  triangle : b.getType prim.geomID = .triangle →
    prim.bounds = pairBounds (b.getTriangle prim.geomID) (b.quadification prim.geomID) prim.primID
  quad : b.getType prim.geomID = .quad → prim.bounds = (b.getQuad prim.geomID prim.primID).bounds
  inst : b.getType prim.geomID = .inst → prim.primID.val = 0 ∧
    ∀ y, geometries.HasLocal prim.geomID y →
      (geometries.local2world prim.geomID).xfmPoint y ∈ prim.bounds

theorem trianglePairPrimRef_eq_some {info : TrianglesInfo} {quads : Nat → Nat}
    {geomID : Fin maxGeometries} {primID : Nat}
    (h : trianglePairPrimRef info.geometry quads geomID primID = some prim) :
    prim.bounds = pairBounds (getTriangle info.geometry) quads primID ∧ Bounded prim.bounds := by
  simp only [trianglePairPrimRef] at h
  rw [pairBounds]
  split_ifs at h with hpaired hvalid hpair hvalid1
  · rw [Bool.not_eq_true, Bool.not_eq_false'] at hvalid hvalid1
    cases h
    rw [if_pos hpair]
    exact ⟨rfl, (TrianglesInfo.bounded hvalid).sup (TrianglesInfo.bounded hvalid1)⟩
  · rw [Bool.not_eq_true, Bool.not_eq_false'] at hvalid
    cases h
    rw [if_neg hpair]
    exact ⟨rfl, TrianglesInfo.bounded hvalid⟩

theorem Geometries.describes (rtasFormat : RtasFormat) (heuristic : Heuristic)
    (hlength : geometries.length ≤ maxGeometries) (h : prim ∈ geometries.accepted quadification) :
    geometries.Describes (geometries.builder quadification rtasFormat heuristic) prim := by
  obtain ⟨geom, hget, -, hcreate⟩ := Geometries.exists_geometry hlength h
  have htype : (geometries.builder quadification rtasFormat heuristic).getType prim.geomID =
      geom.getType.getD .triangle := by
    change ((geometries.get prim.geomID).bind GeometryInfo.getType).getD .triangle = _
    rw [hget, Option.bind_some]
  rw [Geometries.createPrimRef, hget] at hcreate
  cases geom with
  | triangles info =>
      obtain ⟨hbounds, hbounded⟩ := trianglePairPrimRef_eq_some hcreate
      have htriangle : (geometries.builder quadification rtasFormat heuristic).getTriangle prim.geomID =
          getTriangle info.geometry := by
        funext primID
        simp only [Geometries.builder, hget]
      refine ⟨hbounded, fun _ => ?_, fun hty => ?_, fun hty => ?_⟩
      · rw [htriangle]
        exact hbounds
      · cases htype.symm.trans hty
      · cases htype.symm.trans hty
  | quads info =>
      obtain ⟨bounds, hbounds, heq⟩ := Option.map_eq_some_iff.1 hcreate
      obtain ⟨hquad, hbounded⟩ := QuadsInfo.buildBounds_eq_some hbounds
      have hprim : prim.bounds = bounds := congrArg PrimRef.bounds heq.symm
      refine ⟨hprim ▸ hbounded, fun hty => ?_, fun _ => ?_, fun hty => ?_⟩
      · cases htype.symm.trans hty
      · simp only [Geometries.builder, hget]
        exact hprim.trans hquad
      · cases htype.symm.trans hty
  | procedural info =>
      obtain ⟨bounds, hbounds, heq⟩ := Option.map_eq_some_iff.1 hcreate
      have hprim : prim.bounds = bounds := congrArg PrimRef.bounds heq.symm
      refine ⟨hprim ▸ ProceduralInfo.buildBounds_bounded hbounds, fun hty => ?_, fun hty => ?_,
        fun hty => ?_⟩
      all_goals cases htype.symm.trans hty
  | inst info =>
      obtain ⟨bounds, hbounds, heq⟩ := Option.map_eq_some_iff.1 hcreate
      have hprim : prim.bounds = bounds := congrArg PrimRef.bounds heq.symm
      obtain ⟨hprimID, hbounded, m, hlocal, hbox⟩ := InstanceInfo.buildBounds_eq_some hbounds
      refine ⟨hprim ▸ hbounded, fun hty => ?_, fun hty => ?_, fun _ => ⟨hprimID, fun y hy => ?_⟩⟩
      · cases htype.symm.trans hty
      · cases htype.symm.trans hty
      · simp only [Geometries.HasLocal, hget] at hy
        obtain ⟨lower, upper, hb, hlower, hupper⟩ := hy
        simp only [Geometries.local2world, hget, hlocal, Option.getD_some]
        rw [hprim]
        exact AffineSpace3f.mem_xfmBounds (b := ⟨(lower, upper), hlower.trans hupper⟩) (hbox _ _ hb)
          ⟨hlower, hupper⟩
  | unknown => cases hcreate

end accepted

end RTBuild
