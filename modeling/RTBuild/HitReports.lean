import RTBuild.HitQuery
import RTBuild.SceneSearch

namespace RTBuild

open Library Library.Segment Children OpenInstance Quadifier TrianglePairs

variable {b : BuilderT} {format : RtasFormat}

section cells

variable {prims : Nat → PrimRef} {r : BuildRecord}

/-- A quad leaf is that of a primitive, and the second part of an instance leaf that of a geometry. -/
def Cell.Authentic (b : BuilderT) : Cell → Prop
  | .quad leaf => ∃ prim, (b.getType prim.geomID = .triangle ∨ b.getType prim.geomID = .quad) ∧
      leaf = { createQuadLeaf b (b.getType prim.geomID) prim with last := leaf.last }
  | .instancePart1 part => ∃ prim : PrimRef, part =
      (instanceLeaf b.rtasFormat (b.getInstance prim.geomID) prim.geomID prim.primID).2
  | _ => True

theorem FatImage.ofRecord_authentic {ty : PrimType} (hr : r.Describes b.getType prims)
    (htype : r.type = some ty) (hsize : r.size ≤ Settings.leafSize r.type) :
    (ofRecord b prims r).Forall (Cell.Authentic b) := by
  rw [htype] at hsize
  have hfirst : b.getType (prims r.begin_).geomID = ty := by
    refine hr.type_eq ty htype _ ?_
    rw [BuildRecord.list_eq_map]
    exact List.mem_map_of_mem (BuildRecord.mem_indices.2 ⟨le_rfl, hr.nonempty⟩)
  have hnine : r.size ≤ 9 := hsize.trans (by cases ty <;> decide)
  have hcover := (fatLeafChildren_chosen (h := b.heuristic) hr hnine).cover
  have hquads : ty = .triangle ∨ ty = .quad →
      (ofQuads b (fatLeafChildren b.heuristic prims r).1 r ty
        (fatLeafChildren b.heuristic prims r).2).Forall (Cell.Authentic b) := by
    refine fun hty => ⟨fun node h => (by cases h), fun _ _ => trivial, fun childData s hs => ?_⟩
    obtain ⟨c, hc, leaf, hleaf, heq⟩ := mem_createAllQuads hs
    obtain ⟨i, hi, rfl⟩ := List.mem_map.1 hleaf
    have hprim : b.getType ((fatLeafChildren b.heuristic prims r).1 i).geomID = ty := by
      refine hr.type_eq ty htype _ (hcover.list_perm.mem_iff.1 (List.mem_flatMap.2 ⟨c, hc, ?_⟩))
      rw [BuildRecord.list_eq_map]
      exact List.mem_map_of_mem hi
    rw [heq]
    exact ⟨_, hprim ▸ hty, hprim ▸ rfl⟩
  rw [ofRecord, hfirst]
  cases ty with
  | triangle => exact hquads (Or.inl rfl)
  | quad => exact hquads (Or.inr rfl)
  | procedural =>
      refine ⟨fun _ _ => trivial, fun _ _ => trivial, fun childData s hs => ?_⟩
      rcases List.mem_cons.1 hs with rfl | hs
      · trivial
      · obtain ⟨e, he, rfl⟩ := List.mem_map.1 hs
        trivial
  | inst =>
      refine ⟨fun node h => (by cases h), fun _ _ => trivial, fun childData s hs => ?_⟩
      obtain ⟨prim, -, hcell⟩ := mem_ofInstances_stores hs
      simp only [instanceCells, List.mem_cons, List.not_mem_nil, or_false] at hcell
      rcases hcell with heq | heq
      · rw [heq]
        trivial
      · rw [heq]
        exact ⟨prim, rfl⟩

/-- All leaves that a build leaves in memory are those of primitives. -/
theorem build_authentic {pinfo : PrimInfoRange} {t : List BuildEvent} {v : ReductionTy}
    {fuel endBytes cur : Nat}
    (hbounds : (rootRecord pinfo).bounds = unionBounds ((rootRecord pinfo).list prims))
    (hrun : BufferRun endBytes (build b fuel prims pinfo) 0 t (.ret v) cur) (hv : v.valid = true)
    {addr : Nat} {cell : Cell} (hm : memory t addr = some cell) : cell.Authentic b := by
  refine build_forall (P := Cell.Authentic b) True.intro True.intro (fun hvalid h => ?_) hbounds hrun
    hv hm
  exact hvalid.forall_writes (Q := fun _ => True) (fun _ _ => trivial)
    (fun hr htype hsize _ => FatImage.ofRecord_authentic hr htype hsize)
    (fun _ _ _ _ _ _ _ => trivial) h trivial

end cells

section reports

instance (a b : Indices) : Decidable (Collapsed a b) := inferInstanceAs (Decidable (_ ∧ _ ∧ _))

/-- What a shader has to be told about the hits with a primitive. A partner that is a point is no
triangle to hit, and the hits inside of an instance are with primitives of another scene. -/
def reports (b : BuilderT) (prim : PrimRef) : List HitReport :=
  let report (primID : Fin (2 ^ 32)) (vertices : Option (Vec3f × Vec3f × Vec3f)) : HitReport :=
    ⟨Fin.castLE maxGeometries_le_geomIndex prim.geomID, primID, vertices⟩
  match b.getType prim.geomID with
  | .triangle =>
      let tri := b.getTriangle prim.geomID prim.primID
      let second := b.quadification prim.geomID prim.primID
      let tri1 := b.getTriangle prim.geomID (prim.primID + second)
      report prim.primID (some tri.corners) ::
        (if second ≠ 0 ∧ ¬Collapsed tri.indices tri1.indices then
          [report (Fin.ofNat _ (prim.primID + second)) (some tri1.corners)] else [])
  | .quad =>
      let quad := b.getQuad prim.geomID prim.primID
      [report prim.primID (some (quad.p0, quad.p1, quad.p3)),
        report prim.primID (some (quad.p2, quad.p3, quad.p1))]
  | .procedural => [report prim.primID none]
  | .inst => []

/-- A triangle and its partner, if it has one, are as the pairing and the vertex buffer give them. -/
def WellPaired (b : BuilderT) (prim : PrimRef) : Prop :=
  b.getType prim.geomID = .triangle → ∃ vertices,
    (b.getTriangle prim.geomID prim.primID).InBuffer vertices ∧
    (b.getTriangle prim.geomID (prim.primID + b.quadification prim.geomID prim.primID)).InBuffer
      vertices ∧
    Pairs (b.getTriangle prim.geomID) (b.quadification prim.geomID) prim.primID

def QuadLeaf.reports (leaf : QuadLeaf) : List HitReport :=
  ((List.finRange 2).filter (fun i => i.val < leaf.size)).map (fun i =>
    ⟨leaf.leafDesc.geomIndex, (leaf.triangle i).2, some (leaf.triangle i).1⟩)

theorem QuadLeaf.reports_of_valid2 {leaf : QuadLeaf} (h : leaf.valid2 = true) :
    leaf.reports = [⟨leaf.leafDesc.geomIndex, (leaf.triangle 0).2, some (leaf.triangle 0).1⟩,
      ⟨leaf.leafDesc.geomIndex, (leaf.triangle 1).2, some (leaf.triangle 1).1⟩] := by
  have hsize : leaf.size = 2 := by rw [QuadLeaf.size, h]; rfl
  rw [QuadLeaf.reports, hsize]
  rfl

theorem QuadLeaf.reports_of_not_valid2 {leaf : QuadLeaf} (h : leaf.valid2 = false) :
    leaf.reports = [⟨leaf.leafDesc.geomIndex, (leaf.triangle 0).2, some (leaf.triangle 0).1⟩] := by
  have hsize : leaf.size = 1 := by rw [QuadLeaf.size, h]; rfl
  rw [QuadLeaf.reports, hsize]
  rfl

theorem reports_getTriangleInternal {prim : PrimRef} (htype : b.getType prim.geomID = .triangle)
    (hpaired : WellPaired b prim) :
    (getTriangleInternal prim.geomID prim.primID (b.getTriangle prim.geomID)
      (b.quadification prim.geomID)).reports = reports b prim := by
  obtain ⟨vertices, h0, h1, hpairs⟩ := hpaired htype
  have hgeom : (getTriangleInternal prim.geomID prim.primID (b.getTriangle prim.geomID)
      (b.quadification prim.geomID)).leafDesc.geomIndex =
      Fin.castLE maxGeometries_le_geomIndex prim.geomID := by
    rw [getTriangleInternal]
    split <;> rfl
  by_cases hsecond : b.quadification prim.geomID prim.primID = 0
  · have hvalid : (getTriangleInternal prim.geomID prim.primID (b.getTriangle prim.geomID)
        (b.quadification prim.geomID)).valid2 = false := by
      rw [getTriangleInternal, if_neg (not_not.2 hsecond)]
      rfl
    rw [QuadLeaf.reports_of_not_valid2 hvalid, getTriangleInternal_first, hgeom]
    simp only [reports, htype, hsecond, ne_eq, not_true_eq_false, false_and, if_false]
  · have hvalid : (getTriangleInternal prim.geomID prim.primID (b.getTriangle prim.geomID)
        (b.quadification prim.geomID)).valid2 = true ↔ _ := getTriangleInternal_valid2 hsecond
    by_cases hcollapsed : Collapsed (b.getTriangle prim.geomID prim.primID).indices
        (b.getTriangle prim.geomID (prim.primID + b.quadification prim.geomID prim.primID)).indices
    · have hvalid' := Bool.eq_false_iff.2 (mt hvalid.1 (not_not.2 hcollapsed))
      rw [QuadLeaf.reports_of_not_valid2 hvalid', getTriangleInternal_first, hgeom]
      simp only [reports, htype, hcollapsed, not_true_eq_false, and_false, if_false]
    · rw [QuadLeaf.reports_of_valid2 (hvalid.2 hcollapsed), getTriangleInternal_first,
        getTriangleInternal_second h0 h1 hpairs hsecond, hgeom]
      simp only [reports, htype, hsecond, hcollapsed, ne_eq, not_false_eq_true, and_self, if_true]

theorem reports_getQuadInternal {prim : PrimRef} (htype : b.getType prim.geomID = .quad) :
    (getQuadInternal prim.geomID prim.primID (b.getQuad prim.geomID prim.primID)).reports =
      reports b prim := by
  have hvalid : (getQuadInternal prim.geomID prim.primID
      (b.getQuad prim.geomID prim.primID)).valid2 = true := rfl
  have hindex : ∀ i, (getQuadInternal prim.geomID prim.primID
      (b.getQuad prim.geomID prim.primID)).primIndex i = prim.primID := by
    intro i
    simp [getQuadInternal, QuadLeaf.primIndex, QuadLeaf.primIndexDelta]
  rw [QuadLeaf.reports_of_valid2 hvalid]
  simp only [reports, htype, QuadLeaf.triangle, hindex]
  rfl

/-- The leaf that is created for a primitive is told about as the primitive has to be. -/
theorem reports_createQuadLeaf {prim : PrimRef} {leaf : QuadLeaf}
    (hty : b.getType prim.geomID = .triangle ∨ b.getType prim.geomID = .quad)
    (hpaired : WellPaired b prim)
    (hleaf : leaf = { createQuadLeaf b (b.getType prim.geomID) prim with last := leaf.last }) :
    leaf.reports = reports b prim := by
  have hlast : leaf.reports = (createQuadLeaf b (b.getType prim.geomID) prim).reports := by
    rw [hleaf]
    rfl
  rcases hty with htype | htype
  · rw [hlast, createQuadLeaf, if_pos htype, reports_getTriangleInternal htype hpaired]
  · rw [hlast, createQuadLeaf, if_neg (by rw [htype]; decide), reports_getQuadInternal htype]

end reports

section placed

/-- An acceleration structure lies in memory at an address. The pointers of the first format are those
of the lower half of an address space of 48 bits. -/
structure Placed (format : RtasFormat) (m : Nat → Option Cell) (endBytes : Nat) (base : BitVec 64)
    (g : GlobalMemory) : Prop where
  base_ne : base ≠ 0
  aligned : base.toNat % 64 = 0
  fits : base.toNat + endBytes ≤ 2 ^ 64
  low : format = .version1 → base.toNat + endBytes ≤ 2 ^ 47
  cells : ∀ addr cell, m addr = some cell → g (base + BitVec.ofNat 64 addr) = some cell

variable {m : Nat → Option Cell} {endBytes : Nat} {base : BitVec 64} {g : GlobalMemory}

theorem Placed.toNat_add (h : Placed format m endBytes base g) {addr : Nat}
    (hle : addr + 64 ≤ endBytes) : (base + BitVec.ofNat 64 addr).toNat = base.toNat + addr := by
  have hfits := h.fits
  rw [BitVec.toNat_add, BitVec.toNat_ofNat]
  omega

theorem Placed.addressable (h : Placed format m endBytes base g) {addr : Nat} (hmod : addr % 64 = 0)
    (hle : addr + 64 ≤ endBytes) : Addressable format (base + BitVec.ofNat 64 addr) := by
  have haligned := h.aligned
  constructor
  · rw [h.toNat_add hle]
    omega
  · intro hformat
    have hlow := h.low hformat
    rw [h.toNat_add hle]
    omega

theorem Placed.ne_zero (h : Placed format m endBytes base g) {addr : Nat} (hle : addr + 64 ≤ endBytes) :
    base + BitVec.ofNat 64 addr ≠ 0 := by
  intro hzero
  have hadd := h.toNat_add hle
  rw [hzero] at hadd
  apply h.base_ne
  apply BitVec.eq_of_toNat_eq
  have hnat : (0 : BitVec 64).toNat = 0 := rfl
  omega

end placed

section queries

variable {m : Nat → Option Cell} {endBytes : Nat} {base : BitVec 64} {g : GlobalMemory} {found : Found}

theorem hitReport_quad {hit : LeafHit format} {leaf : QuadLeaf} {i : Fin 2}
    (hg : g hit.getPrimLeafPtr = some (.quad leaf)) (htype : hit.leafType = .quad)
    (hhit : hit.toMemHit = leaf.hit i) :
    hitReport g hit =
      some ⟨leaf.leafDesc.geomIndex, (leaf.triangle i).2, some (leaf.triangle i).1⟩ := by
  rw [← leaf.tracedTriangle_eq i, QuadLeaf.tracedTriangle, ← hhit]
  simp [hitReport, getHitGeometryID, getHitPrimitiveID, getHitCandidate, LeafHit.primLeafDesc,
    LeafHit.quadLeaf, hg, htype]

theorem hitReport_procedural {hit : LeafHit format} {leaf : ProceduralLeaf} {slot : Nat}
    (hg : g hit.getPrimLeafPtr = some (.procedural leaf)) (htype : hit.leafType = .procedural)
    (hindex : hit.primLeafIndex.val = slot) (hslot : slot < 13) :
    hitReport g hit = some ⟨leaf.leafDesc.geomIndex, leaf.primIndex ⟨slot, hslot⟩, none⟩ := by
  subst hindex
  simp [hitReport, getHitGeometryID, getHitPrimitiveID, getHitProceduralPrimitiveID, getHitCandidate,
    LeafHit.primLeafDesc, LeafHit.proceduralLeaf, hg, htype, hslot]

structure Leaves (b : BuilderT) (m : Nat → Option Cell) (endBytes : Nat) : Prop where
  inside : ∀ addr cell, m addr = some cell → addr % 64 = 0 ∧ addr + 64 ≤ endBytes
  authentic : ∀ addr cell, m addr = some cell → cell.Authentic b

theorem ids_of_leafPrim {prim : PrimRef} {geomIndex : Fin (2 ^ 29)} {primIndex : Fin (2 ^ 32)}
    {mask : BitVec 8} (h : .quad geomIndex primIndex mask = leafPrim b prim) :
    Fin.castLE maxGeometries_le_geomIndex prim.geomID = geomIndex ∧ prim.primID = primIndex := by
  rw [leafPrim] at h
  split at h
  all_goals cases h
  · exact ⟨rfl, rfl⟩
  · exact ⟨rfl, rfl⟩

/-- A leaf with the numbers of a primitive is the one that is created for it. -/
theorem quadLeaf_of_prim {prim : PrimRef} {leaf : QuadLeaf} (hleaf : Cell.Authentic b (.quad leaf))
    (hprim : leaf.prim = leafPrim b prim) :
    (b.getType prim.geomID = .triangle ∨ b.getType prim.geomID = .quad) ∧
      leaf = { createQuadLeaf b (b.getType prim.geomID) prim with last := leaf.last } := by
  obtain ⟨prim', hty, heq⟩ := hleaf
  have hprim' : leaf.prim = leafPrim b prim' := by
    rw [heq]
    exact prim_createQuadLeaf hty rfl leaf.last
  obtain ⟨hgeom, hindex⟩ := ids_of_leafPrim hprim
  obtain ⟨hgeom', hindex'⟩ := ids_of_leafPrim hprim'
  have hgeomID : prim'.geomID = prim.geomID := Fin.castLE_injective _ (hgeom'.trans hgeom.symm)
  have hprimID : prim'.primID = prim.primID := hindex'.trans hindex.symm
  rw [hgeomID] at hty
  have hcreate : createQuadLeaf b (b.getType prim'.geomID) prim' =
      createQuadLeaf b (b.getType prim.geomID) prim := by
    rw [createQuadLeaf, createQuadLeaf, hgeomID, hprimID]
  rw [hcreate] at heq
  exact ⟨hty, heq⟩

theorem reports_of_prim {prim : PrimRef} {leaf : QuadLeaf} (hleaf : Cell.Authentic b (.quad leaf))
    (hprim : leaf.prim = leafPrim b prim) (hpaired : WellPaired b prim) :
    leaf.reports = reports b prim := by
  obtain ⟨hty, heq⟩ := quadLeaf_of_prim hleaf hprim
  exact reports_createQuadLeaf hty hpaired heq

theorem reports_procedural {prim : PrimRef} {geomIndex : Fin (2 ^ 29)} {primIndex : Fin (2 ^ 32)}
    {mask : BitVec 8} (h : leafPrim b prim = .procedural geomIndex primIndex mask) :
    reports b prim = [⟨geomIndex, primIndex, none⟩] := by
  rw [leafPrim] at h
  split at h
  all_goals cases h
  next htype => simp only [reports, htype]

theorem reports_inst {prim : PrimRef} {instanceIndex : Fin (2 ^ 32)} {node : BitVec 64} {mask : BitVec 8}
    {world2obj obj2world : AffineSpace3f}
    (h : leafPrim b prim = .inst instanceIndex node mask world2obj obj2world) : reports b prim = [] := by
  rw [leafPrim] at h
  split at h
  all_goals cases h
  next htype => simp only [reports, htype]

/-- The hits with a leaf are told about as the primitive has to be. -/
theorem Found.map_hitReport (hleaves : Leaves b m endBytes) (hplaced : Placed format m endBytes base g)
    (hfound : found.Holds m) {prim : PrimRef} (hprim : found.prim = leafPrim b prim)
    (hpaired : WellPaired b prim) (inst : BitVec (leafPtrBits format)) :
    (found.hits m format base inst).map (hitReport g) = (reports b prim).map some := by
  have hptr : ∀ {cell}, m found.addr = some cell →
      leafPtr (storedLeafPtr format (base + BitVec.ofNat 64 found.addr)) =
        base + BitVec.ofNat 64 found.addr := by
    intro cell hm
    obtain ⟨hmod, hle⟩ := hleaves.inside _ _ hm
    exact leafPtr_storedLeafPtr (hplaced.addressable hmod hle)
  rw [Found.Holds] at hfound
  rw [Found.hits]
  cases hcase : found.prim with
  | quad geomIndex primIndex mask =>
      rw [hcase] at hfound
      obtain ⟨leaf, hm, hleaf⟩ := hfound
      simp only [hm]
      rw [← reports_of_prim (hleaves.authentic _ _ hm) (hleaf.trans (hcase.symm.trans hprim)) hpaired,
        QuadLeaf.reports, List.map_map, List.map_map]
      apply List.map_congr_left
      intro i hi
      refine hitReport_quad ?_ rfl rfl
      rw [LeafHit.getPrimLeafPtr, hptr hm]
      exact hplaced.cells _ _ hm
  | procedural geomIndex primIndex mask =>
      rw [hcase] at hfound
      obtain ⟨leaf, hm, rfl, hslot, rfl⟩ := hfound
      simp only
      rw [reports_procedural (hprim.symm.trans hcase), List.map_singleton, List.map_singleton]
      congr 1
      refine hitReport_procedural ?_ rfl (Nat.mod_eq_of_lt (by omega)) hslot
      rw [LeafHit.getPrimLeafPtr, hptr hm]
      exact hplaced.cells _ _ hm
  | inst instanceIndex node mask world2obj obj2world =>
      rw [reports_inst (hprim.symm.trans hcase)]
      rfl

structure InstanceTold (g : GlobalMemory) (hit : LeafHit format) (geomID : Fin maxGeometries)
    (inst : Instance) : Prop where
  id : getHitInstanceID g hit = some (Fin.castLE maxGeometries_le_instanceIndex geomID)
  userID : getHitInstanceUserID g hit = some inst.instanceUserID
  worldToObject : getHitWorldToObject g hit = some inst.local2world.rcp
  objectToWorld : getHitObjectToWorld g hit = some inst.local2world

def IsInstance (b : BuilderT) (geomID : Fin maxGeometries) (leaf : LeafPrim) : Prop :=
  ∃ node mask, leaf = .inst (Fin.castLE maxGeometries_le_instanceIndex geomID) node mask
    (b.getInstance geomID).local2world.rcp (b.getInstance geomID).local2world

/-- A hit inside of an instance has the numbers and the transformations of the instance. -/
theorem Found.instance_told (hleaves : Leaves b m endBytes) (hplaced : Placed format m endBytes base g)
    (hfound : found.Holds m) {geomID : Fin maxGeometries} (hprim : IsInstance b geomID found.prim)
    {hit : LeafHit format}
    (hhit : hit.instLeafPtr = storedLeafPtr format (base + BitVec.ofNat 64 found.addr)) :
    InstanceTold g hit geomID (b.getInstance geomID) := by
  have hnode : nodeBytes = 64 := rfl
  obtain ⟨node, mask, hprim⟩ := hprim
  rw [Found.Holds, hprim] at hfound
  obtain ⟨part0, part1, hm0, hm, hparts⟩ := hfound
  obtain ⟨hindex, -, -, hworld, hobj⟩ := LeafPrim.inst.inj hparts
  obtain ⟨hmod, hle⟩ := hleaves.inside _ _ hm
  obtain ⟨prim, heq⟩ := hleaves.authentic _ _ hm
  have hgeomID : prim.geomID = geomID := by
    rw [heq] at hindex
    exact Fin.castLE_injective _ hindex
  have hptr : hit.getInstanceLeafPtr = base + BitVec.ofNat 64 found.addr := by
    rw [LeafHit.getInstanceLeafPtr, hhit]
    exact leafPtr_storedLeafPtr (hplaced.addressable (by omega) (by omega))
  have hnext : base + BitVec.ofNat 64 found.addr + 64 =
      base + BitVec.ofNat 64 (found.addr + nodeBytes) := by
    rw [BitVec.ofNat_add, BitVec.add_assoc]
    rfl
  have hpart0 : hit.instancePart0 g = some part0 := by
    rw [LeafHit.instancePart0, hptr, hplaced.cells _ _ hm0]
  have hpart1 : hit.instancePart1 g = some part1 := by
    rw [LeafHit.instancePart1, hptr, hnext, hplaced.cells _ _ hm]
  have hne : hit.getInstanceLeafPtr ≠ 0 := hptr ▸ hplaced.ne_zero (by omega)
  constructor
  · rw [getHitInstanceID, if_neg hne, hpart1, Option.map_some, hindex]
  · rw [getHitInstanceUserID, if_neg hne, hpart1, Option.map_some, heq, ← hgeomID]
    rfl
  · rw [getHitWorldToObject, if_neg hne, hpart0, hpart1, ← hworld]
    rfl
  · rw [getHitObjectToWorld, if_neg hne, hpart0, hpart1, ← hobj]
    rfl

end queries

section scene

def Quadified (geometries : Geometries) (quadification : Nat → Nat → Nat) : Prop :=
  ∀ geomID info, geometries.get geomID = some (.triangles info) → ∃ lengths order,
    lengths.sum = info.triangleCount.val ∧ order.Perm (ranges 0 lengths) ∧
      quadify info.geometry order (fun _ => 0) = some (quadification geomID)

theorem inBuffer_of_valid {geom : TriangleGeometry} {primID : Nat}
    (h : (getTriangle geom primID).valid = true) :
    (getTriangle geom primID).indices = geom.getPrimitive primID ∧
      (getTriangle geom primID).InBuffer (fun i => (geom.getVertex i).getD (0, 0, 0)) := by
  rw [getTriangle] at h ⊢
  split_ifs at h ⊢
  · cases h
  · cases h
  · cases h
  · split at h
    next p0 p1 p2 h0 h1 h2 =>
      refine ⟨rfl, ?_, ?_, ?_⟩
      · rw [h0]; rfl
      · rw [h1]; rfl
      · rw [h2]; rfl
    · cases h

theorem trianglePairPrimRef_valid {geom : TriangleGeometry} {quads : Nat → Nat}
    {geomID : Fin maxGeometries} {primID : Nat} {prim : PrimRef}
    (h : trianglePairPrimRef geom quads geomID primID = some prim) :
    quads primID ≠ paired ∧ (getTriangle geom primID).valid = true ∧
      (getTriangle geom (primID + quads primID)).valid = true := by
  simp only [trianglePairPrimRef] at h
  split_ifs at h with hpaired hvalid hpair hvalid1
  · rw [Bool.not_eq_true, Bool.not_eq_false'] at hvalid hvalid1
    exact ⟨hpaired, hvalid, hvalid1⟩
  · rw [Bool.not_eq_true, Bool.not_eq_false'] at hvalid
    have hzero : quads primID = 0 := not_not.1 hpair
    exact ⟨hpaired, hvalid, by rw [hzero]; exact hvalid⟩

variable {geometries : Geometries} {quadification : Nat → Nat → Nat}

/-- The primitives that a scene yields are paired as its triangle geometries are. -/
theorem Geometries.wellPaired (rtasFormat : RtasFormat) (heuristic : Heuristic)
    (hlength : geometries.length ≤ maxGeometries) (hquadified : Quadified geometries quadification)
    {prim : PrimRef} (h : prim ∈ geometries.accepted quadification) :
    WellPaired (geometries.builder quadification rtasFormat heuristic) prim := by
  intro htype
  obtain ⟨geom, hget, hlt, hcreate⟩ := Geometries.exists_geometry hlength h
  rw [Geometries.createPrimRef, hget] at hcreate
  cases geom with
  | triangles info =>
      obtain ⟨lengths, order, hsum, horder, hquads⟩ := hquadified _ info hget
      obtain ⟨quads, matching, hquads', hmatched⟩ := quadify_ranges info.geometry horder (fun _ => 0)
      rw [hquads] at hquads'
      cases hquads'
      obtain ⟨hne, hvalid, hvalid'⟩ := trianglePairPrimRef_valid hcreate
      obtain ⟨hindices, hbuffer⟩ := inBuffer_of_valid hvalid
      obtain ⟨hindices', hbuffer'⟩ := inBuffer_of_valid hvalid'
      have htriangle : (geometries.builder quadification rtasFormat heuristic).getTriangle prim.geomID =
          getTriangle info.geometry := by
        funext primID
        simp only [Geometries.builder, hget]
      have hlast : prim.primID.val < lengths.sum := lt_of_lt_of_eq hlt hsum.symm
      rw [htriangle]
      refine ⟨_, hbuffer, hbuffer', fun hsecond => ?_⟩
      rcases hmatched.entry (Nat.zero_le _) hlast with hpaired | hzero | ⟨-, hmax, hpartner, -, hpair⟩
      · exact absurd hpaired hne
      · exact absurd hzero hsecond
      · have hcount := info.triangleCount.isLt
        refine ⟨hmax, (hpartner.trans_eq hsum).trans hcount, ?_⟩
        change pairTriangles _ (getTriangle info.geometry
          (prim.primID + quadification prim.geomID prim.primID)).indices = true
        rw [hindices, hindices']
        exact hpair
  | unknown => cases hcreate
  | _ =>
      change ((geometries.get prim.geomID).bind GeometryInfo.getType).getD .triangle = _ at htype
      rw [hget] at htype
      cases htype

section finds

variable {b : BuilderT} (quadification : Nat → Nat → Nat)
  (bvhs : InstancedBvhs b geometries.local2world) (test : Vec3f × Vec3f → Bool) (rayMask : BitVec 8)
  (m : Nat → Option Cell) (base : BitVec 64) (g : GlobalMemory)

structure Told (found : Found) (prim : PrimRef) : Prop where
  hits : ∀ inst, (found.hits m b.rtasFormat base inst).map (hitReport g) = (reports b prim).map some
  inside : b.getType prim.geomID = .inst → ∀ hit : LeafHit b.rtasFormat,
    hit.instLeafPtr = storedLeafPtr b.rtasFormat (base + BitVec.ofNat 64 found.addr) →
      InstanceTold g hit prim.geomID (b.getInstance prim.geomID)

/-- What a shader is told about a scene for a ray, from the leaves that a traversal finds. -/
structure QueryFinds (found : List Found) : Prop where
  shapes : ∀ prim ∈ geometries.accepted quadification, b.getType prim.geomID ≠ .inst →
    passes rayMask (leafPrim b prim).geomMask = true → ∀ x ∈ shape b prim, Through test x →
      ∃ f ∈ found, Told (b := b) m base g f prim
  instances : ∀ prim ∈ geometries.accepted quadification, ∀ h : b.getType prim.geomID = .inst,
    passes rayMask (b.getInstance prim.geomID).imask = true → ∀ y leaf,
      geometries.HasLocal prim.geomID y → (bvhs.bvh prim.geomID h).root.Reaches y leaf →
      Through test ((geometries.local2world prim.geomID).xfmPoint y) →
      ∃ node ∈ (bvhs.bvh prim.geomID h).root.nodes, node.Reaches y leaf ∧ ∃ f ∈ found,
        f.prim = .inst (Fin.castLE maxGeometries_le_instanceIndex prim.geomID)
          (storedStartNode b.rtasFormat node.addr) (b.getInstance prim.geomID).imask
          (b.getInstance prim.geomID).local2world.rcp (b.getInstance prim.geomID).local2world ∧
        Told (b := b) m base g f prim
  sound : ∀ f ∈ found, passes rayMask f.prim.geomMask = true ∧
    ∃ prim ∈ geometries.accepted quadification, Told (b := b) m base g f prim

variable {quadification bvhs test rayMask m base g} {endBytes : Nat} {prim part : PrimRef} {f : Found}

theorem told_inst (hleaves : Leaves b m endBytes) (hplaced : Placed b.rtasFormat m endBytes base g)
    (hf : f.Holds m) (htype : b.getType prim.geomID = .inst)
    (hprim : IsInstance b prim.geomID f.prim) : Told (b := b) m base g f prim := by
  have hreports : reports b prim = [] := by simp only [reports, htype]
  refine ⟨fun inst => ?_, fun _ hit hhit => Found.instance_told hleaves hplaced hf hprim hhit⟩
  obtain ⟨node, mask, hprim⟩ := hprim
  rw [hreports, Found.hits, hprim]
  rfl

theorem told_shape (hleaves : Leaves b m endBytes) (hplaced : Placed b.rtasFormat m endBytes base g)
    (hf : f.Holds m) (htype : b.getType prim.geomID ≠ .inst) (hpaired : WellPaired b prim)
    (hprim : f.prim = leafPrim b prim) : Told (b := b) m base g f prim :=
  ⟨Found.map_hitReport hleaves hplaced hf hprim hpaired, fun hinst => absurd hinst htype⟩

/-- The leaf of a part of a primitive is one of which the queries tell what they have to. -/
theorem InstancedBvhs.Part.told (hpart : bvhs.Part prim part) (hleaves : Leaves b m endBytes)
    (hplaced : Placed b.rtasFormat m endBytes base g) (hf : f.Holds m) (hpaired : WellPaired b prim)
    (hprim : f.prim = leafPrim b part) : Told (b := b) m base g f prim := by
  cases hpart with
  | piece part hpiece =>
      rw [leafPrim_piece hpiece] at hprim
      by_cases htype : b.getType prim.geomID = .inst
      · apply told_inst hleaves hplaced hf htype
        rw [hprim, leafPrim, htype]
        exact ⟨_, _, rfl⟩
      · exact told_shape hleaves hplaced hf htype hpaired hprim
  | opened htype node hnode =>
      apply told_inst hleaves hplaced hf htype
      rw [hprim, leafPrim, subPrim, htype]
      exact ⟨_, _, rfl⟩

/-- What is told about the leaves that a search of a scene comes to. -/
theorem SceneFinds.query {found : List Found}
    (h : SceneFinds quadification bvhs test rayMask (found.map Found.prim))
    (hleaves : Leaves b m endBytes) (hplaced : Placed b.rtasFormat m endBytes base g)
    (hholds : ∀ f ∈ found, f.Holds m)
    (hpaired : ∀ prim ∈ geometries.accepted quadification, WellPaired b prim) :
    QueryFinds quadification bvhs test rayMask m base g found where
  shapes prim hprim htype hpasses x hx hray := by
    obtain ⟨f, hf, hleaf⟩ := List.mem_map.1 (h.shapes prim hprim htype hpasses x hx hray)
    exact ⟨f, hf, told_shape hleaves hplaced (hholds f hf) htype (hpaired prim hprim) hleaf⟩
  instances prim hprim htype hpasses y leaf hlocal hreaches hray := by
    obtain ⟨node, hnode, hbelow, hmem⟩ :=
      h.instances prim hprim htype hpasses y leaf hlocal hreaches hray
    obtain ⟨f, hf, hleaf⟩ := List.mem_map.1 hmem
    exact ⟨node, hnode, hbelow, f, hf, hleaf,
      told_inst hleaves hplaced (hholds f hf) htype ⟨_, _, hleaf⟩⟩
  sound f hf := by
    obtain ⟨hpasses, prim, hprim, part, hpart, hleaf⟩ := h.sound _ (List.mem_map_of_mem hf)
    exact ⟨hpasses, prim, hprim, hpart.told hleaves hplaced (hholds f hf) (hpaired prim hprim) hleaf⟩

/-- An instance leaf that is found is one of an instance of the scene. -/
theorem InstancedBvhs.Part.isInstance (hpart : bvhs.Part prim part) {i : Fin (2 ^ 32)}
    {node : BitVec 64} {mask : BitVec 8} {world2obj obj2world : AffineSpace3f}
    (h : .inst i node mask world2obj obj2world = leafPrim b part) :
    b.getType prim.geomID = .inst ∧ i = Fin.castLE maxGeometries_le_instanceIndex prim.geomID ∧
      IsInstance b prim.geomID (leafPrim b part) := by
  have hgeomID : part.geomID = prim.geomID := by
    cases hpart with
    | piece part hpiece => exact hpiece.geomID_eq
    | opened htype node hnode => rfl
  rw [leafPrim, hgeomID] at h
  rw [leafPrim, hgeomID]
  split at h
  all_goals cases h
  next htype =>
    rw [htype]
    exact ⟨rfl, rfl, _, _, rfl⟩

/-- What a traversal of a built scene comes to, with its leaves. -/
theorem Prepared.visited {quality : BuildQuality} {flags : BuildFlags} {prims : Nat → PrimRef}
    {pinfo : PrimInfo} {fuel cur : Nat} {t : List BuildEvent} {v : ReductionTy}
    (hprims : Prepared quadification bvhs quality flags prims pinfo)
    (hdescribes : ∀ prim ∈ geometries.accepted quadification, geometries.Describes b prim)
    (hindex : useSpatialSplits quality flags = true → numPrimitives geometries.scene ≤ 2 ^ 32)
    (hcovered : useSpatialSplits quality flags = true →
      ∀ prim ∈ geometries.accepted quadification, QuadCovered b prim)
    (hopened : useSpatialSplits quality flags = true → bvhs.AllBounded) (hend : endBytes ≤ 2 ^ 37)
    (hrun : BufferRun endBytes (build b fuel prims pinfo.toRange) 0 t (.ret v) cur)
    (hv : v.valid = true) :
    ∃ n, ∀ steps, n ≤ steps → ∀ test rayMask, MeetsLarger test →
      ∃ found, visit (memory t) test rayMask steps ⟨headerBytes, .internal, 0⟩ = some found ∧
        SceneFinds quadification bvhs test rayMask (found.map Found.prim) ∧
          ∀ f ∈ found, f.Holds (memory t) := by
  obtain ⟨n, hsearch⟩ := hprims.search hdescribes hindex hcovered hopened hend hrun hv
  refine ⟨n, fun steps hsteps test rayMask htest => ?_⟩
  obtain ⟨all, hall, hfinds⟩ := hsearch steps hsteps test rayMask htest
  rw [← map_visit] at hall
  obtain ⟨found, hfound, rfl⟩ := Option.map_eq_some_iff.1 hall
  exact ⟨found, hfound, hfinds, visit_holds hfound⟩

theorem Prepared.leaves {quality : BuildQuality} {flags : BuildFlags} {prims : Nat → PrimRef}
    {pinfo : PrimInfo} {fuel cur : Nat} {t : List BuildEvent} {v : ReductionTy}
    (hprims : Prepared quadification bvhs quality flags prims pinfo)
    (hrun : BufferRun endBytes (build b fuel prims pinfo.toRange) 0 t (.ret v) cur)
    (hv : v.valid = true) : Leaves b (memory t) endBytes := by
  obtain ⟨-, hroot⟩ := hprims.rootRecord_eq
  exact ⟨fun _ _ hm => build_inside hroot hrun hv hm, fun _ _ hm => build_authentic hroot hrun hv hm⟩

end finds

/-- In every scene whose build succeeds, the queries for the hits with what a ray finds tell of the
primitives of the scene: their numbers, their corners as the descriptors have them, and the numbers of
the instances. -/
theorem query_reports (geometries : Geometries) (quadification : Nat → Nat → Nat)
    (rtasFormat : RtasFormat) (heuristic : Heuristic) (quality : BuildQuality) (flags : BuildFlags)
    (bvhs : InstancedBvhs (geometries.builder quadification rtasFormat heuristic)
      geometries.local2world)
    (prims : Nat → PrimRef) (pinfo : PrimInfo) (fuel endBytes : Nat) (t : List BuildEvent)
    (v : ReductionTy) (cur : Nat) (base : BitVec 64) (g : GlobalMemory)
    (hlength : geometries.length ≤ maxGeometries)
    (hindex : useSpatialSplits quality flags = true → numPrimitives geometries.scene ≤ 2 ^ 32)
    (hcovered : useSpatialSplits quality flags = true → ∀ prim ∈ geometries.accepted quadification,
      QuadCovered (geometries.builder quadification rtasFormat heuristic) prim)
    (hopened : useSpatialSplits quality flags = true → bvhs.AllBounded)
    (hquadified : Quadified geometries quadification)
    (hprims : Prepared quadification bvhs quality flags prims pinfo) (hend : endBytes ≤ 2 ^ 37)
    (hrun : BufferRun endBytes (build (geometries.builder quadification rtasFormat heuristic) fuel prims
      pinfo.toRange) 0 t (.ret v) cur) (hv : v.valid = true)
    (hplaced : Placed rtasFormat (memory t) endBytes base g) :
    ∃ n, ∀ steps, n ≤ steps → ∀ test rayMask, MeetsLarger test →
      ∃ found, visit (memory t) test rayMask steps ⟨headerBytes, .internal, 0⟩ = some found ∧
        QueryFinds quadification bvhs test rayMask (memory t) base g found := by
  obtain ⟨n, hvisited⟩ := hprims.visited
    (fun prim hprim => Geometries.describes rtasFormat heuristic hlength hprim)
    hindex hcovered hopened hend hrun hv
  refine ⟨n, fun steps hsteps test rayMask htest => ?_⟩
  obtain ⟨found, hfound, hfinds, hholds⟩ := hvisited steps hsteps test rayMask htest
  exact ⟨found, hfound, hfinds.query (hprims.leaves hrun hv) hplaced hholds
    (fun prim hprim => Geometries.wellPaired rtasFormat heuristic hlength hquadified hprim)⟩

/-- What a shader is told of the transformations of an instance is what its descriptor has, and an
inverse of that. The box of the instance is the smallest one around all points that the inverse takes
into the box that the descriptor has for what is instanced. -/
structure TransformsTold (g : GlobalMemory) (hit : LeafHit format) (info : InstanceInfo)
    (bounds : NonemptyInterval Vec3f) (obj2world world2obj : AffineSpace3f) : Prop where
  descriptor : info.local2world = some obj2world
  objectToWorld : getHitObjectToWorld g hit = some obj2world
  worldToObject : getHitWorldToObject g hit = some world2obj
  inverse : obj2world.l.det ≠ 0 → ∀ x, world2obj.xfmPoint (obj2world.xfmPoint x) = x ∧
    obj2world.xfmPoint (world2obj.xfmPoint x) = x
  smallest : obj2world.l.det ≠ 0 → ∀ b : NonemptyInterval Vec3f,
    info.bounds = some (.ofVec3f b.fst, .ofVec3f b.snd) →
      ∀ box, bounds ≤ box ↔ ∀ x, world2obj.xfmPoint x ∈ b → x ∈ box

/-- The descriptor of an accepted instance, with its transformation. -/
theorem Geometries.exists_instance (rtasFormat : RtasFormat) (heuristic : Heuristic)
    (hlength : geometries.length ≤ maxGeometries) {prim : PrimRef}
    (h : prim ∈ geometries.accepted quadification)
    (htype : (geometries.builder quadification rtasFormat heuristic).getType prim.geomID = .inst) :
    ∃ info, geometries.get prim.geomID = some (.inst info) ∧
      info.local2world = some (geometries.local2world prim.geomID) ∧
        ∀ b : NonemptyInterval Vec3f, info.bounds = some (.ofVec3f b.fst, .ofVec3f b.snd) →
          ((geometries.local2world prim.geomID).xfmBounds (b.fst, b.snd)).toBounds =
            some prim.bounds := by
  obtain ⟨geom, hget, -, hcreate⟩ := Geometries.exists_geometry hlength h
  rw [Geometries.createPrimRef, hget] at hcreate
  change ((geometries.get prim.geomID).bind GeometryInfo.getType).getD .triangle = _ at htype
  rw [hget] at htype
  cases geom with
  | inst info =>
      obtain ⟨bounds, hbounds, heq⟩ := Option.map_eq_some_iff.1 hcreate
      obtain ⟨-, -, m, hm, hbox⟩ := InstanceInfo.buildBounds_eq_some hbounds
      have hprim : prim.bounds = bounds := congrArg PrimRef.bounds heq.symm
      have hworld : geometries.local2world prim.geomID = m := by
        simp only [Geometries.local2world, hget, hm, Option.getD_some]
      rw [hworld, hprim]
      exact ⟨info, hget, hm, fun b hb => hbox _ _ hb⟩
  | _ => cases htype

/-- All instance leaves that a ray comes to have the transformations of their descriptors. -/
theorem instance_transforms (geometries : Geometries) (quadification : Nat → Nat → Nat)
    (rtasFormat : RtasFormat) (heuristic : Heuristic) (quality : BuildQuality) (flags : BuildFlags)
    (bvhs : InstancedBvhs (geometries.builder quadification rtasFormat heuristic)
      geometries.local2world)
    (prims : Nat → PrimRef) (pinfo : PrimInfo) (fuel endBytes : Nat) (t : List BuildEvent)
    (v : ReductionTy) (cur : Nat) (base : BitVec 64) (g : GlobalMemory)
    (hlength : geometries.length ≤ maxGeometries)
    (hindex : useSpatialSplits quality flags = true → numPrimitives geometries.scene ≤ 2 ^ 32)
    (hcovered : useSpatialSplits quality flags = true → ∀ prim ∈ geometries.accepted quadification,
      QuadCovered (geometries.builder quadification rtasFormat heuristic) prim)
    (hopened : useSpatialSplits quality flags = true → bvhs.AllBounded)
    (hprims : Prepared quadification bvhs quality flags prims pinfo) (hend : endBytes ≤ 2 ^ 37)
    (hrun : BufferRun endBytes (build (geometries.builder quadification rtasFormat heuristic) fuel prims
      pinfo.toRange) 0 t (.ret v) cur) (hv : v.valid = true)
    (hplaced : Placed rtasFormat (memory t) endBytes base g) :
    ∃ n, ∀ steps, n ≤ steps → ∀ test rayMask, MeetsLarger test →
      ∃ found, visit (memory t) test rayMask steps ⟨headerBytes, .internal, 0⟩ = some found ∧
        ∀ f ∈ found, ∀ i node mask world2obj obj2world,
          f.prim = .inst i node mask world2obj obj2world →
            ∃ prim ∈ geometries.accepted quadification, ∃ info,
              i = Fin.castLE maxGeometries_le_instanceIndex prim.geomID ∧
              geometries.get prim.geomID = some (.inst info) ∧
              ∀ hit : LeafHit rtasFormat,
                hit.instLeafPtr = storedLeafPtr rtasFormat (base + BitVec.ofNat 64 f.addr) →
                  TransformsTold g hit info prim.bounds obj2world world2obj := by
  obtain ⟨n, hvisited⟩ := hprims.visited
    (fun prim hprim => Geometries.describes rtasFormat heuristic hlength hprim)
    hindex hcovered hopened hend hrun hv
  refine ⟨n, fun steps hsteps test rayMask htest => ?_⟩
  obtain ⟨found, hfound, hfinds, hholds⟩ := hvisited steps hsteps test rayMask htest
  refine ⟨found, hfound, fun f hf i node mask world2obj obj2world hinst => ?_⟩
  obtain ⟨-, prim, hprim, part, hpart, hleaf⟩ := hfinds.sound _ (List.mem_map_of_mem hf)
  obtain ⟨htype, hi, hisinst⟩ := hpart.isInstance (hinst.symm.trans hleaf)
  obtain ⟨info, hget, hlocal, hbox⟩ :=
    Geometries.exists_instance rtasFormat heuristic hlength hprim htype
  have hinstance : ((geometries.builder quadification rtasFormat heuristic).getInstance
      prim.geomID).local2world = geometries.local2world prim.geomID := by
    simp only [Geometries.builder, hget]
  rw [← hleaf] at hisinst
  have htold := fun hit (hhit : LeafHit.instLeafPtr hit = _) =>
    Found.instance_told (hprims.leaves hrun hv) hplaced (hholds f hf) hisinst hhit
  obtain ⟨node', mask', heq⟩ := hisinst
  obtain ⟨-, -, -, hworld, hobj⟩ := LeafPrim.inst.inj (hinst.symm.trans heq)
  rw [hinstance] at hworld hobj
  refine ⟨prim, hprim, info, hi, hget, fun hit hhit => ?_⟩
  rw [hworld, hobj]
  refine ⟨hlocal, ?_, ?_, fun hdet x => ?_, fun hdet b hb box => ?_⟩
  · rw [(htold hit hhit).objectToWorld, hinstance]
  · rw [(htold hit hhit).worldToObject, hinstance]
  · exact ⟨AffineSpace3f.rcp_xfmPoint hdet x, AffineSpace3f.xfmPoint_rcp hdet x⟩
  · exact AffineSpace3f.xfmBounds_le_iff hdet (hbox b hb)

end scene

section fold

/-- Memory that is copied to an address. -/
theorem placed_copy {m : Nat → Option Cell} {endBytes : Nat} {base : BitVec 64} (hne : base ≠ 0)
    (haligned : base.toNat % 64 = 0) (hlow : base.toNat + endBytes ≤ 2 ^ 47)
    (hinside : ∀ addr cell, m addr = some cell → addr + 64 ≤ endBytes) :
    Placed format m endBytes base (fun ptr => m (ptr - base).toNat) := by
  refine ⟨hne, haligned, by omega, fun _ => hlow, fun addr cell hm => ?_⟩
  have hle := hinside addr cell hm
  have hsub : base + BitVec.ofNat 64 addr - base = BitVec.ofNat 64 addr := by
    rw [BitVec.add_comm, BitVec.add_sub_cancel]
  change m _ = _
  rw [hsub, BitVec.toNat_ofNat, Nat.mod_eq_of_lt (by omega), hm]

def foldInfo : TrianglesInfo where
  geometryFlags := 0
  geometryMask := 1
  triangleFormat := triangleIndicesUint32
  vertexFormat := float3
  triangleCount := 2
  vertexCount := 4
  triangleBuffer := some (fun i => if i = 0 then ⟨0, 1, 2⟩ else ⟨2, 1, 3⟩)
  vertexBuffer := some (fun i =>
    .ofVec3f (if i % 2 = 1 then 1 else 0, if 2 ≤ i then 1 else 0, if i = 3 then 1 else 0))

def foldScene : Geometries := [some (.triangles foldInfo)]

def foldQuads (geomID : Nat) : Nat → Nat :=
  if geomID = 0 then (quadify foldInfo.geometry [(0, 2)] (fun _ => 0)).getD (fun _ => 0) else fun _ => 0

def foldBuilder : BuilderT := foldScene.builder foldQuads .version1 .median

theorem foldScene_quadified : Quadified foldScene foldQuads := by
  intro geomID info hget
  cases geomID with
  | zero =>
      cases hget
      refine ⟨[2], [(0, 2)], rfl, List.Perm.refl _, ?_⟩
      have horder : [(0, 2)].Perm (ranges 0 [2]) := List.Perm.refl _
      obtain ⟨quads, matching, hquads, -⟩ := quadify_ranges foldInfo.geometry horder (fun _ => 0)
      rw [foldQuads, if_pos rfl, hquads]
      rfl
  | succ n => cases hget

theorem foldScene_type (geomID : Fin maxGeometries) : foldBuilder.getType geomID = .triangle := by
  obtain ⟨n, hn⟩ := geomID
  cases n with
  | zero => rfl
  | succ n => rfl

def foldBvhs : InstancedBvhs foldBuilder foldScene.local2world where
  heapOps := .sorted Item.priority
  halfArea _ := 1
  bvh geomID h := absurd (h.symm.trans (foldScene_type geomID)) (by decide)

theorem exists_foldBuild : ∃ (prims : Nat → PrimRef) (pinfo : PrimInfo) (t : List BuildEvent)
    (v : ReductionTy) (cur : Nat), Prepared foldQuads foldBvhs .low ⟨false, false⟩ prims pinfo ∧
      BufferRun 16384 (build foldBuilder 30 prims pinfo.toRange) 0 t (.ret v) cur ∧
      v.valid = true := by
  have hsize : numPrimitives foldScene.scene ≤ 2 ^ 32 := show 2 ≤ 2 ^ 32 by norm_num
  obtain ⟨prims, pinfo, hprims⟩ : ∃ prims pinfo,
      Prepared foldQuads foldBvhs .low ⟨false, false⟩ prims pinfo :=
    exists_prepared _ foldBvhs (fun _ => hsize)
  obtain ⟨hlist, hroot⟩ := hprims.rootRecord_eq
  have hprims2 : (rootRecord pinfo.toRange).size ≤ 2 := by
    have hinside := hprims.size_le (fun _ => hsize)
    have hlength := congrArg List.length hlist
    rw [BuildRecord.length_list, Segment.length_slice, Nat.sub_zero] at hlength
    exact hlength.trans_le hinside
  have hbytes : builtBytes foldBuilder 30 prims pinfo.toRange < 16384 := by
    refine (builtBytes_le (fun prim _ => foldScene_type prim.geomID) hroot).trans_lt ?_
    simp only [leafBytes, headerBytes, nodeBytes, nodesBelow]
    omega
  obtain ⟨t, v, cur, hrun, hv⟩ := exists_valid_build le_rfl hroot (by omega) hbytes
  exact ⟨prims, pinfo, t, v, cur, hprims, hrun, hv⟩

theorem foldScene_accepted :
    ∃ prim ∈ foldScene.accepted foldQuads, prim.geomID = 0 ∧ prim.primID = 0 := by
  have hpair : (foldScene.createPrimRef foldQuads 0 0).isSome = true := by decide +kernel
  have hpartner : foldScene.createPrimRef foldQuads 0 1 = none := by decide +kernel
  obtain ⟨prim, hprim⟩ := Option.isSome_iff_exists.1 hpair
  have hlist : foldScene.accepted foldQuads = [prim] := by
    change [(0, 0), (0, 1)].filterMap
      (fun p => foldScene.createPrimRef foldQuads p.1 p.2) = [prim]
    simp only [List.filterMap_cons, hprim, hpartner, List.filterMap_nil]
  refine ⟨prim, hlist ▸ List.mem_singleton_self _, ?_⟩
  have hids : (foldScene.createPrimRef foldQuads 0 0).map (fun p => (p.geomID, p.primID)) =
      some (0, 0) := by decide +kernel
  rw [hprim] at hids
  exact Prod.mk.inj (Option.some.inj hids)

theorem first_mem_shape {prim : PrimRef} (h : b.getType prim.geomID = .triangle) :
    (b.getTriangle prim.geomID prim.primID).p0 ∈ shape b prim := by
  have hfirst : (b.getTriangle prim.geomID prim.primID).p0 ∈
      (b.getTriangle prim.geomID prim.primID).surface :=
    subset_convexHull ℚ _ (Set.mem_insert _ _)
  simp only [shape, h, pairSurface]
  split
  · exact Or.inl hfirst
  · exact hfirst

theorem query_reports_fold : ∃ (t : List BuildEvent) (g : GlobalMemory) (n : Nat) (found : List Found),
    visit (memory t) origin 1 n ⟨headerBytes, .internal, 0⟩ = some found ∧
      ∃ f ∈ found, (f.hits (memory t) .version1 4096 0).map (hitReport g) =
        [some ⟨0, 0, some ((0, 0, 0), (1, 0, 0), (0, 1, 0))⟩,
          some ⟨0, 1, some ((0, 1, 0), (1, 0, 0), (1, 1, 1))⟩] := by
  obtain ⟨prims, pinfo, t, v, cur, hprims, hrun, hv⟩ := exists_foldBuild
  obtain ⟨-, hroot⟩ := hprims.rootRecord_eq
  have hplaced : Placed .version1 (memory t) 16384 4096 (fun ptr => memory t (ptr - 4096).toNat) :=
    placed_copy (by decide) (by decide) (by decide)
      (fun addr cell hm => (build_inside hroot hrun hv hm).2)
  have hnone : ∀ {P : Prop}, useSpatialSplits .low ⟨false, false⟩ = true → P := fun h => by cases h
  obtain ⟨n, hn⟩ := query_reports foldScene foldQuads .version1 .median .low ⟨false, false⟩ foldBvhs
    prims pinfo 30 16384 t v cur 4096 _ (by decide) hnone hnone hnone foldScene_quadified hprims
    (by norm_num) hrun hv hplaced
  obtain ⟨found, hfound, hfinds⟩ := hn n le_rfl origin 1 meetsLarger_origin
  obtain ⟨⟨bounds, geomID, primID⟩, hprim, hgeomID, hprimID⟩ := foldScene_accepted
  obtain rfl : geomID = 0 := hgeomID
  obtain rfl : primID = 0 := hprimID
  have hpoint : (foldBuilder.getTriangle 0 0).p0 ∈ shape foldBuilder ⟨bounds, 0, 0⟩ :=
    first_mem_shape (foldScene_type 0)
  have hp0 : (foldBuilder.getTriangle 0 0).p0 = (0, 0, 0) := by decide +kernel
  rw [hp0] at hpoint
  have htype : foldBuilder.getType 0 ≠ .inst := by decide
  have hpasses : passes 1 (leafPrim foldBuilder ⟨.pure (0, 0, 0), 0, 0⟩).geomMask = true := by
    decide +kernel
  obtain ⟨f, hf, htold⟩ := hfinds.shapes _ hprim htype hpasses (0, 0, 0) hpoint
    (fun box hbox => decide_eq_true hbox)
  -- what is told does not depend on the box
  have hreports : reports foldBuilder ⟨.pure (0, 0, 0), 0, 0⟩ =
      [⟨0, 0, some ((0, 0, 0), (1, 0, 0), (0, 1, 0))⟩,
        ⟨0, 1, some ((0, 1, 0), (1, 0, 0), (1, 1, 1))⟩] := by
    decide +kernel
  exact ⟨t, _, n, found, hfound, f, hf, (htold.hits 0).trans (congrArg (List.map some) hreports)⟩

end fold

theorem instance_transforms_origin : ∃ (t : List BuildEvent) (g : GlobalMemory) (n : Nat)
    (found : List Found), visit (memory t) origin 1 n ⟨headerBytes, .internal, 0⟩ = some found ∧
      ∃ f ∈ found, ∃ prim ∈ originScene.accepted (fun _ _ => 0), ∀ hit : LeafHit .version1,
        hit.instLeafPtr = storedLeafPtr .version1 (4096 + BitVec.ofNat 64 f.addr) →
          TransformsTold g hit originInfo prim.bounds originTurn originTurn.rcp := by
  obtain ⟨prims, pinfo, t, v, cur, hprims, hrun, hv⟩ := exists_originBuild
  have hplaced : Placed .version1 (memory t) 16384 4096 (fun ptr => memory t (ptr - 4096).toNat) :=
    placed_copy (by decide) (by decide) (by decide)
      (fun addr cell hm => ((hprims.leaves hrun hv).inside addr cell hm).2)
  obtain ⟨n, hn⟩ := instance_transforms originScene (fun _ _ => 0) .version1 .median .high
    ⟨false, false⟩ originBvhs prims pinfo 30 16384 t v cur 4096 _ (by decide)
    (fun _ => originScene_size) (fun _ _ hprim => originScene_covered hprim)
    (fun _ => originBvhs_allBounded) hprims (by norm_num) hrun hv hplaced
  obtain ⟨n', hn'⟩ := hprims.search
    (fun prim hprim => Geometries.describes .version1 .median (by decide) hprim)
    (fun _ => originScene_size) (fun _ _ hprim => originScene_covered hprim)
    (fun _ => originBvhs_allBounded) (by norm_num) hrun hv
  obtain ⟨found, hfound, htold⟩ := hn (max n n') (le_max_left _ _) origin 1 meetsLarger_origin
  obtain ⟨all, hall, hfinds⟩ := hn' (max n n') (le_max_right _ _) origin 1 meetsLarger_origin
  rw [← map_visit, hfound] at hall
  cases hall
  obtain ⟨node, -, -, hnode⟩ := originScene_finds hfinds
  obtain ⟨f, hf, hleaf⟩ := List.mem_map.1 hnode
  obtain ⟨prim, hprim, info, -, hget, hhit⟩ := htold f hf _ _ _ _ _ hleaf
  rw [originScene_inst (originScene_type hprim)] at hget
  cases hget
  exact ⟨t, _, max n n', found, hfound, f, hf, prim, hprim, hhit⟩

end RTBuild
