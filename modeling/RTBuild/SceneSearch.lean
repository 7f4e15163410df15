import RTBuild.Priority
import RTBuild.Traversal

namespace RTBuild

open InternalNode Library Library.Segment OpenInstance
open Library.Chunk (store)

section prepare

variable {geometries : Geometries} {b : BuilderT} (quadification : Nat → Nat → Nat)
  (bvhs : InstancedBvhs b geometries.local2world) (quality : BuildQuality) (flags : BuildFlags)

/-- The primitives of described geometries that the hierarchy gets built over. -/
inductive Prepared : (Nat → PrimRef) → PrimInfo → Prop
  | generated (gen : Generation geometries.scene)
      (haccept : gen.outcome.accept = geometries.createPrimRef quadification)
      (h : presplits quality flags gen.pinfo = false) : Prepared gen.prims gen.pinfo
  | presplit (gen : Generation geometries.scene)
      (haccept : gen.outcome.accept = geometries.createPrimRef quadification)
      (h : presplits quality flags gen.pinfo = true) (c : Presplitting)
      (hcall : CallsSplitter1 bvhs gen c) (r : PresplitResult) (hrun : c.Run (some r)) :
      Prepared (store c.prims r.trace) r.pinfo

/-- Some primitives are the parts of others, and have all that those need. -/
structure Assembles (created list : List PrimRef) : Prop where
  part : ∀ part ∈ list, ∃ prim ∈ created, bvhs.Part prim part
  parts : ∀ prim ∈ created, ∃ parts ⊆ list, PartsOf bvhs prim parts

variable {quadification bvhs quality flags} {prims : Nat → PrimRef} {pinfo : PrimInfo}

theorem Prepared.created (h : Prepared quadification bvhs quality flags prims pinfo) :
    ∃ gen : Generation geometries.scene,
      gen.Created quality flags true (numPrimitives geometries.scene) prims pinfo := by
  cases h with
  | generated gen haccept h => exact ⟨gen, .generated h⟩
  | presplit gen haccept h c hcall r hrun =>
      exact ⟨gen, .presplit h c hcall.call r hrun (fun hfalse => by cases hfalse)⟩

theorem Prepared.size_le (h : Prepared quadification bvhs quality flags prims pinfo)
    (hindex : useSpatialSplits quality flags = true → numPrimitives geometries.scene ≤ 2 ^ 32) :
    pinfo.size ≤ numPrimitives geometries.scene := by
  obtain ⟨gen, hcreated⟩ := h.created
  have hindexed : Indexed quality flags gen := fun hsplits => gen.size_le.trans (hindex hsplits)
  exact ((storesInside (fun _ => hindexed)).splitting _ _ hcreated).1

theorem accepted_eq {gen : Generation geometries.scene}
    (h : gen.outcome.accept = geometries.createPrimRef quadification) :
    slice gen.prims 0 gen.pinfo.size = geometries.accepted quadification := by
  rw [gen.spec.2.2, Generation.accepted, h, Geometries.accepted]

theorem assembles_whole {created : List PrimRef} (h : ∀ prim ∈ created, geometries.Describes b prim) :
    Assembles bvhs created created where
  part part hpart := ⟨part, hpart, .piece part (.refl part)⟩
  parts prim hprim :=
    ⟨[prim], List.cons_subset.2 ⟨hprim, List.nil_subset _⟩, partsOf_whole (h prim hprim)⟩

theorem assembles_split {c : Presplitting} {ids : List Nat} {r : PresplitResult}
    (hsplits : c.Splits ids r)
    (hwhole : ∀ i < c.numPrimitives, geometries.Describes b (c.prims i))
    (hparts : ∀ i ∈ ids, PartsOf bvhs (c.prims i) (c.pieces i)) :
    Assembles bvhs (slice c.prims 0 c.numPrimitives) (slice (store c.prims r.trace) 0 r.pinfo.size) := by
  have hmem : ∀ part, part ∈ slice (store c.prims r.trace) 0 r.pinfo.size ↔
      (∃ i < c.numPrimitives, i ∉ ids ∧ c.prims i = part) ∨ ∃ i ∈ ids, part ∈ c.pieces i := by
    intro part
    rw [hsplits.size_pinfo, hsplits.multiset.mem_iff, List.mem_append, List.mem_map, List.mem_flatMap]
    simp only [List.mem_filter, List.mem_range, decide_eq_true_eq, and_assoc]
  have hslice : ∀ prim, prim ∈ slice c.prims 0 c.numPrimitives ↔
      ∃ i < c.numPrimitives, c.prims i = prim := by
    intro prim
    simp [slice]
  constructor
  · intro part hpart
    rcases (hmem part).1 hpart with ⟨i, hi, -, rfl⟩ | ⟨i, hi, hpiece⟩
    · exact ⟨_, (hslice _).2 ⟨i, hi, rfl⟩, .piece _ (.refl _)⟩
    · exact ⟨_, (hslice _).2 ⟨i, (hsplits.chosen i hi).1, rfl⟩, (hparts i hi).part part hpiece⟩
  · intro prim hprim
    obtain ⟨i, hi, rfl⟩ := (hslice prim).1 hprim
    by_cases hchosen : i ∈ ids
    · exact ⟨c.pieces i, fun part hpart => (hmem part).2 (Or.inr ⟨i, hchosen, hpart⟩), hparts i hchosen⟩
    · have hprim := (hmem (c.prims i)).2 (Or.inl ⟨i, hi, hchosen, rfl⟩)
      exact ⟨[c.prims i], List.cons_subset.2 ⟨hprim, List.nil_subset _⟩, partsOf_whole (hwhole i hi)⟩

/-- The hierarchy is built over parts of what the geometries yield. -/
theorem Prepared.assembles (h : Prepared quadification bvhs quality flags prims pinfo)
    (hdescribes : ∀ prim ∈ geometries.accepted quadification, geometries.Describes b prim)
    (hindex : useSpatialSplits quality flags = true → numPrimitives geometries.scene ≤ 2 ^ 32)
    (hcovered : useSpatialSplits quality flags = true →
      ∀ prim ∈ geometries.accepted quadification, QuadCovered b prim) :
    Assembles bvhs (geometries.accepted quadification) (slice prims 0 pinfo.size) := by
  cases h with
  | generated gen haccept h =>
      rw [accepted_eq haccept]
      exact assembles_whole hdescribes
  | presplit gen haccept h c hcall r hrun =>
      rw [presplits, Bool.and_eq_true, decide_eq_true_eq] at h
      have hle := hindex h.1
      have hsize : c.numPrimitives = gen.pinfo.size := congrArg PrimInfo.size hcall.call.pinfo_eq
      have hgen := gen.size_le
      have hbudget : c.numSplitPrimitivesBudget = numPrimitives geometries.scene - gen.pinfo.size := by
        rw [Presplitting.numSplitPrimitivesBudget, hcall.call.size_eq, hsize]
      obtain ⟨r', ids, hr', hsplits⟩ :=
        Presplitting.preserves_of_lt (c := c) (by omega) (by omega) _ hrun
      obtain rfl := Option.some.inj hr'
      have hslice : slice c.prims 0 c.numPrimitives = geometries.accepted quadification := by
        rw [hsize, hcall.call.prims_eq, accepted_eq haccept]
      have hmem : ∀ i < c.numPrimitives, c.prims i ∈ geometries.accepted quadification := by
        intro i hi
        rw [← hslice]
        simp only [slice, List.mem_map, List.mem_range'_1]
        exact ⟨i, by omega, rfl⟩
      rw [← hslice]
      apply assembles_split hsplits (fun i hi => hdescribes _ (hmem i hi))
      intro i hi
      obtain ⟨hi, hsplit⟩ := hsplits.chosen i hi
      have hne : geometries.accepted quadification ≠ [] := List.ne_nil_of_mem (hmem i hi)
      obtain ⟨bounds, hunion, -, hinside⟩ :=
        exists_unionBounds hne (fun prim hprim => (hdescribes prim hprim).bounded)
      have hgeom : gen.pinfo.geomBounds = bounds := by
        rw [← hunion, ← accepted_eq haccept, ← (PrimInfo.ofList_fields _).1, ← gen.pinfo_eq]
      rw [Presplitting.pieces, hcall.func_eq bounds hgeom]
      apply partsOf_splitter1 (c.splitprims_pos i) (c.splitprims_le i) (hdescribes _ (hmem i hi))
        (hinside _ (hmem i hi))
        (hcovered h.1 _ (hmem i hi))
      intro hprocedural
      rw [Presplitting.toNat_splitprims, hcall.procedural hgeom hi hprocedural] at hsplit
      exact absurd hsplit (by decide)

theorem bounded_mono {box box' : NonemptyInterval Vec3f} (h : Bounded box') (hle : box ≤ box') :
    Bounded box := by
  intro dim
  have hlower := component_le hle.1 dim
  have hupper := component_le hle.2 dim
  have hmid := component_le box.fst_le_snd dim
  obtain ⟨hfst, hsnd⟩ := h dim
  rw [abs_lt] at hfst hsnd ⊢
  rw [abs_lt]
  exact ⟨⟨by linarith, by linarith⟩, by linarith, by linarith⟩

def InstancedBvhs.AllBounded {local2world : Fin maxGeometries → AffineSpace3f}
    (bvhs : InstancedBvhs b local2world) : Prop :=
  ∀ geomID h, ∀ node ∈ (bvhs.bvh geomID h).root.nodes, Bounded (openedBounds (local2world geomID) node)

theorem Prepared.allBounded (h : Prepared quadification bvhs quality flags prims pinfo)
    (hdescribes : ∀ prim ∈ geometries.accepted quadification, geometries.Describes b prim)
    (hassembles : Assembles bvhs (geometries.accepted quadification) (slice prims 0 pinfo.size))
    (hopened : useSpatialSplits quality flags = true → bvhs.AllBounded) :
    AllBounded (slice prims 0 pinfo.size) := by
  cases h with
  | generated gen haccept h =>
      rw [accepted_eq haccept]
      exact fun prim hprim => (hdescribes prim hprim).bounded
  | presplit gen haccept h c hcall r hrun =>
      rw [presplits, Bool.and_eq_true] at h
      intro part hpart
      obtain ⟨prim, hprim, hpart⟩ := hassembles.part part hpart
      cases hpart with
      | piece part hpiece => exact bounded_mono (hdescribes prim hprim).bounded hpiece.bounds_le
      | opened htype node hnode => exact hopened h.1 _ htype node hnode

theorem Prepared.rootRecord_eq (h : Prepared quadification bvhs quality flags prims pinfo) :
    (rootRecord pinfo.toRange).list prims = slice prims 0 pinfo.size ∧
      (rootRecord pinfo.toRange).bounds = unionBounds ((rootRecord pinfo.toRange).list prims) := by
  obtain ⟨hbounds, hbegin, hlast⟩ := PrimInfo.ofList_fields (slice prims 0 pinfo.size)
  obtain ⟨gen, hcreated⟩ := h.created
  rw [← hcreated.pinfo_eq] at hbounds hbegin hlast
  rw [Segment.length_slice, Nat.sub_zero] at hlast
  have hlist : (rootRecord pinfo.toRange).list prims = slice prims 0 pinfo.size := by
    change slice prims pinfo.begin_ pinfo.end_ = _
    rw [hbegin, hlast]
  exact ⟨hlist, hbounds.trans (congrArg unionBounds hlist.symm)⟩

end prepare

section search

variable {geometries : Geometries} {b : BuilderT} (quadification : Nat → Nat → Nat)
  (bvhs : InstancedBvhs b geometries.local2world) (test : Vec3f × Vec3f → Bool) (rayMask : BitVec 8)

def Through (x : Vec3f) : Prop :=
  ∀ box : NonemptyInterval Vec3f, x ∈ box → test (box.fst, box.snd) = true

/-- What a ray finds in a scene. A primitive that it goes through is found as it is, and a leaf of an
instance below one of the start nodes that are found. -/
structure SceneFinds (found : List LeafPrim) : Prop where
  shapes : ∀ prim ∈ geometries.accepted quadification, b.getType prim.geomID ≠ .inst →
    passes rayMask (leafPrim b prim).geomMask = true → ∀ x ∈ shape b prim, Through test x →
      leafPrim b prim ∈ found
  instances : ∀ prim ∈ geometries.accepted quadification, ∀ h : b.getType prim.geomID = .inst,
    passes rayMask (b.getInstance prim.geomID).imask = true → ∀ y leaf,
      geometries.HasLocal prim.geomID y → (bvhs.bvh prim.geomID h).root.Reaches y leaf →
      Through test ((geometries.local2world prim.geomID).xfmPoint y) →
      ∃ node ∈ (bvhs.bvh prim.geomID h).root.nodes, node.Reaches y leaf ∧
        .inst (Fin.castLE maxGeometries_le_instanceIndex prim.geomID)
          (storedStartNode b.rtasFormat node.addr) (b.getInstance prim.geomID).imask
          (b.getInstance prim.geomID).local2world.rcp (b.getInstance prim.geomID).local2world ∈ found
  sound : ∀ leaf ∈ found, passes rayMask leaf.geomMask = true ∧
    ∃ prim ∈ geometries.accepted quadification, ∃ part, bvhs.Part prim part ∧ leaf = leafPrim b part

variable {quadification bvhs test rayMask}

theorem leafPrim_piece {prim part : PrimRef} (h : PieceOf prim part) :
    leafPrim b part = leafPrim b prim := by
  rw [leafPrim, h.geomID_eq, h.primID_eq, ← leafPrim]

theorem Finds.mem {list : List PrimRef} {found : List LeafPrim} (h : Finds b test rayMask list found)
    {prim : PrimRef} (hprim : prim ∈ list) {x : Vec3f} (hx : x ∈ prim.bounds) (hray : Through test x)
    (hpasses : passes rayMask (leafPrim b prim).geomMask = true) : leafPrim b prim ∈ found := by
  have hhits : hits b test rayMask prim = true := Bool.and_eq_true_iff.2 ⟨hray _ hx, hpasses⟩
  exact h.complete.subset (List.mem_map_of_mem (List.mem_filter.2 ⟨hprim, hhits⟩))

theorem Finds.scene {list : List PrimRef} {found : List LeafPrim}
    (h : Finds b test rayMask list found)
    (hlist : Assembles bvhs (geometries.accepted quadification) list) :
    SceneFinds quadification bvhs test rayMask found where
  shapes prim hprim htype hpasses x hx hray := by
    obtain ⟨parts, hparts, hof⟩ := hlist.parts prim hprim
    obtain ⟨part, hpart, hpiece, hinside⟩ := hof.shape htype x hx
    rw [← leafPrim_piece hpiece] at hpasses ⊢
    exact h.mem (hparts hpart) hinside hray hpasses
  instances prim hprim htype hpasses y leaf hlocal hreaches hray := by
    obtain ⟨parts, hparts, hof⟩ := hlist.parts prim hprim
    obtain ⟨part, hpart, node, hnode, hinside, hbelow, hgeomID, hroot⟩ :=
      hof.leaves htype y leaf hlocal hreaches
    have hleaf : leafPrim b part = .inst (Fin.castLE maxGeometries_le_instanceIndex prim.geomID)
        (storedStartNode b.rtasFormat node.addr) (b.getInstance prim.geomID).imask
        (b.getInstance prim.geomID).local2world.rcp (b.getInstance prim.geomID).local2world := by
      rw [leafPrim, hgeomID, htype, hroot]
    refine ⟨node, hnode, hbelow, ?_⟩
    rw [← hleaf]
    apply h.mem (hparts hpart) hinside hray
    rw [hleaf]
    exact hpasses
  sound leaf hleaf := by
    obtain ⟨hmem, hpasses⟩ := List.mem_filter.1 (h.sound.subset hleaf)
    obtain ⟨part, hpart, rfl⟩ := List.mem_map.1 hmem
    obtain ⟨prim, hprim, hof⟩ := hlist.part part hpart
    exact ⟨hpasses, prim, hprim, part, hof, rfl⟩

/-- A build over what a scene is prepared to serves all rays through the scene. -/
theorem Prepared.search {quality : BuildQuality} {flags : BuildFlags} {prims : Nat → PrimRef}
    {pinfo : PrimInfo} {fuel endBytes cur : Nat} {t : List BuildEvent} {v : ReductionTy}
    (hprims : Prepared quadification bvhs quality flags prims pinfo)
    (hdescribes : ∀ prim ∈ geometries.accepted quadification, geometries.Describes b prim)
    (hindex : useSpatialSplits quality flags = true → numPrimitives geometries.scene ≤ 2 ^ 32)
    (hcovered : useSpatialSplits quality flags = true →
      ∀ prim ∈ geometries.accepted quadification, QuadCovered b prim)
    (hopened : useSpatialSplits quality flags = true → bvhs.AllBounded) (hend : endBytes ≤ 2 ^ 37)
    (hrun : BufferRun endBytes (build b fuel prims pinfo.toRange) 0 t (.ret v) cur)
    (hv : v.valid = true) :
    ∃ n, ∀ steps, n ≤ steps → ∀ test rayMask, MeetsLarger test →
      ∃ found, traverse (memory t) test rayMask steps ⟨headerBytes, .internal, 0⟩ = some found ∧
        SceneFinds quadification bvhs test rayMask found := by
  have hassembles := hprims.assembles hdescribes hindex hcovered
  obtain ⟨hlist, hroot⟩ := hprims.rootRecord_eq
  have hbounded := hprims.allBounded hdescribes hassembles hopened
  rw [← hlist] at hbounded
  obtain ⟨n, htraverse⟩ := (build_built hroot hend hrun hv).traverse
    (fun addr node hm => build_conservative hroot hbounded hrun hv hm)
  rw [hlist] at htraverse
  refine ⟨n, fun steps hsteps test rayMask htest => ?_⟩
  obtain ⟨found, hfound, hfinds⟩ := htraverse steps hsteps test rayMask htest
  exact ⟨found, hfound, hfinds.scene hassembles⟩

end search

section point

variable {geometries : Geometries} {b : BuilderT} (quadification : Nat → Nat → Nat)
  (bvhs : InstancedBvhs b geometries.local2world) {quality : BuildQuality} {flags : BuildFlags}

/-- All scenes can be prepared. -/
theorem exists_prepared
    (hindex : useSpatialSplits quality flags = true → numPrimitives geometries.scene ≤ 2 ^ 32) :
    ∃ prims pinfo, Prepared quadification bvhs quality flags prims pinfo := by
  obtain ⟨gen, haccept⟩ := Generation.exists_accepting geometries.scene
    (geometries.createPrimRef quadification) (fun _ => ⟨.pure (0, 0, 0), 0, 0⟩)
  cases h : presplits quality flags gen.pinfo with
  | false => exact ⟨_, _, .generated gen haccept h⟩
  | true =>
      obtain ⟨grid, hgrid⟩ : ∃ grid, ∀ bounds : NonemptyInterval Vec3f,
          gen.pinfo.geomBounds = bounds → grid = SplittingGrid.ofBounds bounds := by
        cases gen.pinfo.geomBounds with
        | none => exact ⟨.ofBounds (.pure (0, 0, 0)), fun _ heq => (by cases heq)⟩
        | some bounds => exact ⟨.ofBounds bounds, fun _ heq => by rw [WithBot.coe_injective heq]⟩
      let c : Presplitting :=
        { func := bvhs.func grid
          stdSort := .mergeSort PresplitItem.data
          threadCount := 1
          threadCount_pos := Nat.one_pos
          prims := gen.prims
          numPrimitivesExt := numPrimitives geometries.scene
          pinfo := gen.pinfo
          room := gen.size_le
          splitLog := fun i => splitLogOf (numPrimitives geometries.scene - gen.pinfo.size)
            (priority .ofRat b grid (gen.prims i))
            (prioritySum .ofRat b grid gen.prims gen.pinfo.size) }
      have hsplit := h
      rw [presplits, Bool.and_eq_true, decide_eq_true_eq] at hsplit
      have hle := hindex hsplit.1
      have hsize : c.numPrimitives = gen.pinfo.size := rfl
      have hgen := gen.size_le
      have hbudget : c.numSplitPrimitivesBudget = numPrimitives geometries.scene - gen.pinfo.size := rfl
      obtain ⟨r, hrun⟩ := c.exists_run
      obtain ⟨r, ids, rfl, -⟩ := Presplitting.preserves_of_lt (by omega) (by omega) r hrun
      exact ⟨_, _, .presplit gen haccept h c ⟨⟨rfl, rfl, rfl⟩,
        fun bounds hbounds => by rw [← hgrid bounds hbounds],
        .ofRat, fun bounds hbounds i _ => by rw [← hgrid bounds hbounds]; rfl⟩ r hrun⟩

def originNode (type : NodeType) (numChildren : Nat) : InternalNode :=
  { plainNode type numChildren with
    lowerY := fun _ => 0
    lowerZ := fun _ => 0 }

def originRoot : BvhNode :=
  .inner 192 (originNode .internal 2)
    (fun i => .fatLeaf (192 + 64 + 64 * BitVec.ofNat 64 i) (originNode .quad 6))

def originTurn : AffineSpace3f := ⟨⟨(0, 2, 0), (-2, 0, 0), (0, 0, 2)⟩, (0, 0, 0)⟩

def originBvh : InstancedBvh ⟨originTurn, 64, 1, 0⟩ (fun _ => 1) where
  root := originRoot
  root_addr := rfl
  wellFormed := by
    refine ⟨rfl, fun i _ => ⟨?_, rfl⟩⟩
    fin_cases i <;> rfl
  separate := by decide +kernel
  inRange := by decide +kernel
  openable := by
    have hchildren : ∀ node ∈ originRoot.nodes, node.data.isFatLeaf = false →
        0 < node.children.length := by decide +kernel
    exact fun node hnode hinner _ => List.ne_nil_of_length_pos (hchildren node hnode hinner)

def originInfo : InstanceInfo where
  geometryMask := 1
  transformFormat := 1
  instanceUserID := 0
  transform := some (fun i => .num (if i = 1 ∨ i = 8 then 2 else if i = 3 then -2 else 0))
  bounds := some (.ofVec3f (0, 0, 0), .ofVec3f (1, 1, 1))
  accelerationStructure := 64

def originScene : Geometries :=
  [some (.inst originInfo),
    some (.quads ⟨0, 1, quadIndicesUint32, float3, 1, 0, some (fun _ => ⟨0, 1, 2, 3⟩), none⟩)]

def originBuilder : BuilderT := originScene.builder (fun _ _ => 0) .version1 .median

theorem originScene_inst {geomID : Fin maxGeometries} (h : originBuilder.getType geomID = .inst) :
    geomID = 0 := by
  obtain ⟨n, hn⟩ := geomID
  cases n with
  | zero => rfl
  | succ n =>
      cases n with
      | zero => cases h
      | succ n => cases h

def originBvhs : InstancedBvhs originBuilder originScene.local2world where
  heapOps := .sorted Item.priority
  halfArea _ := 1
  bvh _ h := originScene_inst h ▸ originBvh

theorem originScene_accepted : ∃ prim ∈ originScene.accepted (fun _ _ => 0),
    prim.geomID = 0 ∧ originScene.accepted (fun _ _ => 0) = [prim] := by
  have hinst : (originScene.createPrimRef (fun _ _ => 0) 0 0).isSome = true := by decide +kernel
  have hquad : originScene.createPrimRef (fun _ _ => 0) 1 0 = none := by decide +kernel
  obtain ⟨prim, hprim⟩ := Option.isSome_iff_exists.1 hinst
  have hlist : originScene.accepted (fun _ _ => 0) = [prim] := by
    change [(0, 0), (1, 0)].filterMap
      (fun p => originScene.createPrimRef (fun _ _ => 0) p.1 p.2) = [prim]
    simp only [List.filterMap_cons, hprim, hquad, List.filterMap_nil]
  obtain ⟨bounds, -, rfl⟩ := Option.map_eq_some_iff.1 hprim
  exact ⟨_, hlist ▸ List.mem_singleton_self _, rfl, hlist⟩

theorem originRoot_reaches : originRoot.Reaches (0, 0, 0) 256 := by
  have hvalid : (originNode .internal 2).valid 0 = true := by decide
  have hbounds : (originNode .internal 2).bounds 0 = ((0, 0, 0), (0, 0, 0)) := by decide +kernel
  have hvalid' : (originNode .quad 6).valid 0 = true := by decide
  have hbounds' : (originNode .quad 6).bounds 0 = ((0, 0, 0), (0, 0, 0)) := by decide +kernel
  refine ⟨0, hvalid, ?_, ?_, rfl, 0, hvalid', ?_, ?_⟩
  · rw [hbounds]
  · rw [hbounds]
  · rw [hbounds']
  · rw [hbounds']

theorem originBvhs_allBounded : originBvhs.AllBounded := by
  intro geomID h node hnode
  obtain rfl := originScene_inst h
  have hboxes : ∀ node ∈ originRoot.nodes, openedBounds (originScene.local2world 0) node =
      .pure (0, 0, 0) := by
    decide +kernel
  rw [hboxes node hnode]
  intro dim
  fin_cases dim <;> norm_num [component, fltLarge]

theorem originScene_size : numPrimitives originScene.scene ≤ 2 ^ 32 :=
  show 2 ≤ 2 ^ 32 by norm_num

theorem originScene_type {prim : PrimRef} (h : prim ∈ originScene.accepted (fun _ _ => 0)) :
    originBuilder.getType prim.geomID = .inst := by
  obtain ⟨prim', -, hgeomID, hlist⟩ := originScene_accepted
  rw [hlist, List.mem_singleton] at h
  rw [h, hgeomID]
  rfl

theorem originScene_covered {prim : PrimRef} (h : prim ∈ originScene.accepted (fun _ _ => 0)) :
    QuadCovered originBuilder prim := by
  intro hquad
  rw [originScene_type h] at hquad
  cases hquad

theorem exists_originBuild : ∃ (prims : Nat → PrimRef) (pinfo : PrimInfo) (t : List BuildEvent)
    (v : ReductionTy) (cur : Nat), Prepared (fun _ _ => 0) originBvhs .high ⟨false, false⟩ prims pinfo ∧
      BufferRun 16384 (build originBuilder 30 prims pinfo.toRange) 0 t (.ret v) cur ∧
      v.valid = true := by
  obtain ⟨prims, pinfo, hprims⟩ : ∃ prims pinfo,
      Prepared (fun _ _ => 0) originBvhs .high ⟨false, false⟩ prims pinfo :=
    exists_prepared _ originBvhs (fun _ => originScene_size)
  obtain ⟨hlist, hroot⟩ := hprims.rootRecord_eq
  have hsize : (rootRecord pinfo.toRange).size ≤ 2 := by
    have hinside := hprims.size_le (fun _ => originScene_size)
    have hlength := congrArg List.length hlist
    rw [BuildRecord.length_list, Segment.length_slice, Nat.sub_zero] at hlength
    exact hlength.trans_le hinside
  have hassembles := hprims.assembles
    (fun prim hprim => Geometries.describes .version1 .median (by decide) hprim)
    (fun _ => originScene_size) (fun _ prim hprim => originScene_covered hprim)
  have htype : ∀ prim ∈ (rootRecord pinfo.toRange).list prims,
      originBuilder.getType prim.geomID = .inst := by
    intro part hpart
    rw [hlist] at hpart
    obtain ⟨prim, hprim, hof⟩ := hassembles.part part hpart
    cases hof with
    | piece part hpiece =>
        rw [hpiece.geomID_eq]
        exact originScene_type hprim
    | opened htype node hnode => exact htype
  have hbytes : builtBytes originBuilder 30 prims pinfo.toRange < 16384 := by
    refine (builtBytes_le htype hroot).trans_lt ?_
    simp only [leafBytes, sizeofInstanceLeaf, headerBytes, nodeBytes, nodesBelow]
    omega
  obtain ⟨t, v, cur, hrun, hv⟩ := exists_valid_build le_rfl hroot (by omega) hbytes
  exact ⟨prims, pinfo, t, v, cur, hprims, hrun, hv⟩

theorem originScene_finds {found : List LeafPrim}
    (h : SceneFinds (fun _ _ => 0) originBvhs origin 1 found) :
    ∃ node ∈ originRoot.nodes, node.Reaches (0, 0, 0) 256 ∧
      .inst 0 (storedStartNode .version1 node.addr) 1 originTurn.rcp originTurn ∈ found := by
  obtain ⟨⟨bounds, geomID, primID⟩, hprim, hgeomID, -⟩ := originScene_accepted
  obtain rfl : geomID = 0 := hgeomID
  have hray : Through origin ((originScene.local2world 0).xfmPoint (0, 0, 0)) := by
    have hpoint : (originScene.local2world 0).xfmPoint (0, 0, 0) = 0 := by decide +kernel
    rw [hpoint]
    exact fun box hbox => decide_eq_true hbox
  exact h.instances _ hprim rfl (show passes 1 1 = true by decide) (0, 0, 0) 256
    ⟨(0, 0, 0), (1, 1, 1), rfl, le_rfl, by decide +kernel⟩ originRoot_reaches hray

end point

end RTBuild
