import RTBuild.Priority

namespace RTBuild

open Library
open Library.Chunk (store)
open Library.ParallelFor (slots)
open Library.Segment (slice)
open SizeEstimate (estimateSize)

namespace Presplitting

/-- Two primitives have one index. The first one gets split in two, and then its first piece in as
many as the second primitive is to have. -/
structure Colliding (c : Presplitting) : Prop where
  numPrimitives_eq : c.numPrimitives = 2 ^ 32 + 1
  numPrimitivesExt_eq : c.numPrimitivesExt = 2 ^ 32 + 7
  splitLog_zero : c.splitLog 0 = 1
  splitLog_last : c.splitLog (2 ^ 32) = 3
  splitLog_other : ∀ i < c.numPrimitives, i ≠ 0 → i ≠ 2 ^ 32 → c.splitLog i = 0
  pieces_zero : ∃ left right, c.func.split (c.prims 0) 2 = [left, right] ∧
    (c.func.split left 8).length = 7
  length_pieces : (c.func.split (c.prims 0) 8).length = 5

namespace Colliding

variable {c : Presplitting} (h : c.Colliding)

include h

theorem splitprims_zero : c.splitprims 0 = 2 := by
  rw [splitprims, h.splitLog_zero]
  rfl

theorem splitprims_last : c.splitprims (2 ^ 32) = 8 := by
  rw [splitprims, h.splitLog_last]
  rfl

theorem candidates_perm : c.candidates.Perm [0, 2 ^ 32] := by
  apply (List.perm_ext_iff_of_nodup nodup_candidates (by decide)).2
  intro i
  rw [mem_candidates, h.numPrimitives_eq, List.mem_cons, List.mem_singleton]
  constructor
  · rintro ⟨hlt, hsplit⟩
    by_contra hother
    rw [not_or] at hother
    rw [← h.numPrimitives_eq] at hlt
    rw [toNat_splitprims, h.splitLog_other i hlt hother.1 hother.2] at hsplit
    exact Nat.lt_irrefl 1 hsplit
  · rintro (rfl | rfl)
    · rw [h.splitprims_zero]
      decide
    · rw [h.splitprims_last]
      decide

theorem numSubPrims_zero : c.numSubPrims (c.preSplitItem0 0) = 1 := by
  obtain ⟨left, right, hsplit, -⟩ := h.pieces_zero
  have hpieces : (c.func.split (c.prims (c.preSplitItem0 0).index.toNat)
      (c.preSplitItem0 0).data.toNat).length = 2 := by
    change (c.func.split (c.prims 0) (c.splitprims 0).toNat).length = 2
    rw [h.splitprims_zero]
    exact congrArg List.length hsplit
  rw [numSubPrims, hpieces]
  rfl

/-- The pieces of the first primitive are counted a second time. -/
theorem numSubPrims_last : c.numSubPrims (c.preSplitItem0 (2 ^ 32)) = 4 := by
  have hpieces : (c.func.split (c.prims (c.preSplitItem0 (2 ^ 32)).index.toNat)
      (c.preSplitItem0 (2 ^ 32)).data.toNat).length = 5 := by
    change (c.func.split (c.prims 0) (c.splitprims (2 ^ 32)).toNat).length = 5
    rw [h.splitprims_last]
    exact h.length_pieces
  rw [numSubPrims, hpieces]
  rfl

theorem sort_eq : c.stdSort.sort (slice c.partitioned.array c.center c.numPrimitives) =
    [0, 2 ^ 32].map c.preSplitItem0 := by
  have hperm : (c.stdSort.sort (slice c.partitioned.array c.center c.numPrimitives)).Perm
      ([0, 2 ^ 32].map c.preSplitItem0) :=
    (c.stdSort.perm _).trans (slice_perm_candidates.trans (h.candidates_perm.map _))
  have hzero : (c.preSplitItem0 0).data = 2 := h.splitprims_zero
  have hlast : (c.preSplitItem0 (2 ^ 32)).data = 8 := h.splitprims_last
  have hmem : ∀ x ∈ [0, 2 ^ 32].map c.preSplitItem0, x = c.preSplitItem0 0 ∨
      x = c.preSplitItem0 (2 ^ 32) := by
    intro x hx
    rw [List.map_cons, List.map_singleton, List.mem_cons, List.mem_singleton] at hx
    exact hx
  refine hperm.eq_of_pairwise ?_ (c.stdSort.ordered _) ?_
  · intro x y hx hy hxy hyx
    rcases hmem x (hperm.mem_iff.1 hx) with rfl | rfl <;> rcases hmem y hy with rfl | rfl
    · rfl
    · rw [hzero, hlast] at hyx
      cases hyx
    · rw [hzero, hlast] at hxy
      cases hxy
    · rfl
  · rw [List.map_cons, List.map_singleton, List.pairwise_pair, hzero, hlast]
    rfl

/-- The loop stores to the slot behind the last one. -/
theorem overruns : ∃ r, c.Run (some r) ∧ c.numPrimitivesExt ∈ slots r.trace := by
  have hn := h.numPrimitives_eq
  obtain ⟨left, right, hfirst, hseven⟩ := h.pieces_zero
  have hcenter : 2 = c.numPrimitives - c.center :=
    h.candidates_perm.length_eq.symm.trans length_candidates
  have hlength : (slice c.partitioned.array c.center c.numPrimitives).length ≤ 1024 := by
    rw [Segment.length_slice]
    omega
  have hsorts : RadixSort.Sorts PresplitItem.data c.stdSort 1024 c.threadCount
      (slice c.partitioned.array c.center c.numPrimitives) ([0, 2 ^ 32].map c.preSplitItem0) := by
    rw [RadixSort.Sorts, if_pos hlength]
    exact h.sort_eq.symm
  let t : c.Trial := ⟨[0, 2 ^ 32].map c.preSplitItem0, hsorts, .chunk _, rfl⟩
  have hvalues : t.items.map c.numSubPrims = [1, 4] := by
    rw [← h.numSubPrims_zero, ← h.numSubPrims_last]
    rfl
  have htotal : t.totalNumSubPrims = 5 := by
    have hsum := congrArg (fun values => (values.map BitVec.toNat).sum) hvalues
    rw [List.map_map] at hsum
    exact t.total_sum.trans hsum
  have hbudget : c.numSplitPrimitivesBudget = 6 := by
    rw [numSplitPrimitivesBudget, hn, h.numPrimitivesExt_eq]
    decide
  have hshrink : t.newCenter = some c.center := by
    rw [Trial.newCenter, htotal, hbudget]
    exact if_neg (by decide)
  have hoffsets : t.primOffset1 c.center = ([0, 1], 5) := by
    rw [Trial.primOffset1, PrefixSum.parallelPrefixSum_eq (by decide) (by decide) (by decide)
      c.threadCount_pos, hvalues, Nat.sub_self]
    rfl
  have hiterations :
      ((t.items.map c.trialSplit).drop (c.center - c.center)).zip (t.primOffset1 c.center).1 =
      [(c.trialSplit (c.preSplitItem0 0), 0), (c.trialSplit (c.preSplitItem0 (2 ^ 32)), 1)] := by
    rw [hoffsets, Nat.sub_self]
    rfl
  refine ⟨_, .split (by omega) t c.center hshrink _ rfl _ (ParallelFor.runs_todo _ _) (.chunk _) rfl, ?_⟩
  rw [hiterations, ParallelFor.inOrder, ParallelFor.inOrder]
  have hstores : c.storeSubPrims (c.trialSplit (c.preSplitItem0 0), 0) c.prims =
      [(left, 0), (right, c.numPrimitives)] := by
    have hsplit : c.func.split (c.prims (BitVec.ofNat 32 0).toNat) (c.splitprims 0).toNat =
        [left, right] := by
      rw [h.splitprims_zero]
      exact hfirst
    rw [storeSubPrims_cons hsplit]
    rfl
  -- what the second iteration finds in the slot
  have hleft : store c.prims [(left, 0), (right, c.numPrimitives)] 0 = left := by
    refine ParallelFor.store_of_nodup c.prims ?_ List.mem_cons_self
    rw [slots, List.map_cons, List.map_singleton, List.nodup_cons, List.mem_singleton]
    exact ⟨by omega, List.nodup_singleton _⟩
  obtain ⟨first, subPrims, hcons⟩ : ∃ first subPrims, c.func.split left 8 = first :: subPrims :=
    List.exists_cons_of_length_eq_add_one hseven
  have hsix : subPrims.length = 6 := by
    rw [hcons] at hseven
    exact Nat.succ.inj hseven
  have hsplit : c.func.split (store c.prims [(left, 0), (right, c.numPrimitives)]
      (BitVec.ofNat 32 (2 ^ 32)).toNat) (c.splitprims (2 ^ 32)).toNat = first :: subPrims := by
    rw [h.splitprims_last]
    exact (congrArg (c.func.split · 8) hleft).trans hcons
  have hslots : slots (c.storeSubPrims (c.trialSplit (c.preSplitItem0 (2 ^ 32)), 1)
      (store c.prims [(left, 0), (right, c.numPrimitives)])) =
        0 :: List.range' (c.numPrimitives + 1) 6 := by
    rw [storeSubPrims_cons hsplit, slots, List.map_cons, List.zipIdx_map_snd, hsix]
    rfl
  have hslot : c.numPrimitivesExt ∈ slots (c.storeSubPrims (c.trialSplit (c.preSplitItem0 (2 ^ 32)), 1)
      (store c.prims [(left, 0), (right, c.numPrimitives)])) := by
    rw [hslots, h.numPrimitivesExt_eq, hn]
    decide
  rw [hstores, slots, List.map_append, List.mem_append, List.map_append, List.mem_append]
  exact Or.inr (Or.inl hslot)

end Colliding

end Presplitting

section scene

def wedgeVertices (x y : ℚ) : Nat → FloatVec
  | 0 => .ofVec3f (1, 1, 0)
  | 1 => .ofVec3f (x, 1, 0)
  | 2 => .ofVec3f (x, y, 0)
  | 3 => .ofVec3f (1024, 0, 0)
  | _ => .ofVec3f (0, 0, 0)

def wedgeQuad (corner : Nat) : QuadIndices :=
  if corner = 0 then ⟨0, 1, 2, 0⟩ else ⟨corner, corner, corner, corner⟩

def flatWedges : QuadsInfo :=
  ⟨0, 1, quadIndicesUint32, float3, Fin.ofNat _ (2 ^ 32 - 1), 5,
    some (fun i => wedgeQuad (if i = 0 then 0 else if i = 1 then 3 else 4)),
    some (wedgeVertices 9 (41 / 32))⟩

def steepWedges : QuadsInfo :=
  ⟨0, 1, quadIndicesUint32, float3, 8, 4,
    some (fun i => wedgeQuad (if i = 1 then 0 else if i = 0 then 3 else 4)), some (wedgeVertices 3 19)⟩

def wedgeScene : Geometries := [some (.quads flatWedges), some (.quads steepWedges)]

def wedgeScratch : ScratchBuffer := ⟨64, 2 ^ 38, by decide⟩

def wedgeBuilder : BuilderT := wedgeScene.builder (fun _ _ => 0) .version1 .median

theorem wedgeScene_type (geomID : Fin maxGeometries) : wedgeBuilder.getType geomID ≠ .inst := by
  obtain ⟨n, hn⟩ := geomID
  intro h
  match n with
  | 0 => cases h
  | 1 => cases h
  | n + 2 => cases h

def wedgeBvhs : InstancedBvhs wedgeBuilder wedgeScene.local2world where
  heapOps := .sorted OpenInstance.Item.priority
  halfArea _ := 1
  bvh geomID h := absurd h (wedgeScene_type geomID)

def wedgeBounds : NonemptyInterval Vec3f := ⟨((0, 0, 0), (1024, 19, 0)), by decide +kernel⟩

def wedgeGrid : SplittingGrid := .ofBounds wedgeBounds

def wedgePiece (x x' : ℚ) (h : x ≤ x' ∧ 1 ≤ 1 + (x' - 1) * (9 / 256)) : PrimRef :=
  ⟨⟨((x, 1, 0), (x', 1 + (x' - 1) * (9 / 256), 0)), ⟨h.1, h.2, le_rfl⟩⟩, 0, 0⟩

def flatWedge : PrimRef := wedgePiece 1 9 (by decide +kernel)

def steepWedge : PrimRef := ⟨⟨((1, 1, 0), (3, 19, 0)), by decide +kernel⟩, 1, 1⟩

def wedgePrims (i : Nat) : PrimRef :=
  if i = 0 then flatWedge
  else if i = 2 ^ 32 then steepWedge
  else if i = 1 then ⟨.pure (1024, 0, 0), 0, 1⟩
  else if i = 2 ^ 32 - 1 then ⟨.pure (1024, 0, 0), 1, 0⟩
  else ⟨.pure (0, 0, 0), 0, Fin.ofNat _ i⟩

theorem wedgePrims_point {i : Nat} (hzero : i ≠ 0) (hlast : i ≠ 2 ^ 32) :
    ∃ p, (wedgePrims i).bounds = .pure p ∧ p ∈ wedgeBounds := by
  have hfar : ((1024, 0, 0) : Vec3f) ∈ wedgeBounds := ⟨by decide +kernel, by decide +kernel⟩
  have horigin : ((0, 0, 0) : Vec3f) ∈ wedgeBounds := ⟨by decide +kernel, by decide +kernel⟩
  rw [wedgePrims, if_neg hzero, if_neg hlast]
  split_ifs
  · exact ⟨_, rfl, hfar⟩
  · exact ⟨_, rfl, hfar⟩
  · exact ⟨_, rfl, horigin⟩

theorem createPrimRef_flat {i : Nat} (hi : i < 2 ^ 32 - 1) :
    wedgeScene.createPrimRef (fun _ _ => 0) 0 i = some (wedgePrims i) := by
  by_cases hzero : i = 0
  · subst hzero
    decide +kernel
  · by_cases hone : i = 1
    · subst hone
      decide +kernel
    · have hbounds : flatWedges.buildBounds i = some (.pure (0, 0, 0)) := by
        have hquad : flatWedges.getPrimitive i = ⟨4, 4, 4, 4⟩ := by
          change wedgeQuad (if i = 0 then 0 else if i = 1 then 3 else 4) = _
          rw [if_neg hzero, if_neg hone]
          rfl
        have hlt : ¬ flatWedges.quadCount.val ≤ i := Nat.not_le_of_lt hi
        rw [QuadsInfo.buildBounds, if_neg hlt, hquad]
        decide +kernel
      change (flatWedges.buildBounds i).map _ = _
      rw [hbounds, wedgePrims, if_neg hzero, if_neg (by omega), if_neg hone, if_neg (by omega)]
      rfl

theorem accepted_items_cons (accept : Nat → Nat → Option PrimRef) (i size : Nat) (sizes : List Nat) :
    PrimRefGen.accepted accept (ForFor.items i (size :: sizes)) =
      (List.range' 0 size).filterMap (accept i) ++
        PrimRefGen.accepted accept (ForFor.items (i + 1) sizes) := by
  rw [PrimRefGen.accepted, ForFor.items, List.filterMap_append, List.filterMap_map]
  rfl

theorem accepted_wedgeScene :
    wedgeScene.accepted (fun _ _ => 0) = (List.range (2 ^ 32 + 1)).map wedgePrims := by
  have hsizes : wedgeScene.scene.map getSize = [2 ^ 32 - 1, 8] := by decide +kernel
  have hflat : (List.range' 0 (2 ^ 32 - 1)).filterMap (wedgeScene.createPrimRef (fun _ _ => 0) 0) =
      (List.range (2 ^ 32 - 1)).map wedgePrims := by
    rw [← List.range_eq_range', ← List.filterMap_eq_map]
    apply List.filterMap_congr
    exact fun i hi => createPrimRef_flat (List.mem_range.1 hi)
  have hsteep : (List.range' 0 8).filterMap (wedgeScene.createPrimRef (fun _ _ => 0) 1) =
      [wedgePrims (2 ^ 32 - 1), wedgePrims (2 ^ 32)] := by
    decide +kernel
  have hrange : List.range (2 ^ 32 + 1) = List.range (2 ^ 32 - 1) ++ [2 ^ 32 - 1, 2 ^ 32] := by
    rw [List.range_succ, ← Nat.sub_add_cancel (Nat.one_le_two_pow (n := 32)), List.range_succ,
      List.append_assoc]
    rfl
  rw [Geometries.accepted, hsizes, accepted_items_cons, accepted_items_cons, hflat, hsteep, hrange,
    List.map_append]
  exact congrArg _ (List.append_nil _)

theorem splitter1_flatWedge :
    wedgeBvhs.splitter1 wedgeGrid flatWedge 2 =
      [wedgePiece 1 8 (by decide +kernel), wedgePiece 8 9 (by decide +kernel)] ∧
    (wedgeBvhs.splitter1 wedgeGrid flatWedge 8).length = 5 ∧
    (wedgeBvhs.splitter1 wedgeGrid (wedgePiece 1 8 (by decide +kernel)) 8).length = 7 := by
  have htype : wedgeBuilder.getType 0 ≠ .inst := wedgeScene_type 0
  have hlength : ∀ {prim : PrimRef} {splitprims n : Nat}, prim.geomID = 0 →
      (splitPieces wedgeBuilder wedgeGrid prim splitprims).map List.length = some n →
      (wedgeBvhs.splitter1 wedgeGrid prim splitprims).length = n := by
    intro prim splitprims n hgeomID hlength
    obtain ⟨pieces, hpieces, rfl⟩ := Option.map_eq_some_iff.1 hlength
    rw [wedgeBvhs.splitter1_pieces (hgeomID ▸ htype) hpieces]
  refine ⟨wedgeBvhs.splitter1_pieces htype (by decide +kernel), hlength rfl (by decide +kernel),
    hlength rfl (by decide +kernel)⟩

theorem unionBounds_wedgePrims :
    unionBounds ((List.range (2 ^ 32 + 1)).map wedgePrims) = wedgeBounds := by
  apply le_antisymm
  · apply unionBounds_le
    intro prim hprim
    obtain ⟨i, -, rfl⟩ := List.mem_map.1 hprim
    apply WithBot.coe_le_coe.2
    by_cases hzero : i = 0
    · subst hzero
      exact ⟨by decide +kernel, by decide +kernel⟩
    · by_cases hlast : i = 2 ^ 32
      · subst hlast
        exact ⟨by decide +kernel, by decide +kernel⟩
      · obtain ⟨p, hbounds, hp⟩ := wedgePrims_point hzero hlast
        rw [hbounds]
        exact hp
  · have hmem : ∀ i < 2 ^ 32 + 1, ((wedgePrims i).bounds : BBox3f) ≤
        unionBounds ((List.range (2 ^ 32 + 1)).map wedgePrims) := fun i hi =>
      le_unionBounds (List.mem_map_of_mem (List.mem_range.2 hi))
    have hcorners : wedgeBounds =
        (wedgePrims 2).bounds ⊔ (wedgePrims 1).bounds ⊔ (wedgePrims (2 ^ 32)).bounds := by
      decide +kernel
    conv_lhs => rw [hcorners]
    exact sup_le (sup_le (hmem 2 (by decide)) (hmem 1 (by decide))) (hmem (2 ^ 32) (by decide))

theorem priority_flatWedge : priority .ofRat wedgeBuilder wedgeGrid (wedgePrims 0) = 27 / 8 := by
  apply priority_eq
  · norm_num
  · decide +kernel
  · decide +kernel
  · decide +kernel

theorem priority_steepWedge :
    priority .ofRat wedgeBuilder wedgeGrid (wedgePrims (2 ^ 32)) = 81 / 8 := by
  apply priority_eq
  · norm_num
  · decide +kernel
  · decide +kernel
  · decide +kernel

theorem priority_wedgePrims {i : Nat} (hzero : i ≠ 0) (hlast : i ≠ 2 ^ 32) :
    priority .ofRat wedgeBuilder wedgeGrid (wedgePrims i) = 0 := by
  obtain ⟨p, hbounds, -⟩ := wedgePrims_point hzero hlast
  exact priority_of_computeMC (computeMC_of_pure wedgeGrid hbounds)

/-- Only the two triangles have a priority. -/
theorem prioritySum_wedgePrims {prims : Nat → PrimRef}
    (hprims : ∀ i < 2 ^ 32 + 1, prims i = wedgePrims i) :
    prioritySum .ofRat wedgeBuilder wedgeGrid prims (2 ^ 32 + 1) = 27 / 2 := by
  have hsum : ∑ i ∈ Finset.range (2 ^ 32 + 1), priority .ofRat wedgeBuilder wedgeGrid (prims i) =
      priority .ofRat wedgeBuilder wedgeGrid (wedgePrims 0) +
        priority .ofRat wedgeBuilder wedgeGrid (wedgePrims (2 ^ 32)) := by
    rw [← hprims 0 (by decide), ← hprims (2 ^ 32) (by decide)]
    apply Finset.sum_eq_add 0 (2 ^ 32) (by decide)
    · intro i hi hother
      rw [hprims i (Finset.mem_range.1 hi)]
      exact priority_wedgePrims hother.1 hother.2
    · exact fun hi => absurd (Finset.mem_range.2 (by decide)) hi
    · exact fun hi => absurd (Finset.mem_range.2 (by decide)) hi
  rw [prioritySum, hsum, priority_flatWedge, priority_steepWedge]
  norm_num

def wedgePresplitting (prims : Nat → PrimRef) (pinfo : PrimInfo) (room : pinfo.size ≤ 2 ^ 32 + 7) :
    Presplitting where
  func := wedgeBvhs.func wedgeGrid
  stdSort := .mergeSort PresplitItem.data
  threadCount := 1
  threadCount_pos := Nat.one_pos
  prims := prims
  numPrimitivesExt := 2 ^ 32 + 7
  pinfo := pinfo
  room := room
  splitLog i := splitLogOf (2 ^ 32 + 7 - pinfo.size) (priority .ofRat wedgeBuilder wedgeGrid (prims i))
    (prioritySum .ofRat wedgeBuilder wedgeGrid prims pinfo.size)

theorem wedgePresplitting_colliding {prims : Nat → PrimRef} {pinfo : PrimInfo}
    {room : pinfo.size ≤ 2 ^ 32 + 7} (hsize : pinfo.size = 2 ^ 32 + 1)
    (hprims : ∀ i < 2 ^ 32 + 1, prims i = wedgePrims i) :
    (wedgePresplitting prims pinfo room).Colliding := by
  obtain ⟨htwo, hfive, hseven⟩ := splitter1_flatWedge
  have hzero : prims 0 = flatWedge := hprims 0 (by decide)
  have hlog : ∀ i < 2 ^ 32 + 1, (wedgePresplitting prims pinfo room).splitLog i =
      splitLogOf 6 (priority .ofRat wedgeBuilder wedgeGrid (wedgePrims i)) (27 / 2) := by
    intro i hi
    change splitLogOf (2 ^ 32 + 7 - pinfo.size) (priority .ofRat wedgeBuilder wedgeGrid (prims i))
      (prioritySum .ofRat wedgeBuilder wedgeGrid prims pinfo.size) = _
    have hbudget : 2 ^ 32 + 7 - (2 ^ 32 + 1) = 6 := by decide
    rw [hsize, prioritySum_wedgePrims hprims, hprims i hi, hbudget]
  refine ⟨hsize, rfl, ?_, ?_, fun i hi hne hne' => ?_,
    ⟨wedgePiece 1 8 (by decide +kernel), wedgePiece 8 9 (by decide +kernel), ?_, ?_⟩, ?_⟩
  · rw [hlog 0 (by decide), priority_flatWedge]
    decide +kernel
  · rw [hlog (2 ^ 32) (by decide), priority_steepWedge]
    decide +kernel
  · rw [hlog i (hi.trans_eq hsize), priority_wedgePrims hne hne']
    exact splitLogOf_of_nonpos le_rfl
  · change wedgeBvhs.splitter1 wedgeGrid (prims 0) 2 = _
    rw [hzero]
    exact htwo
  · exact hseven
  · change (wedgeBvhs.splitter1 wedgeGrid (prims 0) 8).length = 5
    rw [hzero]
    exact hfive

/-- The quads are generated and pre-split as the code does it, into more pieces than there is room for,
and the scratch buffer is as large as the size that is reported. -/
theorem not_suffices_wedgeScene :
    (estimateSize wedgeScene.scene .high ⟨false, false⟩).scratchBytes ≤ wedgeScratch.bytes ∧
      (∃ (gen : Generation wedgeScene.scene) (c : Presplitting) (r : PresplitResult),
        gen.outcome.accept = wedgeScene.createPrimRef (fun _ _ => 0) ∧
        presplits .high ⟨false, false⟩ gen.pinfo = true ∧ CallsSplitter1 wedgeBvhs gen c ∧
        c.Run (some r) ∧ numPrimitives wedgeScene.scene ∈ slots r.trace) ∧
      ¬ ∃ prims, Suffices wedgeScene.scene .high ⟨false, false⟩ true (fun _ => True) wedgeScratch
        prims := by
  obtain ⟨gen, haccept⟩ := Generation.exists_accepting wedgeScene.scene
    (wedgeScene.createPrimRef (fun _ _ => 0)) wedgePrims
  have hnum : numPrimitives wedgeScene.scene = 2 ^ 32 + 7 := by decide +kernel
  have hall : gen.accepted = (List.range (2 ^ 32 + 1)).map wedgePrims := by
    rw [← accepted_wedgeScene, Generation.accepted, haccept, Geometries.accepted]
  have hsize : gen.pinfo.size = 2 ^ 32 + 1 := by
    rw [gen.size_pinfo, hall, List.length_map, List.length_range]
  have hslice := gen.spec.2.2
  rw [hall, hsize, slice, Nat.sub_zero, ← List.range_eq_range'] at hslice
  have hprims : ∀ i < 2 ^ 32 + 1, gen.prims i = wedgePrims i := fun i hi =>
    List.map_inj_left.1 hslice i (List.mem_range.2 hi)
  have hbounds : gen.pinfo.geomBounds = wedgeBounds := by
    rw [gen.spec.2.1, (PrimInfo.ofList_fields _).1, hall, unionBounds_wedgePrims]
  have hpresplits : presplits .high ⟨false, false⟩ gen.pinfo = true := by
    rw [presplits, hsize]
    rfl
  have hroom : gen.pinfo.size ≤ 2 ^ 32 + 7 := hsize.trans_le (Nat.add_le_add_left (by decide) _)
  have hcalls : CallsSplitter1 wedgeBvhs gen (wedgePresplitting gen.prims gen.pinfo hroom) := by
    have hgrid : ∀ bounds : NonemptyInterval Vec3f, gen.pinfo.geomBounds = bounds →
        wedgeBounds = bounds := fun bounds h => WithBot.coe_injective (hbounds.symm.trans h)
    refine ⟨⟨rfl, hnum.symm, rfl⟩, fun bounds h => ?_, .ofRat, fun bounds h i _ => ?_⟩
    · rw [← hgrid bounds h]
      rfl
    · rw [← hgrid bounds h]
      rfl
  have hcolliding : (wedgePresplitting gen.prims gen.pinfo hroom).Colliding :=
    wedgePresplitting_colliding hsize hprims
  obtain ⟨r, hrun, hslot⟩ := hcolliding.overruns
  refine ⟨by decide +kernel, ⟨gen, _, r, haccept, hpresplits, hcalls, hrun, hnum ▸ hslot⟩, ?_⟩
  rintro ⟨v, hsuffices⟩
  obtain ⟨r', hr', -, hinside⟩ := (hsuffices.stores gen trivial).presplitting hpresplits _
    ⟨rfl, (hsuffices.size_eq.trans hnum).symm, rfl⟩ rfl _ hrun
  obtain rfl := Option.some.inj hr'
  have hlt := hinside _ hslot
  rw [hsuffices.size_eq, hnum] at hlt
  exact lt_irrefl _ hlt

end scene

end RTBuild
