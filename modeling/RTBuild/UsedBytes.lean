import RTBuild.Image
import RTBuild.ProceduralBlocks
import RTBuild.Statistics

namespace RTBuild

open RTBuild.Children InternalNode ProceduralLeafBuilder Settings

namespace BVHStatistics

def bytes (stats : BVHStatistics) : Nat :=
  stats.internalNode.numBytes + stats.quadLeaf.numBytesTotal + stats.proceduralLeaf.numBytesTotal +
    stats.instanceLeaf.numBytesTotal

theorem bytes_add (a b : BVHStatistics) : (a + b).bytes = a.bytes + b.bytes := by
  simp only [bytes, add_def, NodeStat.add_def, LeafStat.add_def]
  omega

end BVHStatistics

theorem sum_getD {w : Nat} (weights : List Nat) (hlength : weights.length ≤ w) :
    ((List.finRange w).map (fun i : Fin w => weights.getD i 0)).sum = weights.sum := by
  induction weights generalizing w with
  | nil => simp
  | cons x weights ih =>
      rw [List.length_cons] at hlength
      obtain ⟨w, rfl⟩ := Nat.exists_eq_succ_of_ne_zero (Nat.ne_of_gt (Nat.zero_lt_of_lt hlength))
      rw [List.finRange_succ, List.map_cons, List.map_map, List.sum_cons, List.sum_cons]
      apply congrArg (x + ·)
      exact ih (Nat.le_of_succ_le_succ hlength)

def Weighs (m : Nat → Option Cell) (ref : NodeRef) (bytes : Nat) : Prop :=
  ∃ n, ∀ fuel, n ≤ fuel → ∀ stats, ∃ inc,
    computeStatistics m fuel stats ref = some (stats + inc) ∧ inc.bytes = bytes

section weighs

variable {b : BuilderT} {m : Nat → Option Cell} {prims : Nat → PrimRef} {r : BuildRecord}
  {addr childData : Nat}

theorem quadStatistics_bytes {fuel : Nat} {leaves : List QuadLeaf}
    (h : readQuads m fuel addr = some leaves) (stats : LeafStat) :
    ∃ inc, quadStatistics m fuel stats addr = some (stats + inc) ∧
      inc.numBytesTotal = 64 * leaves.length := by
  induction fuel generalizing addr leaves stats with
  | zero => cases h
  | succ fuel ih =>
      rw [readQuads] at h
      rw [quadStatistics]
      cases hcell : m addr with
      | none => simp [hcell] at h
      | some cell =>
          cases cell with
          | quad leaf =>
              simp only [hcell] at h ⊢
              split at h
              next hlast =>
                obtain rfl := Option.some.inj h
                refine ⟨⟨0, 0, leaf.size, 2, leaf.usedBytes, nodeBytes⟩, ?_, rfl⟩
                rw [if_pos hlast]
                rfl
              next hlast =>
                obtain ⟨rest, hrest, rfl⟩ := Option.map_eq_some_iff.1 h
                obtain ⟨inc, hinc, hbytes⟩ :=
                  ih hrest (stats + ⟨0, 0, leaf.size, 2, leaf.usedBytes, nodeBytes⟩)
                refine ⟨⟨0, 0, leaf.size, 2, leaf.usedBytes, nodeBytes⟩ + inc, ?_, ?_⟩
                · rw [if_neg hlast, ← LeafStat.add_assoc]
                  exact hinc
                · have hnode : nodeBytes = 64 := rfl
                  simp only [LeafStat.add_def, hbytes, List.length_cons]
                  omega
          | _ => simp [hcell] at h

theorem weighs_quads {ty : PrimType} (hr : r.begin_ < r.end_)
    (h : Stored m addr ((quadLeaves b prims ty r).map .quad)) :
    Weighs m ⟨addr, .quad, 0⟩ (64 * r.size) := by
  refine ⟨r.size + 1, fun fuel hfuel stats => ?_⟩
  obtain ⟨fuel, rfl⟩ := Nat.exists_eq_add_of_le' (Nat.le_of_add_left_le hfuel)
  have hread := readQuads_quadLeaves hr h (Nat.le_of_succ_le_succ hfuel)
  obtain ⟨inc, hinc, hbytes⟩ := quadStatistics_bytes hread (stats.quadLeaf + ⟨1, 0, 0, 0, 0, 0⟩)
  refine ⟨⟨.zero, ⟨1, 0, 0, 0, 0, 0⟩ + inc, .zero, .zero⟩, ?_, ?_⟩
  · rw [LeafStat.add_assoc] at hinc
    exact congrArg (Option.map _) hinc
  · rw [length_quadLeaves] at hbytes
    simp [BVHStatistics.bytes, LeafStat.add_def, NodeStat.zero, LeafStat.zero, hbytes]

/-- A procedural weighs something where it is the first one of its block. -/
def headBytes (curPrim : Nat) : Nat := if curPrim = 0 then nodeBytes else 0

theorem weighs_procedural {slot : Nat} {prim : PrimRef} (h : HoldsAt b m addr slot prim) :
    Weighs m ⟨addr, .procedural, slot⟩ (headBytes slot) := by
  refine ⟨2, fun fuel hfuel stats => ?_⟩
  obtain ⟨fuel, rfl⟩ := Nat.exists_eq_add_of_le' hfuel
  obtain ⟨leaf, hleaf, hdesc, hlt, hindex, hlast⟩ := h
  have hisLast : leaf.isLast slot = true := by
    rw [ProceduralLeaf.isLast, dif_pos hlt, hlast]
  by_cases hslot : slot = 0
  · subst hslot
    refine ⟨⟨.zero, .zero, ⟨1, 1, 1, 1, leaf.usedBytes, nodeBytes⟩, .zero⟩, ?_, rfl⟩
    simp only [computeStatistics, proceduralStatistics, hleaf, hisLast, if_true, Option.map_some]
    rfl
  · refine ⟨⟨.zero, .zero, ⟨1, 0, 1, 1, 0, 0⟩, .zero⟩, ?_, (if_neg hslot).symm⟩
    simp only [computeStatistics, proceduralStatistics, hleaf, hisLast, if_neg hslot, if_true,
      Option.map_some]
    rfl

/-- The procedurals of a fat leaf weigh the blocks that are allocated for them. -/
theorem sum_headBytes {list : List PrimRef} (data : Nat) (hne : list ≠ []) (hlength : list.length ≤ 13) :
    ((FatImage.startedArgs b data list).map (fun c => headBytes c.curPrim)).sum =
      numGeometries b list * nodeBytes := by
  have hranges : (FatImage.startedArgs b data list).map ChildArgs.curPrim =
      ((addProcedurals b (.start data) list).map Prod.snd).map PrimRange.curPrim := by
    refine List.ext_getElem ?_ (fun i hi hi' => ?_)
    · rw [List.length_map, FatImage.length_startedArgs, List.length_map, List.length_map,
        length_addProcedurals]
    · rw [List.length_map] at hi'
      simp only [FatImage.startedArgs, FatImage.proceduralArgs, List.getElem_map, List.getElem_mapIdx]
      rw [List.getD_eq_getElem _ _ hi', List.getElem_map]
  have hheads := start_heads data hne (runsFit_of_length (b := b) hlength).room
  have hbytes : ∀ curPrims : List Nat, (curPrims.map headBytes).sum =
      (curPrims.map (fun curPrim => if curPrim = 0 then 1 else 0)).sum * nodeBytes := by
    intro curPrims
    rw [← List.sum_map_mul_right]
    refine congrArg List.sum (List.map_congr_left (fun curPrim _ => ?_))
    rw [headBytes]
    split
    · rfl
    · rfl
  have hcomp := hbytes ((FatImage.startedArgs b data list).map ChildArgs.curPrim)
  rw [List.map_map] at hcomp
  rw [← hheads]
  refine hcomp.trans ?_
  rw [hranges, List.map_map]
  rfl

theorem weighs_instance : Weighs m ⟨addr, .inst, 0⟩ sizeofInstanceLeaf := by
  refine ⟨1, fun fuel hfuel stats => ?_⟩
  obtain ⟨fuel, rfl⟩ := Nat.exists_eq_add_of_le' hfuel
  exact ⟨⟨.zero, .zero, .zero, ⟨1, 0, 1, 1, sizeofInstanceLeaf, sizeofInstanceLeaf⟩⟩, rfl, rfl⟩

/-- The bytes of a node are its own and those of its children. -/
theorem bytes_node {fuel : Nat} {inner : InternalNode} (hm : m addr = some (.node inner))
    {W : Fin 6 → Nat}
    (hvalid : ∀ i, inner.valid i = true → ∃ ref, inner.child addr i = some ref ∧
      ∀ stats, ∃ inc, computeStatistics m fuel stats ref = some (stats + inc) ∧ inc.bytes = W i)
    (hinvalid : ∀ i, inner.valid i = false → W i = 0) (stats : BVHStatistics) :
    ∃ inc, computeStatistics m (fuel + 1) stats ⟨addr, .internal, 0⟩ = some (stats + inc) ∧
      inc.bytes = ((List.finRange 6).map W).sum + nodeBytes := by
  have htype : (⟨addr, .internal, 0⟩ : NodeRef).type = .internal := rfl
  obtain ⟨inc, roots, hcompute, hbytes⟩ := computeStatistics_loop htype hm
    (P := fun l _ inc => inc.bytes = (l.map W).sum) rfl
    (fun i hv => by
      obtain ⟨ref, href, hcompute⟩ := hvalid i hv
      refine ⟨ref, href, fun stats => ?_⟩
      obtain ⟨inc, hinc, hbytes⟩ := hcompute stats
      refine ⟨inc, hinc, fun l roots inc' hl => ?_⟩
      rw [BVHStatistics.bytes_add, hbytes, hl, List.map_cons, List.sum_cons])
    (fun i hv l roots inc hl => by
      rw [List.map_cons, List.sum_cons, hinvalid i hv, Nat.zero_add]
      exact hl) stats
  refine ⟨_, hcompute, ?_⟩
  rw [BVHStatistics.bytes_add, hbytes]
  rfl

/-- A node weighs what its children weigh and its own bytes. -/
theorem FatBlock.Frame.weighs {f : FatBlock} {nodeType : NodeType} {args : List ChildArgs}
    {weights : List Nat} (h : f.Frame nodeType args)
    (hm : m addr = some (.node ((f.node.setChildOffset addr f.childPtr).setNodeMask f.nodeMask)))
    (hfits : offsetFits addr f.childPtr = true) (haddr : addr % 64 = 0)
    (hweights : weights.length = args.length)
    (hchild : ∀ (i : Nat) (hi : i < args.length),
      Weighs m ⟨f.childPtr + 64 * blockOffset args i, args[i].type, args[i].curPrim⟩
        (weights.get ⟨i, hweights ▸ hi⟩)) :
    Weighs m ⟨addr, .internal, 0⟩ (weights.sum + nodeBytes) := by
  obtain ⟨⟨bounds, hnode⟩, hlength, hargs, hptr⟩ := h
  rw [hnode] at hm
  change m addr = some (.node (finished bounds nodeType args addr f.childPtr f.nodeMask)) at hm
  obtain ⟨n, hn⟩ := exists_fuel_all (fun i : Fin args.length => hchild i i.isLt)
  refine ⟨n + 1, fun fuel hfuel stats => ?_⟩
  obtain ⟨k, rfl⟩ := Nat.exists_eq_add_of_le' hfuel
  obtain ⟨inc, hcompute, hbytes⟩ := bytes_node hm (W := fun i => weights.getD i 0)
    (fun i hv => by
      have hi := (valid_finished_iff hlength hargs i).1 hv
      refine ⟨_, child_finished_of_lt hlength hargs hfits haddr hptr hi, fun stats => ?_⟩
      obtain ⟨inc, hinc, hbytes⟩ := hn (k + n) (Nat.le_add_left n k) ⟨i, hi⟩ stats
      exact ⟨inc, hinc, by rw [hbytes, List.getD_eq_getElem _ _ (hweights ▸ hi), List.get_eq_getElem]⟩)
    (fun i hv => by
      have hi : ¬ i.val < args.length :=
        mt (valid_finished_iff hlength hargs i).2 (Bool.eq_false_iff.1 hv)
      exact List.getD_eq_default _ _ (hweights ▸ Nat.le_of_not_lt hi)) stats
  refine ⟨inc, hcompute, ?_⟩
  rw [hbytes, sum_getD _ (hweights ▸ hlength)]

/-- Quads weigh one block each. -/
theorem FatImage.ofQuads_weighs {ty : PrimType} {children : List BuildRecord}
    (hlength : children.length ≤ 6)
    (hchildren : ∀ c ∈ children, c.Describes b.getType prims ∧ c.size ≤ 3 ∧
      ∀ prim ∈ c.list prims, b.getType prim.geomID = ty)
    (hdata : childData % 64 = 0) (haddr : addr % 64 = 0)
    (hkeeps : Keeps m ((ofQuads b prims r ty children).block childData).stores)
    (hfits : offsetFits addr ((ofQuads b prims r ty children).block childData).childPtr = true)
    (hnode : m addr = some (.node ((((ofQuads b prims r ty children).block childData).node.setChildOffset
      addr ((ofQuads b prims r ty children).block childData).childPtr).setNodeMask
        ((ofQuads b prims r ty children).block childData).nodeMask))) :
    Weighs m ⟨addr, .internal, 0⟩ ((children.map (fun c => 64 * c.size)).sum + nodeBytes) := by
  refine (ofQuads_frame hlength hchildren hdata).weighs hnode hfits haddr ?_ (fun i hi => ?_)
  · rw [List.length_map, quadArgs, List.length_map]
  · rw [quadArgs, List.length_map] at hi
    have hcells := ofQuads_stored hkeeps hi
    have hnonempty := (hchildren _ (List.getElem_mem hi)).1.nonempty
    simp only [List.get_eq_getElem, quadArgs, List.getElem_map]
    exact weighs_quads hnonempty hcells

theorem FatKept.weighs {ty : PrimType} (h : FatKept b m prims r addr childData)
    (hr : r.Describes b.getType prims) (htype : r.type = some ty) (hsize : r.size ≤ leafSize r.type)
    (haddr : addr % 64 = 0) :
    Weighs m ⟨addr, .internal, 0⟩ ((Plan.fat prims r).bytes b + nodeBytes) := by
  obtain ⟨hdata, hkeeps, hfits, hnode⟩ := h
  obtain ⟨hfirst, hlength, hchildren, hperm, hlist, -⟩ := fatChildren hr htype hsize
  rw [Plan.bytes, FatImage.ofRecord, hfirst]
  rw [FatImage.ofRecord, hfirst] at hkeeps hfits hnode
  rw [htype] at hsize
  have hsum : ((fatLeafChildren b.heuristic prims r).2.map (fun c => 64 * c.size)).sum =
      r.size * nodeBytes := by
    have hlengths := hperm.length_eq
    simp only [List.length_flatMap, BuildRecord.length_list] at hlengths
    rw [List.sum_map_mul_left, hlengths, Nat.mul_comm]
    rfl
  cases ty with
  | triangle =>
      change Weighs m _ (r.size * nodeBytes + nodeBytes)
      rw [← hsum]
      exact FatImage.ofQuads_weighs hlength hchildren hdata haddr hkeeps hfits hnode
  | quad =>
      change Weighs m _ (r.size * nodeBytes + nodeBytes)
      rw [← hsum]
      exact FatImage.ofQuads_weighs hlength hchildren hdata haddr hkeeps hfits hnode
  | procedural =>
      obtain ⟨hframe, hholds⟩ := FatImage.ofProcedurals_frame hsize hdata hkeeps
      have hargs := FatImage.length_startedArgs (b := b) childData
        (r.list (fatLeafChildren b.heuristic prims r).1)
      have hlength' : (r.list (fatLeafChildren b.heuristic prims r).1).length = r.size :=
        BuildRecord.length_list _ _
      have hne : r.list (fatLeafChildren b.heuristic prims r).1 ≠ [] := by
        intro hnil
        rw [hnil] at hlength'
        exact absurd hlength' hr.size_pos.ne
      have hheads := sum_headBytes (b := b) childData hne
        (hlength'.trans_le (hsize.trans (Nat.le_add_right 6 7)))
      change Weighs m _ (numGeometries b (r.list (fatLeafChildren b.heuristic prims r).1) *
        nodeBytes + nodeBytes)
      rw [← hheads]
      refine hframe.weighs hnode hfits haddr (List.length_map _) (fun i hi => ?_)
      obtain ⟨-, htype, hholds⟩ := hholds i hi (hargs ▸ hi)
      simp only [List.get_eq_getElem, List.getElem_map]
      rw [htype]
      exact weighs_procedural hholds
  | inst =>
      have hinstances : ((r.list (fatLeafChildren b.heuristic prims r).1).map
          (fun _ => sizeofInstanceLeaf)).sum = r.size * sizeofInstanceLeaf := by
        rw [List.map_const', List.sum_replicate, BuildRecord.length_list, smul_eq_mul]
      change Weighs m _ (r.size * sizeofInstanceLeaf + nodeBytes)
      rw [← hinstances]
      refine (FatImage.ofInstances_frame hsize hdata).weighs hnode hfits haddr ?_
        (fun i hi => ?_)
      · rw [List.length_map, FatImage.instanceArgs, List.length_map]
      · simp only [List.get_eq_getElem, FatImage.instanceArgs, List.getElem_map]
        exact weighs_instance

theorem Plan.Kept.value {p : Plan} {v : ReductionTy} (h : p.Kept b m addr v) :
    v.type = .internal ∧ v.primRange.blockDelta = 1 := by
  cases h with
  | fat => exact ⟨rfl, rfl⟩
  | node => exact ⟨rfl, rfl⟩

/-- What is kept weighs what the plan has allocated, and its root. -/
theorem Plan.Valid.weighs {p : Plan} (hvalid : Valid b.getType prims r p) {v : ReductionTy}
    (hkept : p.Kept b m addr v) : Weighs m ⟨addr, .internal, 0⟩ (p.bytes b + nodeBytes) := by
  induction hvalid generalizing addr v with
  | throw prims r x => cases hkept
  | fat prims r ty r' hprims hr htype hsize =>
      cases hkept with
      | fat _ _ _ childData haddr hkept => exact hkept.weighs hr htype hsize haddr
  | node prims prims' r r' parallel children sub hprims hr hcover hlength hsub ih =>
      cases hkept with
      | node _ _ _ _ childBase values haddr hbase hfits hnode hkept =>
          have hframe := frame_children hlength
            (fun c hc => (hcover.describes c hc).bounds_ne_bot) (fun i => (hkept i).value) hbase
          have hsum : (List.ofFn (fun i => (sub i).bytes b + nodeBytes)).sum =
              children.length * nodeBytes + ∑ i, (sub i).bytes b := by
            rw [List.sum_ofFn, Finset.sum_add_distrib, Finset.sum_const, Finset.card_univ,
              Fintype.card_fin, smul_eq_mul, Nat.add_comm]
          rw [Plan.bytes, ← hsum]
          refine hframe.weighs hnode hfits haddr (by simp) (fun i hi => ?_)
          rw [List.length_map] at hi
          simp only [List.get_eq_getElem, List.getElem_map, List.getElem_ofFn]
          rw [blockOffset_children hi.le, Nat.mul_comm]
          exact ih ⟨i, hi⟩ (hkept ⟨i, hi⟩)

end weighs

section build

variable {b : BuilderT} {fuel endBytes cur : Nat} {prims : Nat → PrimRef} {pinfo : PrimInfoRange}
  {t : List BuildEvent} {v : ReductionTy}

/-- The node of an empty scene weighs itself. -/
theorem weighs_empty {m : Nat → Option Cell} {addr : Nat}
    (hm : m addr = some (.node (.ofType .internal))) : Weighs m ⟨addr, .internal, 0⟩ nodeBytes := by
  have hinvalid : ∀ i, (InternalNode.ofType .internal).valid i = false := by decide
  refine ⟨1, fun fuel hfuel stats => ?_⟩
  obtain ⟨fuel, rfl⟩ := Nat.exists_eq_add_of_le' hfuel
  obtain ⟨inc, hcompute, hbytes⟩ := bytes_node hm (W := fun _ => 0)
    (fun i hv => absurd hv (Bool.eq_false_iff.1 (hinvalid i))) (fun _ _ => rfl) stats
  exact ⟨inc, hcompute, hbytes⟩

theorem build_weighs (hbounds : (rootRecord pinfo).bounds = unionBounds ((rootRecord pinfo).list prims))
    (hend : endBytes ≤ 2 ^ 37) (hrun : BufferRun endBytes (build b fuel prims pinfo) 0 t (.ret v) cur)
    (hv : v.valid = true) :
    ∃ bytes, Weighs (memory t) ⟨headerBytes, .internal, 0⟩ bytes ∧
      headerBytes + bytes = builtBytes b fuel prims pinfo := by
  obtain ⟨t, bytes, cur', rfl, hlt, h, ht⟩ := build_done hrun hv
  rw [builtBytes]
  rcases buildBvh_run h with ⟨hzero, rfl, -⟩ | ⟨hpos, h⟩
  · rw [if_pos hzero]
    exact ⟨_, weighs_empty ((memory_done le_rfl).trans rfl), rfl⟩
  · rw [if_neg hpos.ne']
    have hvalid := Plan.internalNode_valid fuel (rootRecord_describes (b := b) hpos hbounds)
    refine ⟨_, hvalid.weighs (hvalid.kept_done hend ⟨h, ht⟩ hv), ?_⟩
    rw [Nat.add_comm _ nodeBytes, ← Nat.add_assoc]

/-- The size that a build reports is that of its header and of the nodes and leaves which statistics
count. -/
theorem statistics_bytes (b : BuilderT) (fuel endBytes : Nat) (prims : Nat → PrimRef)
    (pinfo : PrimInfoRange) (t : List BuildEvent) (v : ReductionTy) (cur : Nat)
    (hbounds : (rootRecord pinfo).bounds = unionBounds ((rootRecord pinfo).list prims))
    (hend : endBytes ≤ 2 ^ 37) (hrun : BufferRun endBytes (build b fuel prims pinfo) 0 t (.ret v) cur)
    (hv : v.valid = true) :
    .emit (.accelBufferBytesOut cur) ∈ t ∧
      ∃ n, ∀ steps, n ≤ steps → ∃ stats,
        computeStatistics (memory t) steps .zero ⟨headerBytes, .internal, 0⟩ = some stats ∧
          headerBytes + stats.bytes = cur := by
  obtain ⟨hcur, hreported⟩ := (build_bytes hrun).2 hv
  obtain ⟨bytes, ⟨n, hn⟩, htotal⟩ := build_weighs hbounds hend hrun hv
  rw [← hcur] at hreported htotal
  refine ⟨hreported, n, fun steps hsteps => ?_⟩
  obtain ⟨inc, hinc, hbytes⟩ := hn steps hsteps .zero
  refine ⟨inc, ?_, hbytes ▸ htotal⟩
  rw [hinc, BVHStatistics.zero_add]

theorem statistics_bytes_mixed : ∃ t v cur n stats, BufferRun 16384
    (build (.line mixedTypes) 30 (linePrims 4) (lineInfo 4 24)) 0 t (.ret v) cur ∧
      computeStatistics (memory t) n .zero ⟨headerBytes, .internal, 0⟩ = some stats ∧
        headerBytes + stats.bytes = cur := by
  obtain ⟨t, v, cur, hrun, hv⟩ := exists_mixedBuild
  obtain ⟨-, n, hn⟩ := statistics_bytes (.line mixedTypes) 30 16384 (linePrims 4) (lineInfo 4 24) t v
    cur (lineInfo_describes (by decide) mixedTypes).bounds_eq (by norm_num) hrun hv
  obtain ⟨stats, hstats, hbytes⟩ := hn n le_rfl
  exact ⟨t, v, cur, n, stats, hrun, hstats, hbytes⟩

end build

end RTBuild
