import RTBuild.HitReports

namespace RTBuild

open Library Library.Segment

structure NodeStat where
  numNodes : Nat
  numChildrenUsed : Nat
  numChildrenTotal : Nat
  numBytes : Nat
  deriving DecidableEq, Repr

structure LeafStat where
  numLeaves : Nat
  numBlocks : Nat
  numPrimsUsed : Nat
  numPrimsTotal : Nat
  numBytesUsed : Nat
  numBytesTotal : Nat
  deriving DecidableEq, Repr

structure BVHStatistics where
  internalNode : NodeStat
  quadLeaf : LeafStat
  proceduralLeaf : LeafStat
  instanceLeaf : LeafStat
  deriving DecidableEq, Repr

instance : Add NodeStat :=
  ⟨fun a b => ⟨a.numNodes + b.numNodes, a.numChildrenUsed + b.numChildrenUsed,
    a.numChildrenTotal + b.numChildrenTotal, a.numBytes + b.numBytes⟩⟩

instance : Add LeafStat :=
  ⟨fun a b => ⟨a.numLeaves + b.numLeaves, a.numBlocks + b.numBlocks, a.numPrimsUsed + b.numPrimsUsed,
    a.numPrimsTotal + b.numPrimsTotal, a.numBytesUsed + b.numBytesUsed,
    a.numBytesTotal + b.numBytesTotal⟩⟩

instance : Add BVHStatistics :=
  ⟨fun a b => ⟨a.internalNode + b.internalNode, a.quadLeaf + b.quadLeaf,
    a.proceduralLeaf + b.proceduralLeaf, a.instanceLeaf + b.instanceLeaf⟩⟩

def NodeStat.zero : NodeStat := ⟨0, 0, 0, 0⟩

def LeafStat.zero : LeafStat := ⟨0, 0, 0, 0, 0, 0⟩

def BVHStatistics.zero : BVHStatistics := ⟨.zero, .zero, .zero, .zero⟩

section add

theorem NodeStat.add_def (a b : NodeStat) :
    a + b = ⟨a.numNodes + b.numNodes, a.numChildrenUsed + b.numChildrenUsed,
      a.numChildrenTotal + b.numChildrenTotal, a.numBytes + b.numBytes⟩ := rfl

theorem LeafStat.add_def (a b : LeafStat) :
    a + b = ⟨a.numLeaves + b.numLeaves, a.numBlocks + b.numBlocks, a.numPrimsUsed + b.numPrimsUsed,
      a.numPrimsTotal + b.numPrimsTotal, a.numBytesUsed + b.numBytesUsed,
      a.numBytesTotal + b.numBytesTotal⟩ := rfl

theorem BVHStatistics.add_def (a b : BVHStatistics) :
    a + b = ⟨a.internalNode + b.internalNode, a.quadLeaf + b.quadLeaf,
      a.proceduralLeaf + b.proceduralLeaf, a.instanceLeaf + b.instanceLeaf⟩ := rfl

theorem LeafStat.add_assoc (a b c : LeafStat) : a + b + c = a + (b + c) := by
  simp only [LeafStat.add_def, Nat.add_assoc]

theorem BVHStatistics.add_assoc (a b c : BVHStatistics) : a + b + c = a + (b + c) := by
  simp only [BVHStatistics.add_def, NodeStat.add_def, LeafStat.add_def, Nat.add_assoc]

theorem LeafStat.add_zero (a : LeafStat) : a + .zero = a := rfl

theorem BVHStatistics.zero_add (a : BVHStatistics) : .zero + a = a := by
  simp only [BVHStatistics.add_def, NodeStat.add_def, LeafStat.add_def, BVHStatistics.zero,
    NodeStat.zero, LeafStat.zero, Nat.zero_add]

end add

def QuadLeaf.usedBytes (leaf : QuadLeaf) : Nat := if leaf.valid2 then 64 else 64 - 12

def ProceduralLeaf.usedBytes (leaf : ProceduralLeaf) : Nat := 8 + 4 + 4 * leaf.numPrimitives

section statistics

variable (m : Nat → Option Cell)

def quadStatistics : Nat → LeafStat → Nat → Option LeafStat
  | 0, _, _ => none
  | fuel + 1, stats, addr =>
      match m addr with
      | some (.quad quad) =>
          let stats := { stats with
            numPrimsUsed := stats.numPrimsUsed + quad.size
            numPrimsTotal := stats.numPrimsTotal + 2
            numBytesUsed := stats.numBytesUsed + quad.usedBytes
            numBytesTotal := stats.numBytesTotal + nodeBytes }
          if quad.last then some stats else quadStatistics fuel stats (addr + nodeBytes)
      | _ => none

def proceduralStatistics : Nat → LeafStat → Nat → Nat → Option LeafStat
  | 0, _, _, _ => none
  | fuel + 1, stats, addr, currPrim =>
      match m addr with
      | some (.procedural leaf) =>
          let stats := if currPrim = 0 then
            { stats with
              numBlocks := stats.numBlocks + 1
              numBytesUsed := stats.numBytesUsed + leaf.usedBytes
              numBytesTotal := stats.numBytesTotal + nodeBytes }
            else stats
          let stats := { stats with
            numPrimsUsed := stats.numPrimsUsed + 1
            numPrimsTotal := stats.numPrimsTotal + 1 }
          if leaf.isLast currPrim then some stats
          else if leaf.numPrimitives ≤ currPrim + 1 then
            proceduralStatistics fuel stats (addr + nodeBytes) 0
          else proceduralStatistics fuel stats addr (currPrim + 1)
      | _ => none

/-- computeStatistics and computeInternalNodeStatistics. The result is none where a cell holds something
else than is expected. -/
def computeStatistics : Nat → BVHStatistics → NodeRef → Option BVHStatistics
  | 0, _, _ => none
  | fuel + 1, stats, ref =>
      match ref.type with
      | .inst =>
          some { stats with instanceLeaf := { stats.instanceLeaf with
            numLeaves := stats.instanceLeaf.numLeaves + 1
            numPrimsUsed := stats.instanceLeaf.numPrimsUsed + 1
            numPrimsTotal := stats.instanceLeaf.numPrimsTotal + 1
            numBytesUsed := stats.instanceLeaf.numBytesUsed + sizeofInstanceLeaf
            numBytesTotal := stats.instanceLeaf.numBytesTotal + sizeofInstanceLeaf } }
      | .quad =>
          let quadLeaf := { stats.quadLeaf with numLeaves := stats.quadLeaf.numLeaves + 1 }
          (quadStatistics m fuel quadLeaf ref.node).map (fun quadLeaf =>
            { stats with quadLeaf := quadLeaf })
      | .procedural =>
          let proceduralLeaf := { stats.proceduralLeaf with
            numLeaves := stats.proceduralLeaf.numLeaves + 1 }
          (proceduralStatistics m fuel proceduralLeaf ref.node ref.curPrim).map (fun proceduralLeaf =>
            { stats with proceduralLeaf := proceduralLeaf })
      | .internal =>
          match m ref.node with
          | some (.node inner) => do
              let (stats, size) ← (List.finRange 6).foldlM (fun acc i =>
                if inner.valid i then
                  (inner.child ref.node i).bind (fun child =>
                    (computeStatistics fuel acc.1 child).map (fun stats => (stats, acc.2 + 1)))
                else some acc) (stats, 0)
              return { stats with internalNode :=
                { numNodes := stats.internalNode.numNodes + 1
                  numChildrenUsed := stats.internalNode.numChildrenUsed + size
                  numChildrenTotal := stats.internalNode.numChildrenTotal + 6
                  numBytes := stats.internalNode.numBytes + nodeBytes } }
          | _ => none
      | .invalid => none

end statistics

section tallies

variable {b : BuilderT} {m : Nat → Option Cell} {list list' : List PrimRef}

def quadPrims (b : BuilderT) (list : List PrimRef) : List PrimRef :=
  list.filter (fun prim => b.getType prim.geomID = .triangle ∨ b.getType prim.geomID = .quad)

def primsOfType (b : BuilderT) (ty : PrimType) (list : List PrimRef) : List PrimRef :=
  list.filter (fun prim => b.getType prim.geomID = ty)

def numTriangles (b : BuilderT) (list : List PrimRef) : Nat :=
  ((quadPrims b list).map (fun prim => (reports b prim).length)).sum

structure Tallies (b : BuilderT) (roots : Nat) (list : List PrimRef) (stats : BVHStatistics) : Prop where
  nodes : stats.internalNode.numChildrenTotal = 6 * stats.internalNode.numNodes ∧
    stats.internalNode.numBytes = 64 * stats.internalNode.numNodes
  children : stats.internalNode.numChildrenUsed + roots = stats.internalNode.numNodes +
    stats.quadLeaf.numLeaves + stats.proceduralLeaf.numLeaves + stats.instanceLeaf.numLeaves
  triangles : stats.quadLeaf.numPrimsUsed = numTriangles b list
  quads : stats.quadLeaf.numPrimsTotal = 2 * (quadPrims b list).length ∧
    stats.quadLeaf.numBytesTotal = 64 * (quadPrims b list).length
  quadBytes : stats.quadLeaf.numBytesUsed =
    40 * (quadPrims b list).length + 12 * stats.quadLeaf.numPrimsUsed
  procedurals : stats.proceduralLeaf.numPrimsUsed = (primsOfType b .procedural list).length ∧
    stats.proceduralLeaf.numPrimsTotal = (primsOfType b .procedural list).length
  blocks : stats.proceduralLeaf.numBytesTotal = 64 * stats.proceduralLeaf.numBlocks ∧
    stats.proceduralLeaf.numBlocks ≤ (primsOfType b .procedural list).length
  instances : stats.instanceLeaf = ⟨(primsOfType b .inst list).length, 0,
    (primsOfType b .inst list).length, (primsOfType b .inst list).length,
    128 * (primsOfType b .inst list).length, 128 * (primsOfType b .inst list).length⟩

theorem tallies_zero : Tallies b 0 [] .zero :=
  ⟨⟨rfl, rfl⟩, rfl, rfl, ⟨rfl, rfl⟩, rfl, ⟨rfl, rfl⟩, ⟨rfl, le_rfl⟩, rfl⟩

theorem Tallies.add {roots roots' : Nat} {stats stats' : BVHStatistics} (h : Tallies b roots list stats)
    (h' : Tallies b roots' list' stats') :
    Tallies b (roots + roots') (list ++ list') (stats + stats') := by
  obtain ⟨⟨hnodes, hbytes⟩, hchildren, htriangles, ⟨hquads, hquadBytes⟩, hused, ⟨hprocs, htotal⟩,
    ⟨hblockBytes, hblocks⟩, hinst⟩ := h
  obtain ⟨⟨hnodes', hbytes'⟩, hchildren', htriangles', ⟨hquads', hquadBytes'⟩, hused',
    ⟨hprocs', htotal'⟩, ⟨hblockBytes', hblocks'⟩, hinst'⟩ := h'
  have hquadPrims : quadPrims b (list ++ list') = quadPrims b list ++ quadPrims b list' :=
    List.filter_append ..
  have hprims : ∀ ty,
      primsOfType b ty (list ++ list') = primsOfType b ty list ++ primsOfType b ty list' :=
    fun ty => List.filter_append ..
  have hnum : numTriangles b (list ++ list') = numTriangles b list + numTriangles b list' := by
    rw [numTriangles, hquadPrims, List.map_append, List.sum_append, numTriangles, numTriangles]
  constructor
  all_goals simp only [BVHStatistics.add_def, NodeStat.add_def, LeafStat.add_def, hquadPrims, hprims,
    hnum, List.length_append]
  · omega
  · omega
  · omega
  · omega
  · omega
  · omega
  · omega
  · rw [hinst, hinst']
    simp only [Nat.mul_add]

theorem Tallies.perm {roots : Nat} {stats : BVHStatistics} (h : Tallies b roots list stats)
    (hperm : list.Perm list') : Tallies b roots list' stats := by
  have hquadPrims : (quadPrims b list).Perm (quadPrims b list') := hperm.filter _
  have hprims : ∀ ty, (primsOfType b ty list).length = (primsOfType b ty list').length :=
    fun ty => (hperm.filter _).length_eq
  have hnum : numTriangles b list = numTriangles b list' := (hquadPrims.map _).sum_eq
  obtain ⟨hnodes, hchildren, htriangles, hquads, hused, hprocs, hblocks, hinst⟩ := h
  rw [hquadPrims.length_eq] at hquads hused
  rw [hprims] at hprocs hblocks hinst
  exact ⟨hnodes, hchildren, hnum ▸ htriangles, hquads, hused, hprocs, hblocks, hinst⟩

/-- The size of each quad leaf is the number of triangles that are stored for its primitive. -/
def SizesRight (b : BuilderT) (m : Nat → Option Cell) : Prop :=
  ∀ addr leaf prim, m addr = some (.quad leaf) → leaf.prim = leafPrim b prim →
    leaf.size = (reports b prim).length

theorem QuadLeaf.usedBytes_eq (leaf : QuadLeaf) : leaf.usedBytes = 40 + 12 * leaf.size := by
  rw [QuadLeaf.usedBytes, QuadLeaf.size]
  cases leaf.valid2 <;> rfl

def quadStat (b : BuilderT) (list : List PrimRef) : LeafStat :=
  let numPrimsUsed := (list.map (fun prim => (reports b prim).length)).sum
  ⟨0, 0, numPrimsUsed, 2 * list.length, 40 * list.length + 12 * numPrimsUsed, 64 * list.length⟩

theorem quadStat_cons (prim : PrimRef) (list : List PrimRef) :
    quadStat b (prim :: list) =
      ⟨0, 0, (reports b prim).length, 2, 40 + 12 * (reports b prim).length, 64⟩ + quadStat b list := by
  simp only [quadStat, LeafStat.add_def, List.map_cons, List.sum_cons, List.length_cons, Nat.mul_add]
  congr 1
  all_goals omega

theorem type_of_quad {prim : PrimRef} {geomIndex : Fin (2 ^ 29)} {primIndex : Fin (2 ^ 32)}
    {mask : BitVec 8} (h : .quad geomIndex primIndex mask = leafPrim b prim) :
    b.getType prim.geomID = .triangle ∨ b.getType prim.geomID = .quad := by
  rw [leafPrim] at h
  split at h
  all_goals cases h
  next htype => exact Or.inl htype
  next htype => exact Or.inr htype

theorem decodeQuads_succ {fuel addr : Nat} {prims : List LeafPrim}
    (h : decodeQuads m (fuel + 1) addr = some prims) :
    ∃ leaf rest, m addr = some (.quad leaf) ∧ prims = leaf.prim :: rest ∧
      if leaf.last then rest = [] else decodeQuads m fuel (addr + nodeBytes) = some rest := by
  rw [decodeQuads] at h
  cases hcell : m addr with
  | none => simp [hcell] at h
  | some cell =>
      cases cell with
      | quad leaf =>
          simp only [hcell] at h
          split at h
          next hlast => exact ⟨leaf, [], rfl, (Option.some.inj h).symm, by rw [if_pos hlast]⟩
          next hlast =>
            obtain ⟨rest, hrest, heq⟩ := Option.map_eq_some_iff.1 h
            exact ⟨leaf, rest, rfl, heq.symm, by rwa [if_neg hlast]⟩
      | _ => simp [hcell] at h

theorem decodeProcedurals_succ {fuel addr curPrim : Nat} {prims : List LeafPrim}
    (h : decodeProcedurals m (fuel + 1) addr curPrim = some prims) :
    ∃ leaf geomIndex primIndex mask rest, m addr = some (.procedural leaf) ∧
      prims = .procedural geomIndex primIndex mask :: rest ∧
      if leaf.isLast curPrim then rest = []
      else if leaf.numPrimitives ≤ curPrim + 1 then
        decodeProcedurals m fuel (addr + nodeBytes) 0 = some rest
      else decodeProcedurals m fuel addr (curPrim + 1) = some rest := by
  rw [decodeProcedurals] at h
  cases hcell : m addr with
  | none => simp [hcell] at h
  | some cell =>
      cases cell with
      | procedural leaf =>
          simp only [hcell] at h
          split at h
          · split at h
            next hlast =>
              exact ⟨leaf, _, _, _, [], rfl, (Option.some.inj h).symm, by rw [if_pos hlast]⟩
            next hlast =>
              obtain ⟨rest, hrest, heq⟩ := Option.map_eq_some_iff.1 h
              refine ⟨leaf, _, _, _, rest, rfl, heq.symm, ?_⟩
              rw [if_neg hlast]
              split at hrest
              next hfull => rwa [if_pos hfull]
              next hfull => rwa [if_neg hfull]
          · cases h
      | _ => simp [hcell] at h

theorem quadStatistics_eq (hsize : SizesRight b m) {fuel addr : Nat}
    (h : decodeQuads m fuel addr = some (list.map (leafPrim b))) (stats : LeafStat) :
    quadStatistics m fuel stats addr = some (stats + quadStat b list) ∧ quadPrims b list = list := by
  induction fuel generalizing addr list stats with
  | zero => cases h
  | succ fuel ih =>
      obtain ⟨leaf, rest, hcell, hprims, hrest⟩ := decodeQuads_succ h
      obtain ⟨prim, list, rfl, hprim, rfl⟩ := List.map_eq_cons_iff.1 hprims
      have htype : b.getType prim.geomID = .triangle ∨ b.getType prim.geomID = .quad :=
        type_of_quad hprim.symm
      have hquad : quadPrims b (prim :: list) = prim :: quadPrims b list :=
        List.filter_cons_of_pos (decide_eq_true htype)
      rw [quadStatistics, hcell, hquad, quadStat_cons, ← LeafStat.add_assoc]
      simp only [leaf.usedBytes_eq, hsize addr leaf prim hcell hprim.symm]
      split at hrest
      next hlast =>
        obtain rfl := List.map_eq_nil_iff.1 hrest
        exact ⟨if_pos hlast, rfl⟩
      next hlast =>
        obtain ⟨hstats, hlist⟩ := ih hrest _
        exact ⟨(if_neg hlast).trans hstats, by rw [hlist]⟩

/-- What is counted for some procedurals. A block that is not entered at its first slot is not. -/
structure ProceduralStat (n : Nat) (stats : LeafStat) : Prop where
  numLeaves : stats.numLeaves = 0
  numPrims : stats.numPrimsUsed = n ∧ stats.numPrimsTotal = n
  blocks : stats.numBytesTotal = 64 * stats.numBlocks ∧ stats.numBlocks ≤ n

theorem ProceduralStat.add {n n' : Nat} {stats stats' : LeafStat} (h : ProceduralStat n stats)
    (h' : ProceduralStat n' stats') : ProceduralStat (n + n') (stats + stats') := by
  obtain ⟨hleaves, ⟨hused, htotal⟩, hbytes, hblocks⟩ := h
  obtain ⟨hleaves', ⟨hused', htotal'⟩, hbytes', hblocks'⟩ := h'
  constructor
  all_goals simp only [LeafStat.add_def]
  all_goals omega

def slotStat (leaf : ProceduralLeaf) (curPrim : Nat) : LeafStat :=
  if curPrim = 0 then ⟨0, 1, 1, 1, leaf.usedBytes, nodeBytes⟩ else ⟨0, 0, 1, 1, 0, 0⟩

theorem proceduralStat_slotStat (leaf : ProceduralLeaf) (curPrim : Nat) :
    ProceduralStat 1 (slotStat leaf curPrim) := by
  rw [slotStat]
  split
  · exact ⟨rfl, ⟨rfl, rfl⟩, rfl, le_rfl⟩
  · exact ⟨rfl, ⟨rfl, rfl⟩, rfl, Nat.zero_le 1⟩

theorem proceduralStatistics_succ {fuel addr curPrim : Nat} {leaf : ProceduralLeaf}
    (hcell : m addr = some (.procedural leaf)) (stats : LeafStat) :
    proceduralStatistics m (fuel + 1) stats addr curPrim =
      if leaf.isLast curPrim then some (stats + slotStat leaf curPrim)
      else if leaf.numPrimitives ≤ curPrim + 1 then
        proceduralStatistics m fuel (stats + slotStat leaf curPrim) (addr + nodeBytes) 0
      else proceduralStatistics m fuel (stats + slotStat leaf curPrim) addr (curPrim + 1) := by
  rw [proceduralStatistics, hcell]
  by_cases hfirst : curPrim = 0
  · simp only [slotStat, if_pos hfirst]
    rfl
  · simp only [slotStat, if_neg hfirst]
    rfl

theorem type_of_procedural {prim : PrimRef} {geomIndex : Fin (2 ^ 29)} {primIndex : Fin (2 ^ 32)}
    {mask : BitVec 8} (h : leafPrim b prim = .procedural geomIndex primIndex mask) :
    b.getType prim.geomID = .procedural := by
  rw [leafPrim] at h
  split at h
  all_goals cases h
  next htype => exact htype

theorem proceduralStatistics_eq {fuel addr curPrim : Nat}
    (h : decodeProcedurals m fuel addr curPrim = some (list.map (leafPrim b))) (stats : LeafStat) :
    (∃ inc, proceduralStatistics m fuel stats addr curPrim = some (stats + inc) ∧
      ProceduralStat list.length inc) ∧ primsOfType b .procedural list = list := by
  induction fuel generalizing addr curPrim list stats with
  | zero => cases h
  | succ fuel ih =>
      obtain ⟨leaf, geomIndex, primIndex, mask, rest, hcell, hprims, hrest⟩ := decodeProcedurals_succ h
      obtain ⟨prim, list, rfl, hprim, rfl⟩ := List.map_eq_cons_iff.1 hprims
      have hprocedural : primsOfType b .procedural (prim :: list) =
          prim :: primsOfType b .procedural list :=
        List.filter_cons_of_pos (decide_eq_true (type_of_procedural hprim))
      have hslot := proceduralStat_slotStat leaf curPrim
      rw [proceduralStatistics_succ hcell, hprocedural, List.length_cons, Nat.add_comm list.length]
      split at hrest
      next hlast =>
        obtain rfl := List.map_eq_nil_iff.1 hrest
        exact ⟨⟨_, if_pos hlast, hslot⟩, rfl⟩
      next hlast =>
        rw [if_neg hlast]
        split at hrest
        next hfull =>
          obtain ⟨⟨inc, hinc, hstat⟩, hlist⟩ := ih hrest (stats + slotStat leaf curPrim)
          rw [if_pos hfull, hinc, LeafStat.add_assoc, hlist]
          exact ⟨⟨_, rfl, hslot.add hstat⟩, rfl⟩
        next hfull =>
          obtain ⟨⟨inc, hinc, hstat⟩, hlist⟩ := ih hrest (stats + slotStat leaf curPrim)
          rw [if_neg hfull, hinc, LeafStat.add_assoc, hlist]
          exact ⟨⟨_, rfl, hslot.add hstat⟩, rfl⟩

theorem primsOfType_eq_nil {ty ty' : PrimType} (hne : ty ≠ ty')
    (h : primsOfType b ty list = list) : primsOfType b ty' list = [] := by
  refine List.filter_eq_nil_iff.2 (fun prim hprim hty => hne ?_)
  have hprim := of_decide_eq_true (List.filter_eq_self.1 h prim hprim)
  exact hprim.symm.trans (of_decide_eq_true hty)

theorem quadPrims_eq_nil {ty : PrimType} (htriangle : ty ≠ .triangle) (hquad : ty ≠ .quad)
    (h : primsOfType b ty list = list) : quadPrims b list = [] := by
  refine List.filter_eq_nil_iff.2 (fun prim hprim hty => ?_)
  have hprim := of_decide_eq_true (List.filter_eq_self.1 h prim hprim)
  rcases of_decide_eq_true hty with hty | hty
  · exact htriangle (hprim.symm.trans hty)
  · exact hquad (hprim.symm.trans hty)

theorem primsOfType_of_quads {ty : PrimType} (htriangle : ty ≠ .triangle) (hquad : ty ≠ .quad)
    (h : quadPrims b list = list) : primsOfType b ty list = [] := by
  refine List.filter_eq_nil_iff.2 (fun prim hprim hty => ?_)
  have hty := of_decide_eq_true hty
  rcases of_decide_eq_true (List.filter_eq_self.1 h prim hprim) with hprim | hprim
  · exact htriangle (hty.symm.trans hprim)
  · exact hquad (hty.symm.trans hprim)

theorem tallies_quads (h : quadPrims b list = list) :
    Tallies b 1 list ⟨.zero, ⟨1, 0, 0, 0, 0, 0⟩ + quadStat b list, .zero, .zero⟩ := by
  have hprocedural : primsOfType b .procedural list = [] :=
    primsOfType_of_quads (by decide) (by decide) h
  have hinst : primsOfType b .inst list = [] := primsOfType_of_quads (by decide) (by decide) h
  constructor
  all_goals simp only [numTriangles, h, hprocedural, hinst, LeafStat.add_def, quadStat,
    Nat.zero_add]
  · exact ⟨rfl, rfl⟩
  · rfl
  · exact ⟨trivial, trivial⟩
  · exact ⟨rfl, rfl⟩
  · exact ⟨rfl, le_rfl⟩
  · rfl

theorem tallies_procedurals (h : primsOfType b .procedural list = list) {inc : LeafStat}
    (hinc : ProceduralStat list.length inc) :
    Tallies b 1 list ⟨.zero, .zero, ⟨1, 0, 0, 0, 0, 0⟩ + inc, .zero⟩ := by
  have hquads : quadPrims b list = [] := quadPrims_eq_nil (by decide) (by decide) h
  have hinst : primsOfType b .inst list = [] := primsOfType_eq_nil (by decide) h
  obtain ⟨hleaves, hprims, hblocks⟩ := hinc
  constructor
  all_goals simp only [numTriangles, h, hquads, hinst, LeafStat.add_def, Nat.zero_add]
  · exact ⟨rfl, rfl⟩
  · rw [hleaves]
    rfl
  · rfl
  · exact ⟨rfl, rfl⟩
  · rfl
  · exact hprims
  · exact hblocks
  · rfl

theorem tallies_inst {prim : PrimRef} (h : b.getType prim.geomID = .inst) :
    Tallies b 1 [prim] ⟨.zero, .zero, .zero, ⟨1, 0, 1, 1, 128, 128⟩⟩ := by
  have hinst : primsOfType b .inst [prim] = [prim] := List.filter_cons_of_pos (decide_eq_true h)
  have hquads : quadPrims b [prim] = [] := quadPrims_eq_nil (by decide) (by decide) hinst
  have hprocedural : primsOfType b .procedural [prim] = [] := primsOfType_eq_nil (by decide) hinst
  constructor
  all_goals simp only [numTriangles, hquads, hprocedural, hinst]
  · exact ⟨rfl, rfl⟩
  · rfl
  · rfl
  · exact ⟨rfl, rfl⟩
  · rfl
  · exact ⟨rfl, rfl⟩
  · exact ⟨rfl, le_rfl⟩
  · rfl

/-- A node adds itself and its children, which are no roots any more. -/
theorem Tallies.node {roots : Nat} {stats : BVHStatistics} (h : Tallies b roots list stats) :
    Tallies b 1 list (stats + ⟨⟨1, roots, 6, nodeBytes⟩, .zero, .zero, .zero⟩) := by
  obtain ⟨hnodes, hchildren, htriangles, hquads, hused, hprocs, hblocks, hinst⟩ := h
  refine ⟨?_, ?_, htriangles, hquads, hused, hprocs, hblocks, hinst⟩
  all_goals simp only [BVHStatistics.add_def, NodeStat.add_def, LeafStat.add_zero]
  · have hbytes : nodeBytes = 64 := rfl
    omega
  · omega

/-- The loop over the children of a node, with a property of what has been counted so far. -/
theorem children_loop {compute : BVHStatistics → NodeRef → Option BVHStatistics} {inner : InternalNode}
    {addr : Nat} {P : List (Fin 6) → Nat → BVHStatistics → Prop} (hnil : P [] 0 .zero)
    (hvalid : ∀ i, inner.valid i = true → ∃ ref, inner.child addr i = some ref ∧
      ∀ stats, ∃ inc, compute stats ref = some (stats + inc) ∧
        ∀ l roots inc', P l roots inc' → P (i :: l) (1 + roots) (inc + inc'))
    (hinvalid : ∀ i, inner.valid i = false → ∀ l roots inc, P l roots inc → P (i :: l) roots inc)
    (l : List (Fin 6)) (stats : BVHStatistics) (size : Nat) :
    ∃ inc roots, l.foldlM (fun acc i => if inner.valid i then
        (inner.child addr i).bind (fun child =>
          (compute acc.1 child).map (fun stats => (stats, acc.2 + 1)))
        else some acc) (stats, size) = some (stats + inc, size + roots) ∧ P l roots inc := by
  induction l generalizing stats size with
  | nil => exact ⟨.zero, 0, rfl, hnil⟩
  | cons i l ih =>
      rw [List.foldlM_cons]
      cases hv : inner.valid i with
      | true =>
          obtain ⟨ref, href, hcompute⟩ := hvalid i hv
          obtain ⟨inc, hinc, hcons⟩ := hcompute stats
          obtain ⟨inc', roots, hrest, hl⟩ := ih (stats + inc) (size + 1)
          refine ⟨inc + inc', 1 + roots, ?_, hcons l roots inc' hl⟩
          rw [if_pos rfl, href, Option.bind_some, hinc]
          rw [← BVHStatistics.add_assoc, ← Nat.add_assoc]
          exact hrest
      | false =>
          obtain ⟨inc, roots, hrest, hl⟩ := ih stats size
          exact ⟨inc, roots, hrest, hinvalid i hv l roots inc hl⟩

theorem computeStatistics_loop {fuel : Nat} {ref : NodeRef} (htype : ref.type = .internal)
    {inner : InternalNode} (hm : m ref.node = some (.node inner))
    {P : List (Fin 6) → Nat → BVHStatistics → Prop} (hnil : P [] 0 .zero)
    (hvalid : ∀ i, inner.valid i = true → ∃ ref', inner.child ref.node i = some ref' ∧
      ∀ stats, ∃ inc, computeStatistics m fuel stats ref' = some (stats + inc) ∧
        ∀ l roots inc', P l roots inc' → P (i :: l) (1 + roots) (inc + inc'))
    (hinvalid : ∀ i, inner.valid i = false → ∀ l roots inc, P l roots inc → P (i :: l) roots inc)
    (stats : BVHStatistics) :
    ∃ inc roots, computeStatistics m (fuel + 1) stats ref =
        some (stats + (inc + ⟨⟨1, roots, 6, nodeBytes⟩, .zero, .zero, .zero⟩)) ∧
      P (List.finRange 6) roots inc := by
  obtain ⟨inc, roots, hfold, hall⟩ := children_loop hnil hvalid hinvalid (List.finRange 6) stats 0
  refine ⟨inc, roots, ?_, hall⟩
  rw [computeStatistics, htype]
  simp only [hm]
  rw [hfold, Nat.zero_add, ← BVHStatistics.add_assoc]
  rfl

theorem computeStatistics_node {fuel : Nat} {ref : NodeRef} (htype : ref.type = .internal)
    {inner : InternalNode} (hm : m ref.node = some (.node inner))
    {child : Fin 6 → WideTree 6 (BitVec 8) BBox3f PrimRef}
    (hvalid : ∀ i, inner.valid i = true → ∃ ref', inner.child ref.node i = some ref' ∧
      ∀ stats, ∃ inc, computeStatistics m fuel stats ref' = some (stats + inc) ∧
        Tallies b 1 (child i).prims inc)
    (hinvalid : ∀ i, inner.valid i = false → child i = .absent) (stats : BVHStatistics) :
    ∃ inc, computeStatistics m (fuel + 1) stats ref = some (stats + inc) ∧
      Tallies b 1 ((List.finRange 6).flatMap (fun i => (child i).prims)) inc := by
  obtain ⟨inc, roots, hcompute, htallies⟩ := computeStatistics_loop htype hm
    (P := fun l roots inc => Tallies b roots (l.flatMap (fun i => (child i).prims)) inc) tallies_zero
    (fun i hv => by
      obtain ⟨ref', href, hcompute⟩ := hvalid i hv
      refine ⟨ref', href, fun stats => ?_⟩
      obtain ⟨inc, hinc, htallies⟩ := hcompute stats
      exact ⟨inc, hinc, fun l roots inc' hl => htallies.add hl⟩)
    (fun i hv l roots inc hl => by
      rw [List.flatMap_cons, hinvalid i hv]
      exact hl) stats
  exact ⟨_, hcompute, htallies.node⟩

theorem type_of_inst {addr : Nat} {prim : PrimRef} (h : decodeInstance m addr = some (leafPrim b prim)) :
    b.getType prim.geomID = .inst := by
  rw [decodeInstance] at h
  split at h
  next part0 part1 h0 h1 =>
    have hleaf := (Option.some.inj h).symm
    rw [leafPrim] at hleaf
    cases htype : b.getType prim.geomID with
    | inst => rfl
    | _ =>
        rw [htype] at hleaf
        cases hleaf
  · cases h

/-- A traversal counts what is read. -/
theorem computeStatistics_eq (hsize : SizesRight b m) {fuel : Nat} {ref : NodeRef}
    {tree : WideTree 6 (BitVec 8) BBox3f PrimRef}
    (h : decode m fuel ref = some (tree.map (leafPrim b))) (stats : BVHStatistics) :
    ∃ inc, computeStatistics m fuel stats ref = some (stats + inc) ∧ Tallies b 1 tree.prims inc := by
  induction fuel generalizing ref tree stats with
  | zero => cases h
  | succ fuel ih =>
      rw [decode] at h
      cases htype : ref.type with
      | invalid =>
          rw [htype] at h
          cases h
      | quad =>
          rw [htype] at h
          rw [computeStatistics, htype]
          obtain ⟨prims, hprims, heq⟩ := Option.map_eq_some_iff.1 h
          obtain ⟨list, rfl, rfl⟩ := WideTree.eq_leaf_of_map heq
          obtain ⟨hstats, hquads⟩ := quadStatistics_eq hsize hprims (stats.quadLeaf + ⟨1, 0, 0, 0, 0, 0⟩)
          refine ⟨_, ?_, tallies_quads hquads⟩
          rw [LeafStat.add_assoc] at hstats
          exact congrArg (Option.map _) hstats
      | procedural =>
          rw [htype] at h
          rw [computeStatistics, htype]
          obtain ⟨prims, hprims, heq⟩ := Option.map_eq_some_iff.1 h
          obtain ⟨list, rfl, rfl⟩ := WideTree.eq_leaf_of_map heq
          obtain ⟨⟨inc, hstats, hinc⟩, hprocedurals⟩ :=
            proceduralStatistics_eq hprims (stats.proceduralLeaf + ⟨1, 0, 0, 0, 0, 0⟩)
          refine ⟨_, ?_, tallies_procedurals hprocedurals hinc⟩
          rw [LeafStat.add_assoc] at hstats
          exact congrArg (Option.map _) hstats
      | inst =>
          rw [htype] at h
          rw [computeStatistics, htype]
          obtain ⟨leaf, hleaf, heq⟩ := Option.map_eq_some_iff.1 h
          obtain ⟨list, rfl, hlist⟩ := WideTree.eq_leaf_of_map heq
          obtain ⟨prim, rfl, hprim⟩ := List.map_eq_singleton_iff.1 hlist.symm
          exact ⟨_, rfl, tallies_inst (type_of_inst (hleaf.trans (congrArg some hprim.symm)))⟩
      | internal =>
          rw [htype] at h
          cases hcell : m ref.node with
          | none => simp [hcell] at h
          | some cell =>
              cases cell with
              | node node =>
                  simp only [hcell] at h
                  obtain ⟨child', hsequence, heq⟩ := Option.map_eq_some_iff.1 h
                  obtain ⟨child, rfl, rfl⟩ := WideTree.eq_node_of_map heq
                  have hvalid : ∀ i, node.valid i = true → ∃ ref', node.child ref.node i = some ref' ∧
                      ∀ stats, ∃ inc, computeStatistics m fuel stats ref' = some (stats + inc) ∧
                        Tallies b 1 (child i).prims inc := by
                    intro i hv
                    have hi := of_sequence_eq_some hsequence i
                    rw [hv, if_pos rfl] at hi
                    obtain ⟨ref', href, hdecode⟩ := Option.bind_eq_some_iff.1 hi
                    exact ⟨ref', href, ih hdecode⟩
                  have hinvalid : ∀ i, node.valid i = false → child i = .absent := by
                    intro i hv
                    have hi := of_sequence_eq_some hsequence i
                    rw [hv] at hi
                    exact WideTree.eq_absent_of_map (Option.some.inj hi)
                  exact computeStatistics_node htype hcell hvalid hinvalid stats
              | _ => simp [hcell] at h

theorem size_createQuadLeaf {prim : PrimRef}
    (hty : b.getType prim.geomID = .triangle ∨ b.getType prim.geomID = .quad) :
    (createQuadLeaf b (b.getType prim.geomID) prim).size = (reports b prim).length := by
  rcases hty with htype | htype
  · rw [createQuadLeaf, if_pos htype, QuadLeaf.size]
    by_cases hsecond : b.quadification prim.geomID prim.primID = 0
    · simp [getTriangleInternal, reports, htype, hsecond, QuadLeaf.valid2]
    · have hvalid : (getTriangleInternal prim.geomID prim.primID (b.getTriangle prim.geomID)
          (b.quadification prim.geomID)).valid2 = true ↔ _ := getTriangleInternal_valid2 hsecond
      by_cases hcollapsed : Collapsed (b.getTriangle prim.geomID prim.primID).indices
          (b.getTriangle prim.geomID (prim.primID + b.quadification prim.geomID prim.primID)).indices
      · rw [Bool.eq_false_iff.2 (mt hvalid.1 (not_not.2 hcollapsed))]
        simp only [reports, htype, hcollapsed, not_true_eq_false, and_false, if_false]
        rfl
      · rw [hvalid.2 hcollapsed]
        simp only [reports, htype, hsecond, hcollapsed, ne_eq, not_false_eq_true, and_self, if_true]
        rfl
  · rw [createQuadLeaf, if_neg (by rw [htype]; decide)]
    simp only [reports, htype]
    rfl

end tallies

section build

variable {b : BuilderT} {fuel endBytes cur : Nat} {prims : Nat → PrimRef} {pinfo : PrimInfoRange}
  {t : List BuildEvent} {v : ReductionTy}

theorem build_sizesRight
    (hbounds : (rootRecord pinfo).bounds = unionBounds ((rootRecord pinfo).list prims))
    (hrun : BufferRun endBytes (build b fuel prims pinfo) 0 t (.ret v) cur) (hv : v.valid = true) :
    SizesRight b (memory t) := by
  intro addr leaf prim hm hprim
  obtain ⟨hty, heq⟩ := quadLeaf_of_prim (build_authentic hbounds hrun hv hm) hprim
  rw [heq]
  exact size_createQuadLeaf hty

/-- Statistics that are computed after a build count each primitive once, as what it is stored as, and
the nodes and leaves of one tree. -/
theorem statistics_tally (b : BuilderT) (fuel endBytes : Nat) (prims : Nat → PrimRef)
    (pinfo : PrimInfoRange) (t : List BuildEvent) (v : ReductionTy) (cur : Nat)
    (hbounds : (rootRecord pinfo).bounds = unionBounds ((rootRecord pinfo).list prims))
    (hend : endBytes ≤ 2 ^ 37) (hrun : BufferRun endBytes (build b fuel prims pinfo) 0 t (.ret v) cur)
    (hv : v.valid = true) :
    ∃ n, ∀ steps, n ≤ steps → ∃ stats,
      computeStatistics (memory t) steps .zero ⟨headerBytes, .internal, 0⟩ = some stats ∧
        Tallies b 1 ((rootRecord pinfo).list prims) stats := by
  have hsize := build_sizesRight hbounds hrun hv
  cases build_built hbounds hend hrun hv with
  | empty hlist hroot =>
      refine ⟨1, fun steps hsteps => ?_⟩
      obtain ⟨steps, rfl⟩ := Nat.exists_eq_add_of_le' hsteps
      have hinvalid : ∀ i, (InternalNode.ofType .internal).valid i = false := by decide
      have hnode : ∃ inc, computeStatistics (memory t) (steps + 1) .zero ⟨headerBytes, .internal, 0⟩ =
          some (.zero + inc) ∧ Tallies b 1 ((List.finRange 6).flatMap (fun _ => [])) inc :=
        computeStatistics_node rfl hroot
          (fun i hi => absurd hi (Bool.eq_false_iff.1 (hinvalid i))) (fun _ _ => rfl) .zero
      obtain ⟨inc, hinc, htallies⟩ := hnode
      rw [BVHStatistics.zero_add] at hinc
      rw [hlist]
      exact ⟨inc, hinc, htallies⟩
  | root tree htree =>
      obtain ⟨n, hdecode⟩ := htree.decoded
      refine ⟨n, fun steps hsteps => ?_⟩
      obtain ⟨inc, hinc, htallies⟩ := computeStatistics_eq hsize (hdecode steps hsteps) .zero
      rw [BVHStatistics.zero_add] at hinc
      exact ⟨inc, hinc, htallies.perm htree.perm⟩

theorem statistics_tally_mixed : ∃ t v cur n stats, BufferRun 16384
    (build (.line mixedTypes) 30 (linePrims 4) (lineInfo 4 24)) 0 t (.ret v) cur ∧
      computeStatistics (memory t) n .zero ⟨headerBytes, .internal, 0⟩ = some stats ∧
        stats.quadLeaf.numPrimsTotal = 24 ∧ stats.instanceLeaf.numPrimsUsed = 6 := by
  obtain ⟨t, v, cur, hrun, hv⟩ := exists_mixedBuild
  obtain ⟨n, hn⟩ := statistics_tally (.line mixedTypes) 30 16384 (linePrims 4) (lineInfo 4 24) t v cur
    (lineInfo_describes (by decide) mixedTypes).bounds_eq (by norm_num) hrun hv
  obtain ⟨stats, hstats, htallies⟩ := hn n le_rfl
  have hquads : (quadPrims (.line mixedTypes)
      ((rootRecord (lineInfo 4 24)).list (linePrims 4))).length = 12 := by decide +kernel
  have hinst : (primsOfType (.line mixedTypes) .inst
      ((rootRecord (lineInfo 4 24)).list (linePrims 4))).length = 6 := by decide +kernel
  refine ⟨t, v, cur, n, stats, hrun, hstats, ?_, ?_⟩
  · rw [htallies.quads.1, hquads]
  · rw [htallies.instances, hinst]

end build

end RTBuild
