import RTBuild.Decode

namespace RTBuild

open Library Library.Segment

variable {b : BuilderT} {m : Nat → Option Cell} {prims : Nat → PrimRef}

/-- The tree below a reference holds some primitives, and its masks and boxes are theirs. -/
structure Represents (b : BuilderT) (m : Nat → Option Cell) (ref : NodeRef) (list : List PrimRef)
    (tree : WideTree 6 (BitVec 8) BBox3f PrimRef) : Prop where
  decoded : ∃ n, ∀ fuel, n ≤ fuel → decode m fuel ref = some (tree.map (leafPrim b))
  perm : tree.prims.Perm list
  masked : tree.Masked (unionMask b)
  bounded : tree.Bounded unionBounds

theorem represents_leaf {ref : NodeRef} {list : List PrimRef} {n : Nat}
    (h : ∀ fuel, n ≤ fuel → decode m fuel ref = some (.leaf (list.map (leafPrim b)))) :
    Represents b m ref list (.leaf list) :=
  ⟨⟨n, h⟩, .refl _, trivial, trivial⟩

section leaves

variable {ty : PrimType}

theorem prim_createQuadLeaf (hty : ty = .triangle ∨ ty = .quad) {prim : PrimRef}
    (hprim : b.getType prim.geomID = ty) (last : Bool) :
    QuadLeaf.prim { createQuadLeaf b ty prim with last := last } = leafPrim b prim := by
  rcases hty with rfl | rfl
  · rw [createQuadLeaf, if_pos rfl, getTriangleInternal]
    split <;> simp only [QuadLeaf.prim, PrimLeafDesc.ofGeometry, leafPrim, hprim]
  · rw [createQuadLeaf, if_neg (by decide)]
    simp only [getQuadInternal, QuadLeaf.prim, PrimLeafDesc.ofGeometry, leafPrim, hprim]

/-- Reading quads stops at the first one with the last bit. -/
theorem readQuads_stored {leaves : List QuadLeaf} {leaf : QuadLeaf} {addr fuel : Nat}
    (h : Stored m addr ((leaves ++ [leaf]).map .quad)) (hfalse : ∀ leaf ∈ leaves, leaf.last = false)
    (hlast : leaf.last = true) (hfuel : leaves.length < fuel) :
    readQuads m fuel addr = some (leaves ++ [leaf]) := by
  obtain ⟨fuel, rfl⟩ := Nat.exists_eq_add_of_lt hfuel
  induction leaves generalizing addr with
  | nil =>
      obtain ⟨hleaf, _⟩ := h
      rw [readQuads, hleaf]
      exact if_pos hlast
  | cons first leaves ih =>
      obtain ⟨hfirst, hrest⟩ := h
      obtain ⟨hnot, hfalse⟩ := List.forall_mem_cons.1 hfalse
      have hnext := ih hrest hfalse (by omega)
      rw [List.length_cons,
        show leaves.length + 1 + fuel + 1 = leaves.length + fuel + 1 + 1 by omega,
        readQuads, hfirst]
      simp only [hnot, Bool.false_eq_true, if_false, hnext]
      rfl

/-- The blocks of a range of primitives end with its last primitive. -/
theorem readQuads_quadLeaves {r : BuildRecord} {addr fuel : Nat} (hr : r.begin_ < r.end_)
    (h : Stored m addr ((quadLeaves b prims ty r).map .quad)) (hfuel : r.size ≤ fuel) :
    readQuads m fuel addr = some (quadLeaves b prims ty r) := by
  have hpos : 0 < r.size := Nat.sub_pos_of_lt hr
  obtain ⟨n, hn⟩ : ∃ n, r.size = n + 1 := Nat.exists_eq_succ_of_ne_zero hpos.ne'
  have hend : r.begin_ + n + 1 = r.end_ := by
    rw [BuildRecord.size] at hn
    omega
  have hsplit : quadLeaves b prims ty r =
      (List.range' r.begin_ n).map
          (fun i => { createQuadLeaf b ty (prims i) with last := i + 1 = r.end_ }) ++
        [{ createQuadLeaf b ty (prims (r.begin_ + n)) with last := r.begin_ + n + 1 = r.end_ }] := by
    rw [quadLeaves, BuildRecord.indices, hn, List.range'_concat, List.map_append, Nat.one_mul]
    rfl
  rw [hsplit] at h ⊢
  refine readQuads_stored h ?_ (decide_eq_true hend) ?_
  · intro leaf hleaf
    obtain ⟨i, hi, rfl⟩ := List.mem_map.1 hleaf
    have hlt := (List.mem_range'_1.1 hi).2
    exact decide_eq_false (by omega)
  · rw [List.length_map, List.length_range']
    omega

theorem represents_quads (hty : ty = .triangle ∨ ty = .quad) {r : BuildRecord} {addr : Nat}
    (hr : r.begin_ < r.end_) (hprims : ∀ prim ∈ r.list prims, b.getType prim.geomID = ty)
    (h : Stored m addr ((quadLeaves b prims ty r).map .quad)) :
    Represents b m ⟨addr, .quad, 0⟩ (r.list prims) (.leaf (r.list prims)) := by
  refine represents_leaf (n := r.size + 1) (fun fuel hfuel => ?_)
  obtain ⟨fuel, rfl⟩ := Nat.exists_eq_add_of_le' (Nat.le_of_add_left_le hfuel)
  have hall : (quadLeaves b prims ty r).map QuadLeaf.prim = (r.list prims).map (leafPrim b) := by
    rw [quadLeaves, BuildRecord.list_eq_map, List.map_map, List.map_map]
    refine List.map_congr_left (fun i hi => prim_createQuadLeaf hty (hprims (prims i) ?_) _)
    exact List.mem_map_of_mem hi
  have hread := readQuads_quadLeaves hr h (Nat.le_of_succ_le_succ hfuel)
  simp only [decode, decodeQuads_eq, hread, Option.map_some, hall]

theorem represents_procedural {prim : PrimRef} (hprim : b.getType prim.geomID = .procedural)
    {addr slot : Nat} (h : ProceduralLeafBuilder.HoldsAt b m addr slot prim) :
    Represents b m ⟨addr, .procedural, slot⟩ [prim] (.leaf [prim]) := by
  refine represents_leaf (n := 2) (fun fuel hfuel => ?_)
  obtain ⟨fuel, rfl⟩ := Nat.exists_eq_add_of_le' hfuel
  obtain ⟨leaf, hleaf, hdesc, hlt, hindex, hlast⟩ := h
  simp [decode, decodeProcedurals, hleaf, hlt, hdesc, hindex, ProceduralLeaf.isLast, hlast,
    leafPrim, hprim, proceduralDesc, PrimLeafDesc.ofGeometry]

theorem represents_instance {prim : PrimRef} (hprim : b.getType prim.geomID = .inst) {addr : Nat}
    (h : Stored m addr (instanceCells b prim)) :
    Represents b m ⟨addr, .inst, 0⟩ [prim] (.leaf [prim]) := by
  refine represents_leaf (n := 1) (fun fuel hfuel => ?_)
  obtain ⟨fuel, rfl⟩ := Nat.exists_eq_add_of_le' hfuel
  obtain ⟨hpart0, hpart1, _⟩ := h
  simp only [decode, decodeInstance, hpart0, hpart1, instancePrim, world2Obj_instanceLeaf,
    obj2World_instanceLeaf]
  simp only [List.map_cons, List.map_nil, leafPrim, hprim]
  rfl

end leaves

namespace InternalNode

structure ChildArgs.Ok (nodeType : NodeType) (c : ChildArgs) : Prop where
  box_ne : c.box ≠ ⊥
  blockDelta_lt : c.blockDelta < 4
  curPrim_lt : c.curPrim < 16
  type_eq : nodeType ≠ .internal → c.type = nodeType
  curPrim_eq : nodeType = .internal → c.curPrim = 0

def blockOffset (args : List ChildArgs) (i : Nat) : Nat := ((args.take i).map ChildArgs.blockDelta).sum

theorem blockOffset_succ {args : List ChildArgs} {i : Nat} (hi : i < args.length) :
    blockOffset args (i + 1) = blockOffset args i + args[i].blockDelta := by
  rw [blockOffset, List.take_succ_eq_append_getElem hi, List.map_append, List.sum_append, blockOffset]
  simp

def finished (bounds : BBox3f) (nodeType : NodeType) (args : List ChildArgs) (addr childPtr : Nat)
    (nodeMask : BitVec 8) : InternalNode :=
  (((ofBounds bounds nodeType).setChildren 0 args).setChildOffset addr childPtr).setNodeMask nodeMask

section finished

variable {bounds : BBox3f} {nodeType : NodeType} {args : List ChildArgs} {addr childPtr : Nat}
  {nodeMask : BitVec 8}

@[simp] theorem nodeType_finished :
    (finished bounds nodeType args addr childPtr nodeMask).nodeType = nodeType := by
  have htype := nodeType_setChildren (ofBounds bounds nodeType) 0 args
  rwa [nodeType_ofBounds] at htype

theorem slot_finished (hlength : args.length ≤ 6) (hargs : ∀ c ∈ args, c.Ok nodeType) {i : Nat}
    (hi : i < args.length) :
    (finished bounds nodeType args addr childPtr nodeMask).slot (Fin.ofNat 6 i) =
      ⟨true, storedData nodeType (Fin.ofNat 6 i) args[i].type args[i].blockDelta args[i].curPrim,
        args[i].box⟩ := by
  have hslot := slot_setChildren (ofBounds bounds nodeType) (i := 0) (by omega)
    (fun c hc => (hargs c hc).box_ne) hi
  rwa [Nat.zero_add, nodeType_ofBounds] at hslot

theorem valid_finished (hlength : args.length ≤ 6) (hargs : ∀ c ∈ args, c.Ok nodeType) {i : Nat}
    (hi : i < args.length) :
    (finished bounds nodeType args addr childPtr nodeMask).valid (Fin.ofNat 6 i) = true :=
  congrArg Slot.valid (slot_finished hlength hargs hi)

theorem childData_finished (hlength : args.length ≤ 6) (hargs : ∀ c ∈ args, c.Ok nodeType) {i : Nat}
    (hi : i < args.length) :
    (finished bounds nodeType args addr childPtr nodeMask).childData (Fin.ofNat 6 i) =
      storedData nodeType (Fin.ofNat 6 i) args[i].type args[i].blockDelta args[i].curPrim :=
  congrArg Slot.data (slot_finished hlength hargs hi)

theorem box_finished (hlength : args.length ≤ 6) (hargs : ∀ c ∈ args, c.Ok nodeType) {i : Nat}
    (hi : i < args.length) :
    (finished bounds nodeType args addr childPtr nodeMask).box (Fin.ofNat 6 i) = args[i].box :=
  congrArg Slot.box (slot_finished hlength hargs hi)

theorem not_valid_finished (hlength : args.length ≤ 6) {i : Fin 6} (hi : args.length ≤ i) :
    (finished bounds nodeType args addr childPtr nodeMask).valid i = false := by
  have hslot : ((ofBounds bounds nodeType).setChildren 0 args).slot i =
      (ofBounds bounds nodeType).slot i :=
    slot_setChildren_of_lt _ (by omega) (Or.inr (by omega))
  exact (congrArg Slot.valid hslot).trans (valid_slot_ofBounds bounds nodeType i)

theorem getChildOffset_finished (hlength : args.length ≤ 6) (hargs : ∀ c ∈ args, c.Ok nodeType)
    (hfits : offsetFits addr childPtr = true) (haddr : addr % 64 = 0) (hptr : childPtr % 64 = 0)
    {i : Nat} (hi : i < args.length) :
    (finished bounds nodeType args addr childPtr nodeMask).getChildOffset (Fin.ofNat 6 i) =
      (childPtr : Int) - addr + 64 * blockOffset args i := by
  have hoffset : (finished bounds nodeType args addr childPtr nodeMask).childOffset =
      ((childPtr : Int) - addr) / 64 :=
    beq_iff_eq.1 hfits
  have hindex : (Fin.ofNat 6 i).val = i := Nat.mod_eq_of_lt (by omega)
  -- only the last of six children has no block delta, and it is before no other one
  have hsum : ∀ j, j ≤ i →
      ((List.range j).map (fun k =>
        (((finished bounds nodeType args addr childPtr nodeMask).childData
          (Fin.ofNat 6 k)).blockIncr : Int))).sum = blockOffset args j := by
    intro j hj
    induction j with
    | zero => rfl
    | succ j ih =>
        have hjlt : j < args.length := by omega
        have hfive : Fin.ofNat 6 j ≠ 5 := fun h => by
          have hval : j % 6 = 5 := congrArg Fin.val h
          omega
        have hincr :
            ((finished bounds nodeType args addr childPtr nodeMask).childData
              (Fin.ofNat 6 j)).blockIncr.val = args[j].blockDelta := by
          simp only [childData_finished hlength hargs hjlt, storedData, if_neg hfive]
          exact Nat.mod_eq_of_lt (hargs _ (List.getElem_mem hjlt)).blockDelta_lt
        rw [List.range_succ, List.map_append, List.sum_append, ih (by omega), blockOffset_succ hjlt,
          List.map_singleton, List.sum_singleton, hincr, Nat.cast_add]
  rw [getChildOffset, hindex, hsum i le_rfl, hoffset]
  omega

theorem child_finished (hlength : args.length ≤ 6) (hargs : ∀ c ∈ args, c.Ok nodeType)
    (hfits : offsetFits addr childPtr = true) (haddr : addr % 64 = 0) (hptr : childPtr % 64 = 0)
    {i : Nat} (hi : i < args.length) :
    (finished bounds nodeType args addr childPtr nodeMask).child addr (Fin.ofNat 6 i) =
      some ⟨childPtr + 64 * blockOffset args i, args[i].type, args[i].curPrim⟩ := by
  have harg := hargs _ (List.getElem_mem hi)
  have hstart :
      ((finished bounds nodeType args addr childPtr nodeMask).childData (Fin.ofNat 6 i)).startPrim =
      if nodeType = .internal then args[i].type.code else Fin.ofNat 16 args[i].curPrim :=
    congrArg ChildData.startPrim (childData_finished hlength hargs hi)
  have htype : (finished bounds nodeType args addr childPtr nodeMask).getChildType (Fin.ofNat 6 i) =
      some args[i].type := by
    rw [getChildType, isFatLeaf, nodeType_finished, hstart]
    by_cases hmixed : nodeType = .internal
    · simp [hmixed]
    · simp [hmixed, harg.type_eq hmixed]
  have hprim : (finished bounds nodeType args addr childPtr nodeMask).getChildStartPrim (Fin.ofNat 6 i) =
      args[i].curPrim := by
    rw [getChildStartPrim, isFatLeaf, nodeType_finished, hstart]
    by_cases hmixed : nodeType = .internal
    · simp [hmixed, harg.curPrim_eq hmixed]
    · simpa [hmixed] using Nat.mod_eq_of_lt harg.curPrim_lt
  have hptr' :
      (addr : Int) + (finished bounds nodeType args addr childPtr nodeMask).getChildOffset
        (Fin.ofNat 6 i) = (childPtr + 64 * blockOffset args i : Nat) := by
    rw [getChildOffset_finished hlength hargs hfits haddr hptr hi]
    push_cast
    ring
  simp only [child, htype, hprim, hptr']
  rw [if_pos (Int.natCast_nonneg _), Int.toNat_natCast]

end finished

end InternalNode

section node

open InternalNode

variable {bounds : BBox3f} {nodeType : NodeType} {args : List ChildArgs} {addr childPtr : Nat}
  {nodeMask : BitVec 8}

theorem valid_finished_iff (hlength : args.length ≤ 6) (hargs : ∀ c ∈ args, c.Ok nodeType) (i : Fin 6) :
    (finished bounds nodeType args addr childPtr nodeMask).valid i = true ↔ i.val < args.length := by
  constructor
  · intro hv
    by_contra hge
    rw [not_valid_finished hlength (Nat.le_of_not_lt hge)] at hv
    cases hv
  · intro hi
    have hvalid : (finished bounds nodeType args addr childPtr nodeMask).valid (Fin.ofNat 6 i.val) =
        true :=
      valid_finished hlength hargs hi
    rwa [Fin.ofNat_val_eq_self] at hvalid

theorem child_finished_of_lt (hlength : args.length ≤ 6) (hargs : ∀ c ∈ args, c.Ok nodeType)
    (hfits : offsetFits addr childPtr = true) (haddr : addr % 64 = 0) (hptr : childPtr % 64 = 0)
    {i : Fin 6} (hi : i.val < args.length) :
    (finished bounds nodeType args addr childPtr nodeMask).child addr i =
      some ⟨childPtr + 64 * blockOffset args i, args[i.val].type, args[i.val].curPrim⟩ := by
  have hchild : (finished bounds nodeType args addr childPtr nodeMask).child addr
      (Fin.ofNat 6 i.val) = _ :=
    child_finished hlength hargs hfits haddr hptr hi
  rwa [Fin.ofNat_val_eq_self] at hchild

/-- What is read from the children of a finished node. -/
theorem sequence_finished {T : Type} {read : NodeRef → Option T} {absent : T} {trees : List T}
    (hlength : args.length ≤ 6) (hargs : ∀ c ∈ args, c.Ok nodeType)
    (hfits : offsetFits addr childPtr = true) (haddr : addr % 64 = 0) (hptr : childPtr % 64 = 0)
    (htrees : trees.length = args.length)
    (hchild : ∀ (i : Nat) (hi : i < args.length),
      read ⟨childPtr + 64 * blockOffset args i, args[i].type, args[i].curPrim⟩ =
        some (trees.get ⟨i, htrees ▸ hi⟩)) :
    sequence (fun i => if (finished bounds nodeType args addr childPtr nodeMask).valid i = true then
        ((finished bounds nodeType args addr childPtr nodeMask).child addr i).bind read
      else some absent) = some (fun i : Fin 6 => trees.getD i absent) := by
  refine sequence_eq_some (fun i => ?_)
  by_cases hi : i.val < args.length
  · rw [if_pos ((valid_finished_iff hlength hargs i).2 hi),
      child_finished_of_lt hlength hargs hfits haddr hptr hi, Option.bind_some, hchild i.val hi,
      List.getD_eq_getElem _ _ (htrees ▸ hi), List.get_eq_getElem]
  · rw [if_neg (mt (valid_finished_iff hlength hargs i).1 hi),
      List.getD_eq_default _ _ (htrees ▸ Nat.le_of_not_lt hi)]

/-- What is read from a finished node, given what is read from its children. -/
theorem decode_finished {trees : List DecodedTree} (hlength : args.length ≤ 6)
    (hargs : ∀ c ∈ args, c.Ok nodeType) (hfits : offsetFits addr childPtr = true)
    (haddr : addr % 64 = 0) (hptr : childPtr % 64 = 0)
    (hm : m addr = some (.node (finished bounds nodeType args addr childPtr nodeMask)))
    (htrees : trees.length = args.length) {fuel : Nat}
    (hchild : ∀ (i : Nat) (hi : i < args.length),
      decode m fuel ⟨childPtr + 64 * blockOffset args i, args[i].type, args[i].curPrim⟩ =
        some (trees.get ⟨i, htrees ▸ hi⟩)) :
    decode m (fuel + 1) ⟨addr, .internal, 0⟩ =
      some (.ofList nodeMask (finished bounds nodeType args addr childPtr nodeMask).box trees) := by
  rw [decode]
  simp only [hm, sequence_finished hlength hargs hfits haddr hptr htrees hchild]
  rfl

/-- A finished node represents what its children do, in the boxes that they were given. -/
theorem represents_node {lists : List (List PrimRef)} (hlength : args.length ≤ 6)
    (hargs : ∀ c ∈ args, c.Ok nodeType) (hfits : offsetFits addr childPtr = true)
    (haddr : addr % 64 = 0) (hptr : childPtr % 64 = 0)
    (hm : m addr = some (.node (finished bounds nodeType args addr childPtr nodeMask)))
    (hlists : lists.length = args.length)
    (hchild : ∀ (i : Nat) (hi : i < args.length),
      args[i].box = unionBounds (lists.get ⟨i, hlists ▸ hi⟩) ∧
      ∃ tree, Represents b m ⟨childPtr + 64 * blockOffset args i, args[i].type, args[i].curPrim⟩
        (lists.get ⟨i, hlists ▸ hi⟩) tree) (hmask : nodeMask = unionMask b lists.flatten) :
    ∃ tree, Represents b m ⟨addr, .internal, 0⟩ lists.flatten tree := by
  choose hbox tree htree using hchild
  choose n hdecode using fun i hi => (htree i hi).decoded
  let trees := List.ofFn (fun i : Fin args.length => tree i i.isLt)
  have hlen : trees.length = args.length := List.length_ofFn
  have hget : ∀ (i : Nat) (hi : i < trees.length), trees[i] = tree i (hlen ▸ hi) :=
    fun i hi => List.getElem_ofFn hi
  -- the primitives of the children are those of their lists, one after the other
  have hprims : (trees.flatMap WideTree.prims).Perm lists.flatten := by
    have hforall : List.Forall₂ List.Perm (trees.map WideTree.prims) lists := by
      refine List.forall₂_iff_get.2 ⟨by rw [List.length_map, hlen, hlists], fun i hi hi' => ?_⟩
      rw [List.length_map] at hi
      simp only [List.get_eq_getElem, List.getElem_map]
      rw [hget i hi]
      exact (htree i (hlen ▸ hi)).perm
    rw [List.flatMap_def]
    exact .flatten_congr hforall
  have hmem : ∀ child ∈ trees, ∃ i hi, child = tree i hi := by
    intro child hmem
    obtain ⟨i, rfl⟩ := List.mem_ofFn.1 hmem
    exact ⟨i, i.isLt, rfl⟩
  refine ⟨.ofList nodeMask (finished bounds nodeType args addr childPtr nodeMask).box trees,
    ?_, ?_, ?_, ?_⟩
  · refine ⟨Finset.univ.sup (fun i : Fin args.length => n i i.isLt) + 1, fun fuel hfuel => ?_⟩
    obtain ⟨fuel, rfl⟩ := Nat.exists_eq_add_of_le' hfuel
    rw [WideTree.map_ofList]
    refine decode_finished hlength hargs hfits haddr hptr hm (by rw [List.length_map, hlen])
      (fun i hi => ?_)
    have hle : n i hi ≤ Finset.univ.sup (fun i : Fin args.length => n i i.isLt) :=
      Finset.le_sup (f := fun i : Fin args.length => n i i.isLt) (Finset.mem_univ ⟨i, hi⟩)
    rw [List.get_eq_getElem, List.getElem_map, hget i (hlen.symm ▸ hi)]
    exact hdecode i hi _ (hle.trans (Nat.le_add_left _ _))
  · rw [WideTree.prims_ofList (hlen ▸ hlength)]
    exact hprims
  · refine WideTree.masked_ofList (hlen ▸ hlength) (hmask.trans (unionMask_perm b hprims.symm))
      (fun child hchild => ?_)
    obtain ⟨i, hi, rfl⟩ := hmem child hchild
    exact (htree i hi).masked
  · refine WideTree.bounded_ofList (fun i hi => ?_) (fun child hchild => ?_)
    · have hi' : i.val < args.length := hlen ▸ hi
      have hindex : Fin.ofNat 6 i.val = i := Fin.ext (Nat.mod_eq_of_lt i.isLt)
      rw [hget i.val hi, unionBounds_perm (htree i.val hi').perm, ← hbox i.val hi',
        ← box_finished hlength hargs hi', hindex]
    · obtain ⟨i, hi, rfl⟩ := hmem child hchild
      exact (htree i hi).bounded

end node

end RTBuild
