import RTBuild.Memory
import RTBuild.Represents

namespace RTBuild

open Library Library.Task RTBuild.Splits RTBuild.Children Settings InternalNode

variable {b : BuilderT} {m : Nat → Option Cell} {prims : Nat → PrimRef} {r : BuildRecord}

theorem Represents.of_perm {ref : NodeRef} {list list' : List PrimRef}
    {tree : WideTree 6 (BitVec 8) BBox3f PrimRef} (h : Represents b m ref list tree)
    (hperm : list.Perm list') : Represents b m ref list' tree :=
  ⟨h.decoded, h.perm.trans hperm, h.masked, h.bounded⟩

theorem unionMask_flatten (b : BuilderT) (lists : List (List PrimRef)) :
    unionMask b lists.flatten = (lists.map (unionMask b)).foldr (· ||| ·) 0 := by
  induction lists with
  | nil => rfl
  | cons l lists ih => rw [List.flatten_cons, unionMask_append, ih, List.map_cons, List.foldr_cons]

theorem valuesMask_eq (values : List ReductionTy) :
    valuesMask values = (values.map ReductionTy.nodeMask).foldr (· ||| ·) 0 := by
  rw [valuesMask, foldl_mask, List.foldr_map]

theorem stored_flatMap {α : Type} {f : α → List Cell} {l : List α} {addr i : Nat}
    (h : Stored m addr (l.flatMap f)) (hi : i < l.length) :
    Stored m (addr + ((l.take i).map (fun x => (f x).length)).sum * nodeBytes) (f l[i]) := by
  induction l generalizing addr i with
  | nil => exact absurd hi (Nat.not_lt_zero i)
  | cons x l ih =>
      rw [List.flatMap_cons, stored_append] at h
      cases i with
      | zero =>
          rw [List.take_zero, List.map_nil, List.sum_nil, Nat.zero_mul, Nat.add_zero]
          exact h.1
      | succ i =>
          have hrest := ih h.2 (Nat.lt_of_succ_lt_succ hi)
          rw [List.take_succ_cons, List.map_cons, List.sum_cons, Nat.add_mul, ← Nat.add_assoc]
          exact hrest

section quads

variable {ty : PrimType} {children : List BuildRecord} {addr : Nat}

theorem createAllQuads_stores : (createAllQuads b prims ty children addr).flatMap Prod.fst =
    consecutive addr (children.flatMap (fun c => (quadLeaves b prims ty c).map .quad)) := by
  induction children generalizing addr with
  | nil => rfl
  | cons c children ih =>
      rw [createAllQuads, List.flatMap_cons, ih, List.flatMap_cons, consecutive_append,
        List.length_map, length_quadLeaves]
      rfl

/-- What setChild is called with for the children of a quad node. -/
theorem createAllQuads_args :
    List.zipWith (fun (child : BuildRecord) (value : ReductionTy) =>
        (⟨child.bounds, value.type, value.primRange.blockDelta, 0⟩ : ChildArgs)) children
      ((createAllQuads b prims ty children addr).map Prod.snd) =
      children.map (fun c => ⟨c.bounds, .quad, c.size, 0⟩) := by
  induction children generalizing addr with
  | nil => rfl
  | cons c children ih =>
      have hblocks : c.size * nodeBytes / 64 = c.size := Nat.mul_div_cancel _ (by decide)
      rw [createAllQuads, List.map_cons, List.zipWith_cons_cons, ih, List.map_cons, createQuads]
      simp only [hblocks]

theorem createAllQuads_masks (hty : ty = .triangle ∨ ty = .quad)
    (hprims : ∀ c ∈ children, ∀ prim ∈ c.list prims, b.getType prim.geomID = ty) :
    valuesMask ((createAllQuads b prims ty children addr).map Prod.snd) =
      unionMask b (children.map (fun c => c.list prims)).flatten := by
  rw [valuesMask_eq, unionMask_flatten]
  congr 1
  induction children generalizing addr with
  | nil => rfl
  | cons c children ih =>
      obtain ⟨hfirst, hrest⟩ := List.forall_mem_cons.1 hprims
      have hmask : (createQuads b prims ty c addr).2.nodeMask = unionMask b (c.list prims) := by
        rw [createQuads, quadLeaves, BuildRecord.list_eq_map]
        simp only [foldl_mask, unionMask, List.foldr_map]
        refine List.foldr_ext _ _ _ (fun i hi mask => ?_)
        have hprim := prim_createQuadLeaf hty (hfirst (prims i) (List.mem_map_of_mem hi))
          (decide (i + 1 = c.end_))
        rw [← hprim]
        rfl
      rw [createAllQuads, List.map_cons, List.map_cons, List.map_cons, List.map_cons, ih hrest, hmask]

end quads

def FatBlock.Fits (b : BuilderT) (m : Nat → Option Cell) (f : FatBlock) (list : List PrimRef) : Prop :=
  ∃ (bounds : BBox3f) (nodeType : NodeType) (args : List ChildArgs) (lists : List (List PrimRef))
    (hlists : lists.length = args.length),
    f.node = (ofBounds bounds nodeType).setChildren 0 args ∧ args.length ≤ 6 ∧
      (∀ c ∈ args, c.Ok nodeType) ∧
      f.childPtr % 64 = 0 ∧ f.nodeMask = unionMask b lists.flatten ∧ lists.flatten.Perm list ∧
      ∀ (i : Nat) (hi : i < args.length), args[i].box = unionBounds (lists.get ⟨i, hlists ▸ hi⟩) ∧
        ∃ tree, Represents b m ⟨f.childPtr + 64 * blockOffset args i, args[i].type, args[i].curPrim⟩
          (lists.get ⟨i, hlists ▸ hi⟩) tree

theorem flatten_singletons (list : List PrimRef) : (list.map (fun prim => [prim])).flatten = list := by
  rw [← List.flatMap_def]
  exact List.flatMap_singleton' list

theorem bounds_eq_unionBounds (prim : PrimRef) : (prim.bounds : BBox3f) = unionBounds [prim] := by
  rw [unionBounds, List.foldr_cons, List.foldr_nil, sup_bot_eq]

section images

variable {childData : Nat}

structure FatBlock.Frame (f : FatBlock) (nodeType : NodeType) (args : List ChildArgs) : Prop where
  node : ∃ bounds, f.node = (ofBounds bounds nodeType).setChildren 0 args
  length_le : args.length ≤ 6
  ok : ∀ c ∈ args, c.Ok nodeType
  childPtr_mod : f.childPtr % 64 = 0

theorem FatBlock.Frame.fits {f : FatBlock} {nodeType : NodeType} {args : List ChildArgs}
    {lists : List (List PrimRef)} {list : List PrimRef} (h : f.Frame nodeType args)
    (hlists : lists.length = args.length) (hmask : f.nodeMask = unionMask b lists.flatten)
    (hperm : lists.flatten.Perm list)
    (hchild : ∀ (i : Nat) (hi : i < args.length),
      args[i].box = unionBounds (lists.get ⟨i, hlists ▸ hi⟩) ∧
      ∃ tree, Represents b m ⟨f.childPtr + 64 * blockOffset args i, args[i].type, args[i].curPrim⟩
        (lists.get ⟨i, hlists ▸ hi⟩) tree) : f.Fits b m list := by
  obtain ⟨⟨bounds, hnode⟩, hlength, hargs, hptr⟩ := h
  exact ⟨bounds, nodeType, args, lists, hlists, hnode, hlength, hargs, hptr, hmask, hperm, hchild⟩

def FatImage.quadArgs (children : List BuildRecord) : List ChildArgs :=
  children.map (fun c => ⟨c.bounds, .quad, c.size, 0⟩)

theorem FatImage.ofQuads_frame {ty : PrimType} {children : List BuildRecord}
    (hlength : children.length ≤ 6)
    (hchildren : ∀ c ∈ children, c.Describes b.getType prims ∧ c.size ≤ 3 ∧
      ∀ prim ∈ c.list prims, b.getType prim.geomID = ty) (hdata : childData % 64 = 0) :
    ((ofQuads b prims r ty children).block childData).Frame .quad (quadArgs children) := by
  refine ⟨⟨_, congrArg (setChildren _ 0) createAllQuads_args⟩, (List.length_map _).trans_le hlength,
    fun c hc => ?_, hdata⟩
  obtain ⟨child, hchild, rfl⟩ := List.mem_map.1 hc
  obtain ⟨hdescribes, hsize, _⟩ := hchildren child hchild
  exact ⟨hdescribes.bounds_ne_bot, Nat.lt_succ_of_le hsize, Nat.succ_pos 15, fun _ => rfl, fun _ => rfl⟩

theorem FatImage.ofQuads_stored {ty : PrimType} {children : List BuildRecord}
    (hkeeps : Keeps m ((ofQuads b prims r ty children).block childData).stores) {i : Nat}
    (hi : i < children.length) :
    Stored m (childData + 64 * blockOffset (quadArgs children) i)
      ((quadLeaves b prims ty children[i]).map .quad) := by
  have hstored :
      Stored m childData (children.flatMap (fun c => (quadLeaves b prims ty c).map .quad)) := by
    refine stored_of_keeps ?_
    rw [← createAllQuads_stores]
    exact hkeeps
  have hoffset : blockOffset (quadArgs children) i =
      ((children.take i).map (fun c => ((quadLeaves b prims ty c).map Cell.quad).length)).sum := by
    rw [blockOffset, quadArgs, ← List.map_take, List.map_map]
    refine congrArg List.sum (List.map_congr_left (fun c _ => ?_))
    rw [List.length_map, length_quadLeaves]
    rfl
  rw [hoffset, Nat.mul_comm]
  exact stored_flatMap hstored hi

theorem FatImage.ofQuads_fits {ty : PrimType} (hty : ty = .triangle ∨ ty = .quad)
    {children : List BuildRecord} {list : List PrimRef} (hlength : children.length ≤ 6)
    (hchildren : ∀ c ∈ children, c.Describes b.getType prims ∧ c.size ≤ 3 ∧
      ∀ prim ∈ c.list prims, b.getType prim.geomID = ty)
    (hperm : (children.flatMap (fun c => c.list prims)).Perm list) (hdata : childData % 64 = 0)
    (hkeeps : Keeps m ((ofQuads b prims r ty children).block childData).stores) :
    ((ofQuads b prims r ty children).block childData).Fits b m list := by
  have hlists : (children.map (fun c => c.list prims)).length = (quadArgs children).length := by
    rw [List.length_map, quadArgs, List.length_map]
  have hmask : ((ofQuads b prims r ty children).block childData).nodeMask =
      unionMask b (children.map (fun c => c.list prims)).flatten :=
    createAllQuads_masks hty (fun c hc => (hchildren c hc).2.2)
  refine (ofQuads_frame hlength hchildren hdata).fits hlists hmask (List.flatMap_def ▸ hperm)
    (fun i hi => ?_)
  have hi' : i < children.length := by rwa [quadArgs, List.length_map] at hi
  obtain ⟨hdescribes, _, htype⟩ := hchildren _ (List.getElem_mem hi')
  have hcells := ofQuads_stored hkeeps hi'
  simp only [List.get_eq_getElem, quadArgs, List.getElem_map]
  exact ⟨hdescribes.bounds_eq, .leaf (children[i].list prims),
    represents_quads hty hdescribes.nonempty htype hcells⟩

theorem allPlaced_get {addr : Nat} {list : List PrimRef} {ranges : List PrimRange}
    (h : ProceduralLeafBuilder.AllPlaced b m addr list ranges) :
    ranges.length = list.length ∧ ∀ (i : Nat) (hi : i < list.length),
      (ranges.getD i ⟨0, 0⟩).blockDelta ≤ 1 ∧ (ranges.getD i ⟨0, 0⟩).curPrim < 13 ∧
        ProceduralLeafBuilder.HoldsAt b m
          (addr + 64 * ((ranges.take (i + 1)).map PrimRange.blockDelta).sum)
          (ranges.getD i ⟨0, 0⟩).curPrim list[i] := by
  induction list generalizing addr ranges with
  | nil =>
      cases ranges with
      | nil => exact ⟨rfl, fun i hi => absurd hi (Nat.not_lt_zero i)⟩
      | cons range ranges => exact h.elim
  | cons prim list ih =>
      cases ranges with
      | nil => exact h.elim
      | cons range ranges =>
          obtain ⟨hdelta, hprim, hholds, hrest⟩ := h
          obtain ⟨hlength, hget⟩ := ih hrest
          refine ⟨congrArg (· + 1) hlength, fun i hi => ?_⟩
          cases i with
          | zero =>
              rw [List.take_succ_cons, List.take_zero, List.map_singleton, List.sum_singleton]
              exact ⟨hdelta, hprim, hholds⟩
          | succ i =>
              obtain ⟨hdelta', hprim', hholds'⟩ := hget i (Nat.lt_of_succ_lt_succ hi)
              rw [List.take_succ_cons, List.map_cons, List.sum_cons, Nat.mul_add, ← Nat.add_assoc]
              exact ⟨hdelta', hprim', hholds'⟩

/-- A delta is stored with the child before the one that it leads to. -/
theorem blockOffset_proceduralArgs {list : List PrimRef} {ranges : List PrimRange}
    (hlength : ranges.length = list.length) {i : Nat} (hi : i < list.length) :
    (ranges.getD 0 ⟨0, 0⟩).blockDelta + blockOffset (FatImage.proceduralArgs list ranges) i =
      ((ranges.take (i + 1)).map PrimRange.blockDelta).sum := by
  induction i with
  | zero =>
      cases ranges with
      | nil =>
          rw [← hlength] at hi
          exact absurd hi (Nat.not_lt_zero 0)
      | cons range ranges => rfl
  | succ i ih =>
      have hargs : i < (FatImage.proceduralArgs list ranges).length := by
        rw [FatImage.proceduralArgs, List.length_mapIdx]
        omega
      have harg : (FatImage.proceduralArgs list ranges)[i].blockDelta =
          (ranges.getD (i + 1) ⟨0, 0⟩).blockDelta := by
        simp only [FatImage.proceduralArgs, List.getElem_mapIdx]
      have hget : ranges.getD (i + 1) ⟨0, 0⟩ = ranges[i + 1] := List.getD_eq_getElem _ _ (by omega)
      rw [blockOffset_succ hargs, ← Nat.add_assoc, ih (by omega), harg, hget,
        List.take_succ_eq_append_getElem (i := i + 1) (by omega), List.map_append, List.sum_append,
        List.map_singleton, List.sum_singleton]

def FatImage.startedArgs (b : BuilderT) (childData : Nat) (list : List PrimRef) : List ChildArgs :=
  proceduralArgs list ((addProcedurals b (.start childData) list).map Prod.snd)

theorem FatImage.length_startedArgs (childData : Nat) (list : List PrimRef) :
    (startedArgs b childData list).length = list.length :=
  List.length_mapIdx

/-- The primitives of a procedural node are where its arguments say. -/
theorem FatImage.ofProcedurals_frame (hsize : r.size ≤ 6) (hdata : childData % 64 = 0)
    (hkeeps : Keeps m ((ofProcedurals b prims r).block childData).stores) :
    ((ofProcedurals b prims r).block childData).Frame .procedural
        (startedArgs b childData (r.list prims)) ∧
      ∀ (i : Nat) (hi : i < (startedArgs b childData (r.list prims)).length)
        (hi' : i < (r.list prims).length),
        (startedArgs b childData (r.list prims))[i].box = (r.list prims)[i].bounds ∧
          (startedArgs b childData (r.list prims))[i].type = .procedural ∧
          ProceduralLeafBuilder.HoldsAt b m (((ofProcedurals b prims r).block childData).childPtr +
              64 * blockOffset (startedArgs b childData (r.list prims)) i)
            (startedArgs b childData (r.list prims))[i].curPrim (r.list prims)[i] := by
  have hlength : (r.list prims).length ≤ 6 := (r.length_list prims).trans_le hsize
  have hplaced := ProceduralLeafBuilder.start_allPlaced childData (r.list prims)
    (runsFit_of_length (hlength.trans (Nat.le_add_right 6 7))).room hkeeps
  obtain ⟨hranges, hget⟩ := allPlaced_get hplaced
  have hargs := length_startedArgs (b := b) childData (r.list prims)
  have hbytes : nodeBytes = 64 := rfl
  have hdelta :
      ∀ i, (((addProcedurals b (.start childData) (r.list prims)).map Prod.snd).getD i
      ⟨0, 0⟩).blockDelta ≤ 1 := by
    intro i
    by_cases hi : i < (r.list prims).length
    · exact (hget i hi).1
    · rw [List.getD_eq_default _ _ (by omega)]
      exact Nat.zero_le 1
  refine ⟨⟨⟨_, rfl⟩, hargs.trans_le hlength, fun c hc => ?_, ?_⟩, fun i hi hi' => ?_⟩
  · obtain ⟨i, hi, rfl⟩ := List.mem_mapIdx.1 hc
    have hnext := hdelta (i + 1)
    have hslot := (hget i hi).2.1
    exact ⟨WithBot.coe_ne_bot, Nat.lt_of_le_of_lt hnext (by decide), Nat.lt_trans hslot (by decide),
      fun _ => rfl, fun h => NodeType.noConfusion h⟩
  · have hzero := hdelta 0
    simp only [ofProcedurals, hbytes]
    omega
  · have hholds := (hget i hi').2.2
    have hoffset := blockOffset_proceduralArgs hranges hi'
    simp only [startedArgs, proceduralArgs, List.getElem_mapIdx]
    rw [← hoffset, Nat.mul_add, ← Nat.add_assoc, Nat.mul_comm 64 (PrimRange.blockDelta _)] at hholds
    exact ⟨trivial, trivial, hholds⟩

theorem FatImage.ofProcedurals_fits (hprims : ∀ prim ∈ r.list prims, b.getType prim.geomID = .procedural)
    (hsize : r.size ≤ 6) (hdata : childData % 64 = 0)
    (hkeeps : Keeps m ((ofProcedurals b prims r).block childData).stores) :
    ((ofProcedurals b prims r).block childData).Fits b m (r.list prims) := by
  obtain ⟨hframe, hholds⟩ := ofProcedurals_frame hsize hdata hkeeps
  have hargs := length_startedArgs (b := b) childData (r.list prims)
  refine hframe.fits ((List.length_map (fun prim => [prim])).trans hargs.symm) ?_
    ((flatten_singletons _) ▸ .refl _) (fun i hi => ?_)
  · rw [flatten_singletons]
    simp only [ofProcedurals, foldl_mask]
    refine List.foldr_ext _ _ _ (fun prim hprim mask => ?_)
    simp only [leafPrim, hprims prim hprim, LeafPrim.geomMask]
  · have hi' : i < (r.list prims).length := hargs ▸ hi
    obtain ⟨hbox, htype, hholds⟩ := hholds i hi hi'
    simp only [List.get_eq_getElem, List.getElem_map]
    rw [hbox, htype]
    exact ⟨bounds_eq_unionBounds _, _, represents_procedural (hprims _ (List.getElem_mem hi')) hholds⟩

def FatImage.instanceArgs (list : List PrimRef) : List ChildArgs :=
  list.map (fun prim => ⟨prim.bounds, .inst, sizeofInstanceLeaf / 64, 0⟩)

theorem FatImage.ofInstances_frame (hsize : r.size ≤ 6) (hdata : childData % 64 = 0) :
    ((ofInstances b prims r).block childData).Frame .inst (instanceArgs (r.list prims)) := by
  have hlength : (r.list prims).length ≤ 6 := (r.length_list prims).trans_le hsize
  refine ⟨⟨_, rfl⟩, (List.length_map _).trans_le hlength, fun c hc => ?_, hdata⟩
  obtain ⟨prim, _, rfl⟩ := List.mem_map.1 hc
  exact ⟨WithBot.coe_ne_bot, show 2 < 4 by decide, Nat.succ_pos 15, fun _ => rfl, fun _ => rfl⟩

theorem FatImage.ofInstances_stored
    (hkeeps : Keeps m ((ofInstances b prims r).block childData).stores) {i : Nat}
    (hi : i < (r.list prims).length) :
    Stored m (childData + 64 * blockOffset (instanceArgs (r.list prims)) i)
      (instanceCells b (r.list prims)[i]) := by
  have hstored : Stored m childData ((r.list prims).flatMap (instanceCells b)) := stored_of_keeps hkeeps
  have hoffset : blockOffset (instanceArgs (r.list prims)) i =
      (((r.list prims).take i).map (fun prim => (instanceCells b prim).length)).sum := by
    rw [blockOffset, instanceArgs, ← List.map_take, List.map_map]
    exact congrArg List.sum
      (List.map_congr_left (fun prim _ => show sizeofInstanceLeaf / 64 = 2 from rfl))
  rw [hoffset, Nat.mul_comm]
  exact stored_flatMap hstored hi

theorem FatImage.ofInstances_fits (hprims : ∀ prim ∈ r.list prims, b.getType prim.geomID = .inst)
    (hsize : r.size ≤ 6) (hdata : childData % 64 = 0)
    (hkeeps : Keeps m ((ofInstances b prims r).block childData).stores) :
    ((ofInstances b prims r).block childData).Fits b m (r.list prims) := by
  have hlists : ((r.list prims).map (fun prim => [prim])).length =
      (instanceArgs (r.list prims)).length := by
    rw [List.length_map, instanceArgs, List.length_map]
  refine (ofInstances_frame hsize hdata).fits hlists ?_ ((flatten_singletons _) ▸ .refl _)
    (fun i hi => ?_)
  · rw [flatten_singletons]
    simp only [ofInstances, foldl_mask]
    refine List.foldr_ext _ _ _ (fun prim hprim mask => ?_)
    simp only [leafPrim, hprims prim hprim, LeafPrim.geomMask]
  · have hi' : i < (r.list prims).length := by rwa [instanceArgs, List.length_map] at hi
    have hcells := ofInstances_stored hkeeps hi'
    simp only [List.get_eq_getElem, instanceArgs, List.getElem_map]
    exact ⟨bounds_eq_unionBounds _, _, represents_instance (hprims _ (List.getElem_mem hi')) hcells⟩

theorem FatBlock.Fits.of_perm {f : FatBlock} {list list' : List PrimRef} (h : f.Fits b m list)
    (hperm : list.Perm list') : f.Fits b m list' := by
  obtain ⟨bounds, nodeType, args, lists, hlists, hnode, hlength, hargs, hptr, hmask, hlist, hchild⟩ := h
  exact ⟨bounds, nodeType, args, lists, hlists, hnode, hlength, hargs, hptr, hmask,
    hlist.trans hperm, hchild⟩

structure FatChildren (b : BuilderT) (prims : Nat → PrimRef) (r : BuildRecord) (ty : PrimType) :
    Prop where
  first : b.getType (prims r.begin_).geomID = ty
  length_le : (fatLeafChildren b.heuristic prims r).2.length ≤ 6
  describes : ∀ c ∈ (fatLeafChildren b.heuristic prims r).2,
    c.Describes b.getType (fatLeafChildren b.heuristic prims r).1 ∧ c.size ≤ 3 ∧
      ∀ prim ∈ c.list (fatLeafChildren b.heuristic prims r).1, b.getType prim.geomID = ty
  perm : ((fatLeafChildren b.heuristic prims r).2.flatMap
    (fun c => c.list (fatLeafChildren b.heuristic prims r).1)).Perm (r.list prims)
  list_perm : (r.list (fatLeafChildren b.heuristic prims r).1).Perm (r.list prims)
  type_eq : ∀ prim ∈ r.list (fatLeafChildren b.heuristic prims r).1, b.getType prim.geomID = ty

theorem fatChildren {ty : PrimType} (hr : r.Describes b.getType prims) (htype : r.type = some ty)
    (hsize : r.size ≤ leafSize r.type) : FatChildren b prims r ty := by
  rw [htype] at hsize
  have hnine : r.size ≤ 9 := hsize.trans (by cases ty <;> decide)
  have hchosen := fatLeafChildren_chosen (h := b.heuristic) hr hnine
  have hperm : (r.list (fatLeafChildren b.heuristic prims r).1).Perm (r.list prims) :=
    hchosen.cover.rearranges.slice_perm
  refine ⟨hr.type_eq ty htype _ ?_, hchosen.length_le, fun c hc => ⟨hchosen.cover.describes c hc,
    hchosen.size_le c hc, fun prim hprim => ?_⟩, hchosen.cover.list_perm, hperm, fun prim hprim => ?_⟩
  · rw [BuildRecord.list_eq_map]
    exact List.mem_map_of_mem (BuildRecord.mem_indices.2 ⟨le_rfl, hr.nonempty⟩)
  · refine hr.type_eq ty htype prim (hchosen.cover.list_perm.mem_iff.1 ?_)
    exact List.mem_flatMap.2 ⟨c, hc, hprim⟩
  · exact hr.type_eq ty htype prim (hperm.mem_iff.1 hprim)

theorem FatImage.ofRecord_fits {ty : PrimType} (hr : r.Describes b.getType prims)
    (htype : r.type = some ty) (hsize : r.size ≤ leafSize r.type) (hdata : childData % 64 = 0)
    (hkeeps : Keeps m ((ofRecord b prims r).block childData).stores) :
    ((ofRecord b prims r).block childData).Fits b m (r.list prims) := by
  obtain ⟨hfirst, hlength, hchildren, hperm, hlist, hall⟩ := fatChildren hr htype hsize
  rw [htype] at hsize
  rw [ofRecord, hfirst] at hkeeps ⊢
  cases ty with
  | triangle => exact ofQuads_fits (Or.inl rfl) hlength hchildren hperm hdata hkeeps
  | quad => exact ofQuads_fits (Or.inr rfl) hlength hchildren hperm hdata hkeeps
  | procedural => exact (ofProcedurals_fits hall hsize hdata hkeeps).of_perm hlist
  | inst => exact (ofInstances_fits hall hsize hdata hkeeps).of_perm hlist

theorem FatBlock.Fits.represents {f : FatBlock} {list : List PrimRef} {addr : Nat} (h : f.Fits b m list)
    (hm : m addr = some (.node ((f.node.setChildOffset addr f.childPtr).setNodeMask f.nodeMask)))
    (hfits : offsetFits addr f.childPtr = true) (haddr : addr % 64 = 0) :
    (∃ tree, Represents b m ⟨addr, .internal, 0⟩ list tree) ∧ f.nodeMask = unionMask b list := by
  obtain ⟨bounds, nodeType, args, lists, hlists, hnode, hlength, hargs, hptr, hmask, hperm, hchild⟩ := h
  rw [hnode] at hm
  obtain ⟨tree, htree⟩ := represents_node hlength hargs hfits haddr hptr hm hlists hchild hmask
  exact ⟨⟨tree, htree.of_perm hperm⟩, hmask.trans (unionMask_perm b hperm)⟩

end images

section runs

variable {t : List BuildEvent} {addr : Nat}

theorem Agrees.keeps {f : FatImage} {childData : Nat}
    (h : Agrees m (.emit (.fatLeaf prims r) :: (f.earlyEvents (some addr) ++
      .ask (.malloc f.bytes 64) (some childData) :: f.blockEvents (some addr) childData)))
    (hlayout : Layout addr (.emit (.fatLeaf prims r) :: (f.earlyEvents (some addr) ++
      .ask (.malloc f.bytes 64) (some childData) :: f.blockEvents (some addr) childData)))
    (hinside : ∀ s ∈ (f.block childData).stores, Inside childData f.bytes s.1) :
    Keeps m (f.block childData).stores := by
  intro a ha
  obtain ⟨cell, hcell⟩ := List.exists_mem_of_ne_nil _ ha
  have hblock := hlayout.ne_of_inBlock ⟨(childData, f.bytes), mem_blocks.2 ⟨64, by simp⟩,
    hinside _ (mem_storesAt.1 hcell)⟩
  have hwrites := h a
  rw [writesAt_fatLeaf, writesAt_append, writesAt_earlyEvents_of_ne f hblock, writesAt_ask,
    FatImage.blockEvents, writesAt_append, writesAt_storeEvents, writesAt_finishEvents_of_ne hblock,
    List.nil_append, List.append_nil] at hwrites
  exact hwrites ha

theorem mem_assert_finishEvents {curAddr : Option Nat} {childAddr : Nat} {nodeMask : BitVec 8}
    {node : InternalNode} :
    .emit (.assert (offsetFits (curAddr.getD 0) childAddr)) ∈
      finishEvents curAddr childAddr nodeMask node :=
  List.mem_cons_self ..

/-- What setChild is called with for the children of an inner node. -/
theorem childrenNode_args {children : List BuildRecord} {values : Fin children.length → ReductionTy}
    (h : ∀ i, (values i).type = .internal ∧ (values i).primRange.blockDelta = 1) :
    List.zipWith (fun (child : BuildRecord) (value : ReductionTy) =>
        (⟨child.bounds, value.type, value.primRange.blockDelta, 0⟩ : ChildArgs)) children
          (List.ofFn values) =
      children.map (fun c => ⟨c.bounds, .internal, 1, 0⟩) := by
  refine List.ext_getElem (by simp) (fun i hi hi' => ?_)
  rw [List.length_map] at hi'
  rw [List.getElem_zipWith, List.getElem_map, List.getElem_ofFn, (h ⟨i, hi'⟩).1, (h ⟨i, hi'⟩).2]

/-- Each child has one block, for its node. -/
theorem blockOffset_children {children : List BuildRecord} {i : Nat} (hi : i ≤ children.length) :
    blockOffset (children.map (fun c => ⟨c.bounds, .internal, 1, 0⟩)) i = i := by
  rw [blockOffset, ← List.map_take, List.map_map]
  have hone : (children.take i).map (ChildArgs.blockDelta ∘ fun c => ⟨c.bounds, .internal, 1, 0⟩) =
      (children.take i).map (fun _ => 1) := List.map_congr_left (fun _ _ => rfl)
  rw [hone, List.map_const', List.sum_replicate, List.length_take, Nat.min_eq_left hi, smul_eq_mul,
    Nat.mul_one]

/-- Children with nodes of their own make a node that represents all of them. -/
theorem represents_children {children : List BuildRecord}
    {values : Fin children.length → ReductionTy} {childBase : Nat} (hlength : children.length ≤ 6)
    (hbounds : ∀ c ∈ children, c.bounds = unionBounds (c.list prims) ∧ c.bounds ≠ ⊥)
    (hchild : ∀ i : Fin children.length, (∃ tree, Represents b m ⟨childBase + i * nodeBytes,
      .internal, 0⟩ ((children.get i).list prims) tree) ∧
      values i = nodeValue (some (childBase + i * nodeBytes)) (unionMask b
        ((children.get i).list prims)))
    (hfits : offsetFits addr childBase = true) (haddr : addr % 64 = 0) (hbase : childBase % 64 = 0)
    (hm : m addr = some (.node (((childrenNode .internal children (List.ofFn values)).setChildOffset addr
      childBase).setNodeMask (valuesMask (List.ofFn values))))) :
    (∃ tree, Represents b m ⟨addr, .internal, 0⟩ (children.flatMap (fun c => c.list prims)) tree) ∧
      valuesMask (List.ofFn values) = unionMask b (children.flatMap (fun c => c.list prims)) := by
  have hinternal : ∀ i, (values i).type = .internal ∧ (values i).primRange.blockDelta = 1 := by
    intro i
    rw [(hchild i).2]
    exact ⟨rfl, rfl⟩
  have hargs := childrenNode_args hinternal
  have hmask : valuesMask (List.ofFn values) =
      unionMask b (children.map (fun c => c.list prims)).flatten := by
    rw [valuesMask_eq, unionMask_flatten]
    congr 1
    refine List.ext_getElem (by simp) (fun i hi hi' => ?_)
    rw [List.length_map, List.length_ofFn] at hi
    rw [List.getElem_map, List.getElem_ofFn, List.getElem_map, List.getElem_map, (hchild ⟨i, hi⟩).2]
    rfl
  rw [List.flatMap_def]
  refine ⟨?_, hmask⟩
  have hlists : (children.map (fun c => c.list prims)).length =
      (children.map (fun c => (⟨c.bounds, .internal, 1, 0⟩ : ChildArgs))).length := by
    rw [List.length_map, List.length_map]
  have hnode : m addr =
      some (.node (finished (children.foldl (fun b child => b ⊔ child.bounds) ⊥) .internal
      (children.map (fun c => ⟨c.bounds, .internal, 1, 0⟩)) addr childBase
        (valuesMask (List.ofFn values)))) := by
    rw [hm, childrenNode, hargs]
    rfl
  refine represents_node ((List.length_map _).trans_le hlength)
    (fun c hc => ?_) hfits haddr hbase hnode hlists (fun i hi => ?_) hmask
  · obtain ⟨child, hchild, rfl⟩ := List.mem_map.1 hc
    exact ⟨(hbounds child hchild).2, show 1 < 4 by decide, Nat.succ_pos 15, fun h => absurd rfl h,
      fun _ => rfl⟩
  · have hi' : i < children.length := by rwa [List.length_map] at hi
    simp only [List.get_eq_getElem, List.getElem_map]
    refine ⟨(hbounds _ (List.getElem_mem hi')).1, ?_⟩
    rw [blockOffset_children hi'.le, Nat.mul_comm]
    exact (hchild ⟨i, hi'⟩).1

structure FatKept (b : BuilderT) (m : Nat → Option Cell) (prims : Nat → PrimRef) (r : BuildRecord)
    (addr childData : Nat) : Prop where
  childData_mod : childData % 64 = 0
  keeps : Keeps m ((FatImage.ofRecord b prims r).block childData).stores
  fits : offsetFits addr ((FatImage.ofRecord b prims r).block childData).childPtr = true
  node : m addr = some (.node ((((FatImage.ofRecord b prims r).block childData).node.setChildOffset addr
    ((FatImage.ofRecord b prims r).block childData).childPtr).setNodeMask
      ((FatImage.ofRecord b prims r).block childData).nodeMask))

theorem fatKept {ty : PrimType} {childData : Nat} (hr : r.Describes b.getType prims)
    (htype : r.type = some ty) (hsize : r.size ≤ leafSize r.type)
    (ht : t = .emit (.fatLeaf prims r) :: ((FatImage.ofRecord b prims r).earlyEvents (some addr) ++
      .ask (.malloc (FatImage.ofRecord b prims r).bytes 64) (some childData) ::
        (FatImage.ofRecord b prims r).blockEvents (some addr) childData))
    (hlayout : Layout addr t) (hassert : ∀ ok, .emit (.assert ok) ∈ t → ok = true) (hm : Agrees m t) :
    FatKept b m prims r addr childData := by
  subst ht
  refine ⟨?_, hm.keeps hlayout (FatImage.stores_inside hr htype hsize childData), ?_, ?_⟩
  · exact hlayout.base_mod (childData, (FatImage.ofRecord b prims r).bytes)
      (mem_blocks.2 ⟨64, by simp⟩)
  · exact hassert _ (List.mem_cons_of_mem _ (List.mem_append_right _ (List.mem_cons_of_mem _
      (List.mem_append_right _ mem_assert_finishEvents))))
  · exact Agrees.node (t := .emit (.fatLeaf prims r) ::
      ((FatImage.ofRecord b prims r).earlyEvents (some addr) ++
        .ask (.malloc (FatImage.ofRecord b prims r).bytes 64) (some childData) ::
          storeEvents ((FatImage.ofRecord b prims r).block childData).stores)) (by
            simpa [FatImage.blockEvents] using hm)

/-- What a plan that has ended with a valid value keeps in memory. -/
inductive Plan.Kept (b : BuilderT) (m : Nat → Option Cell) : Plan → Nat → ReductionTy → Prop
  | fat (prims r addr childData) (haddr : addr % 64 = 0) (h : FatKept b m prims r addr childData) :
      Kept b m (.fat prims r) addr
        (nodeValue (some addr) ((FatImage.ofRecord b prims r).block childData).nodeMask)
  | node (parallel children sub addr childBase values) (haddr : addr % 64 = 0)
      (hbase : childBase % 64 = 0) (hfits : offsetFits addr childBase = true)
      (hnode : m addr = some (.node (((childrenNode .internal children
        (List.ofFn values)).setChildOffset addr childBase).setNodeMask (valuesMask (List.ofFn values)))))
      (hsub : ∀ i : Fin children.length, Kept b m (sub i) (childBase + i * nodeBytes) (values i)) :
      Kept b m (.node parallel children sub) addr
        (nodeValue (some addr) (valuesMask (List.ofFn values)))

theorem Plan.Valid.kept {p : Plan} (hvalid : Valid b.getType prims r p) {v : ReductionTy}
    (h : BuildRun (p.emit b (some addr)) t (.ret v)) (hv : v.valid = true) (hlayout : Layout addr t)
    (hassert : ∀ ok, .emit (.assert ok) ∈ t → ok = true) (hm : Agrees m t) : p.Kept b m addr v := by
  induction hvalid generalizing t addr v with
  | throw prims r x => cases h
  | fat prims r ty r' hprims hr htype hsize =>
      generalize ho : Outcome.ret v = o at h
      cases createFatLeaf_run h with
      | tooDeep hdepth => cases ho
      | full hdepth =>
          cases ho
          cases hv
      | done childData hdepth =>
          cases ho
          exact .fat _ _ _ childData hlayout.addr_mod (fatKept hr htype hsize rfl hlayout hassert hm)
  | node prims prims' r r' parallel children sub hprims hr hcover hlength hsub ih =>
      generalize ho : Outcome.ret v = o at h
      cases createChildren_run h with
      | full =>
          cases ho
          cases hv
      | failed childBase started ts os w i w' htasks hi hret hw =>
          cases ho
          cases hv
      | threw childBase started ts os w i x htasks hi hthrow => cases ho
      | done childBase ts w values hruns hvalues hweave =>
          cases ho
          refine .node _ _ _ _ childBase values hlayout.addr_mod ?_ ?_ ?_ (fun i => ?_)
          · exact hlayout.base_mod (childBase, children.length * nodeBytes)
              (mem_blocks.2 ⟨64, List.mem_cons_self ..⟩)
          · exact hassert _
              (List.mem_cons_of_mem _ (List.mem_append_right _ mem_assert_finishEvents))
          · exact Agrees.node (t := mallocChildren children.length (some childBase) :: w) hm
          · refine ih i (hruns i) (hvalues i) (hlayout.child hweave i) (fun ok hok => hassert ok ?_)
              (hm.child hlayout hweave (fun i a cell he => (hsub i).writes (hruns i) a cell he) i)
            exact List.mem_cons_of_mem _ (List.mem_append_left _ ((hweave.sublist i).subset hok))

/-- What is kept is the tree of the record. -/
theorem Plan.Valid.represents {p : Plan} (hvalid : Valid b.getType prims r p) {v : ReductionTy}
    (hkept : p.Kept b m addr v) :
    (∃ tree, Represents b m ⟨addr, .internal, 0⟩ (r.list prims) tree) ∧
      v = nodeValue (some addr) (unionMask b (r.list prims)) := by
  induction hvalid generalizing addr v with
  | throw prims r x => cases hkept
  | fat prims r ty r' hprims hr htype hsize =>
      have hlist : r'.list prims = r.list prims := by
        rw [BuildRecord.list, BuildRecord.begin_, BuildRecord.end_, hprims]
        rfl
      cases hkept with
      | fat _ _ _ childData haddr hkept =>
          have hfit := FatImage.ofRecord_fits hr htype hsize hkept.childData_mod hkept.keeps
          obtain ⟨htree, hmask⟩ := hfit.represents hkept.node hkept.fits haddr
          rw [← hlist, hmask]
          exact ⟨htree, rfl⟩
  | node prims prims' r r' parallel children sub hprims hr hcover hlength hsub ih =>
      have hlist : r'.list prims = r.list prims := by
        rw [BuildRecord.list, BuildRecord.begin_, BuildRecord.end_, hprims]
        rfl
      cases hkept with
      | node _ _ _ _ childBase values haddr hbase hfits hnode hkept =>
          have hbounds : ∀ c ∈ children, c.bounds = unionBounds (c.list prims') ∧ c.bounds ≠ ⊥ :=
            fun c hc =>
            ⟨(hcover.describes c hc).bounds_eq, (hcover.describes c hc).bounds_ne_bot⟩
          obtain ⟨⟨tree, htree⟩, hmask⟩ :=
            represents_children hlength hbounds (fun i => ih i (hkept i)) hfits haddr hbase hnode
          rw [← hlist, hmask, unionMask_perm b hcover.list_perm]
          exact ⟨⟨tree, htree.of_perm hcover.list_perm⟩, rfl⟩

end runs

end RTBuild
