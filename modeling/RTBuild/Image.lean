import RTBuild.Traversal

namespace RTBuild

open Library Library.Task RTBuild.Splits RTBuild.Children Settings InternalNode

inductive LeafImage
  | quad (leaf : QuadLeaf)
  | procedural (leafDesc : PrimLeafDesc) (primIndex : Fin (2 ^ 32))
  | inst (part0 : InstancePart0) (part1 : InstancePart1)

def LeafImage.prim : LeafImage → LeafPrim
  | quad leaf => leaf.prim
  | procedural leafDesc primIndex => .procedural leafDesc.geomIndex primIndex leafDesc.geomMask
  | inst part0 part1 => instancePrim part0 part1

/-- A node apart from where its children are. -/
def InternalNode.unplaced (node : InternalNode) : InternalNode := { node with childOffset := 0 }

/-- All that is stored below a reference, apart from the addresses. -/
abbrev Image := WideTree 6 InternalNode Unit LeafImage

namespace Image

def ofNode (node : InternalNode) (images : List Image) : Image :=
  .ofList node.unplaced (fun _ => ()) images

def nodeMask : Image → BitVec 8
  | .node node _ _ => node.nodeMask
  | _ => 0

def traverse (test : Vec3f × Vec3f → Bool) (rayMask : BitVec 8) : Image → List LeafPrim
  | .absent => []
  | .leaf list => (list.map LeafImage.prim).filter (passes rayMask ∘ LeafPrim.geomMask)
  | .node node _ child =>
      if passes rayMask node.nodeMask then
        (List.finRange 6).flatMap (fun i =>
          if node.valid i && test (node.bounds i) then traverse test rayMask (child i) else [])
      else []

end Image

section image

variable (m : Nat → Option Cell)

def readProcedurals : Nat → Nat → Nat → Option (List LeafImage)
  | 0, _, _ => none
  | fuel + 1, addr, curPrim =>
      match m addr with
      | some (.procedural leaf) =>
          if h : curPrim < 13 then
            let prim := .procedural leaf.leafDesc (leaf.primIndex ⟨curPrim, h⟩)
            if leaf.isLast curPrim then some [prim]
            else
              (if leaf.numPrimitives ≤ curPrim + 1 then readProcedurals fuel (addr + nodeBytes) 0
              else readProcedurals fuel addr (curPrim + 1)).map (prim :: ·)
          else none
      | _ => none

def readInstance (addr : Nat) : Option LeafImage :=
  match m addr, m (addr + nodeBytes) with
  | some (.instancePart0 part0), some (.instancePart1 part1) => some (.inst part0 part1)
  | _, _ => none

def image : Nat → NodeRef → Option Image
  | 0, _ => none
  | fuel + 1, ref =>
      match ref.type with
      | .quad => (readQuads m fuel ref.node).map (fun leaves => .leaf (leaves.map .quad))
      | .procedural => (readProcedurals m fuel ref.node ref.curPrim).map .leaf
      | .inst => (readInstance m ref.node).map (fun leaf => .leaf [leaf])
      | .internal =>
          match m ref.node with
          | some (.node node) =>
              (sequence (fun i => if node.valid i then (node.child ref.node i).bind (image fuel)
                else some .absent)).map (.node node.unplaced (fun _ => ()))
          | _ => none
      | .invalid => none

def Shows (ref : NodeRef) (picture : Image) : Prop :=
  ∃ n, ∀ fuel, n ≤ fuel → image m fuel ref = some picture

end image

section traverse

variable {m : Nat → Option Cell}

theorem decodeProcedurals_eq (fuel addr curPrim : Nat) :
    decodeProcedurals m fuel addr curPrim =
      (readProcedurals m fuel addr curPrim).map (List.map LeafImage.prim) := by
  induction fuel generalizing addr curPrim with
  | zero => rfl
  | succ fuel ih =>
      rw [decodeProcedurals, readProcedurals]
      cases m addr with
      | none => rfl
      | some cell =>
          cases cell with
          | procedural leaf =>
              by_cases hslot : curPrim < 13
              · simp only [dif_pos hslot]
                by_cases hlast : leaf.isLast curPrim = true
                · simp only [if_pos hlast]
                  rfl
                · simp only [if_neg hlast, Option.map_map]
                  by_cases hfull : leaf.numPrimitives ≤ curPrim + 1
                  · simp only [if_pos hfull, ih, Option.map_map]
                    rfl
                  · simp only [if_neg hfull, ih, Option.map_map]
                    rfl
              · simp only [dif_neg hslot]
                rfl
          | _ => rfl

theorem decodeInstance_eq (addr : Nat) :
    decodeInstance m addr = (readInstance m addr).map LeafImage.prim := by
  rw [decodeInstance, readInstance]
  cases m addr with
  | none => rfl
  | some cell =>
      cases cell with
      | instancePart0 part0 =>
          cases m (addr + nodeBytes) with
          | none => rfl
          | some cell => cases cell <;> rfl
      | _ => rfl

/-- What a ray meets depends on the image only. -/
theorem traverse_eq_image {test : Vec3f × Vec3f → Bool} {rayMask : BitVec 8} {fuel : Nat} {ref : NodeRef}
    {picture : Image} (h : image m fuel ref = some picture) :
    traverse m test rayMask fuel ref = some (Image.traverse test rayMask picture) := by
  induction fuel generalizing ref picture with
  | zero => cases h
  | succ fuel ih =>
      rw [image] at h
      rw [traverse]
      cases htype : ref.type with
      | invalid =>
          rw [htype] at h
          cases h
      | quad =>
          rw [htype] at h
          obtain ⟨leaves, hleaves, rfl⟩ := Option.map_eq_some_iff.1 h
          simp [decodeQuads_eq, hleaves, Image.traverse, Function.comp_def, LeafImage.prim]
      | procedural =>
          rw [htype] at h
          obtain ⟨list, hlist, rfl⟩ := Option.map_eq_some_iff.1 h
          simp only [decodeProcedurals_eq, hlist, Option.map_some, Image.traverse]
      | inst =>
          rw [htype] at h
          obtain ⟨leaf, hleaf, rfl⟩ := Option.map_eq_some_iff.1 h
          simp only [decodeInstance_eq, hleaf, Option.map_some, Image.traverse, List.map_cons,
            List.map_nil]
      | internal =>
          rw [htype] at h
          cases hcell : m ref.node with
          | none => simp [hcell] at h
          | some cell =>
              cases cell with
              | node node =>
                  simp only [hcell] at h
                  obtain ⟨child, hsequence, rfl⟩ := Option.map_eq_some_iff.1 h
                  have hchild : ∀ i, (if node.valid i && test (node.bounds i) then
                      (node.child ref.node i).bind (traverse m test rayMask fuel) else some []) =
                      some (if node.valid i && test (node.bounds i) then
                        Image.traverse test rayMask (child i) else []) := by
                    intro i
                    have hi := of_sequence_eq_some hsequence i
                    split
                    next hmet =>
                      rw [if_pos (Bool.and_eq_true_iff.1 hmet).1] at hi
                      obtain ⟨ref', href, himage⟩ := Option.bind_eq_some_iff.1 hi
                      rw [href, Option.bind_some, ih himage]
                    next => rfl
                  simp only [sequence_eq_some hchild, Option.map_some]
                  rw [Image.traverse, apply_ite some]
                  rfl
              | _ => simp [hcell] at h

end traverse

section plan

variable (b : BuilderT)

def instanceImage (prim : PrimRef) : LeafImage :=
  let leaf := instanceLeaf b.rtasFormat (b.getInstance prim.geomID) prim.geomID prim.primID
  .inst leaf.1 leaf.2

def fatImages (prims : Nat → PrimRef) (r : BuildRecord) : List Image :=
  let s := fatLeafChildren b.heuristic prims r
  match b.getType (prims r.begin_).geomID with
  | .triangle => s.2.map (fun c => .leaf ((quadLeaves b s.1 .triangle c).map .quad))
  | .quad => s.2.map (fun c => .leaf ((quadLeaves b s.1 .quad c).map .quad))
  | .procedural => (r.list s.1).map (fun prim => .leaf [.procedural (proceduralDesc b prim) prim.primID])
  | .inst => (r.list s.1).map (fun prim => .leaf [instanceImage b prim])

def Plan.image : Plan → Image
  | .throw _ => .absent
  | .fat prims r =>
      let block := (FatImage.ofRecord b prims r).block 0
      .ofNode (block.node.setNodeMask block.nodeMask) (fatImages b prims r)
  | .node _ children sub =>
      let values := List.ofFn (fun i => nodeValue none (Image.nodeMask (sub i).image))
      .ofNode ((childrenNode .internal children values).setNodeMask (valuesMask values))
        (List.ofFn (fun i => (sub i).image))

end plan

section shows

theorem Shows.traverse {m : Nat → Option Cell} {ref : NodeRef} {picture : Image}
    (h : Shows m ref picture) :
    ∃ n, ∀ steps, n ≤ steps → ∀ test rayMask,
      RTBuild.traverse m test rayMask steps ref = some (Image.traverse test rayMask picture) := by
  obtain ⟨n, hn⟩ := h
  exact ⟨n, fun steps hsteps test rayMask => traverse_eq_image (hn steps hsteps)⟩

variable {b : BuilderT} {m : Nat → Option Cell} {prims : Nat → PrimRef} {r : BuildRecord}
  {addr childData : Nat}

/-- Where each of finitely many readings ends there is fuel for all of them. -/
theorem exists_fuel_all {ι : Type} [Finite ι] {P : ι → Nat → Prop}
    (h : ∀ i, ∃ n, ∀ fuel, n ≤ fuel → P i fuel) : ∃ n, ∀ fuel, n ≤ fuel → ∀ i, P i fuel := by
  apply Filter.eventually_atTop.1
  apply Filter.eventually_all.2
  intro i
  exact Filter.eventually_atTop.2 (h i)

theorem shows_quads {ty : PrimType} (hr : r.begin_ < r.end_)
    (h : Stored m addr ((quadLeaves b prims ty r).map .quad)) :
    Shows m ⟨addr, .quad, 0⟩ (.leaf ((quadLeaves b prims ty r).map .quad)) := by
  refine ⟨r.size + 1, fun fuel hfuel => ?_⟩
  obtain ⟨fuel, rfl⟩ := Nat.exists_eq_add_of_le' (Nat.le_of_add_left_le hfuel)
  simp only [image, readQuads_quadLeaves hr h (Nat.le_of_succ_le_succ hfuel), Option.map_some]

theorem shows_procedural {slot : Nat} {prim : PrimRef}
    (h : ProceduralLeafBuilder.HoldsAt b m addr slot prim) :
    Shows m ⟨addr, .procedural, slot⟩ (.leaf [.procedural (proceduralDesc b prim) prim.primID]) := by
  refine ⟨2, fun fuel hfuel => ?_⟩
  obtain ⟨fuel, rfl⟩ := Nat.exists_eq_add_of_le' hfuel
  obtain ⟨leaf, hleaf, hdesc, hlt, hindex, hlast⟩ := h
  simp [image, readProcedurals, hleaf, hlt, hdesc, hindex, ProceduralLeaf.isLast, hlast]

theorem shows_instance {prim : PrimRef} (h : Stored m addr (instanceCells b prim)) :
    Shows m ⟨addr, .inst, 0⟩ (.leaf [instanceImage b prim]) := by
  refine ⟨1, fun fuel hfuel => ?_⟩
  obtain ⟨fuel, rfl⟩ := Nat.exists_eq_add_of_le' hfuel
  obtain ⟨hpart0, hpart1, -⟩ := h
  simp [image, readInstance, hpart0, hpart1, instanceImage]

/-- A node shows its children, given that they are where its arguments say. -/
theorem FatBlock.Frame.shows {f : FatBlock} {nodeType : NodeType} {args : List ChildArgs}
    {images : List Image} (h : f.Frame nodeType args)
    (hm : m addr = some (.node ((f.node.setChildOffset addr f.childPtr).setNodeMask f.nodeMask)))
    (hfits : offsetFits addr f.childPtr = true) (haddr : addr % 64 = 0)
    (himages : images.length = args.length)
    (hchild : ∀ (i : Nat) (hi : i < args.length),
      Shows m ⟨f.childPtr + 64 * blockOffset args i, args[i].type, args[i].curPrim⟩
        (images.get ⟨i, himages ▸ hi⟩)) :
    Shows m ⟨addr, .internal, 0⟩ (.ofNode (f.node.setNodeMask f.nodeMask) images) := by
  obtain ⟨⟨bounds, hnode⟩, hlength, hargs, hptr⟩ := h
  rw [hnode] at hm ⊢
  obtain ⟨n, hn⟩ := exists_fuel_all (fun i : Fin args.length => hchild i i.isLt)
  refine ⟨n + 1, fun fuel hfuel => ?_⟩
  obtain ⟨k, rfl⟩ := Nat.exists_eq_add_of_le' hfuel
  rw [← Nat.add_assoc, image]
  simp only [hm]
  exact congrArg (Option.map _) (sequence_finished hlength hargs hfits haddr hptr himages
    (fun i hi => hn (k + n) (Nat.le_add_left n k) ⟨i, hi⟩))

end shows

section blocks

variable {b : BuilderT} {prims : Nat → PrimRef} {r : BuildRecord}

theorem masks_createAllQuads (ty : PrimType) (children : List BuildRecord) (addr addr' : Nat) :
    ((createAllQuads b prims ty children addr).map Prod.snd).map ReductionTy.nodeMask =
      ((createAllQuads b prims ty children addr').map Prod.snd).map ReductionTy.nodeMask := by
  induction children generalizing addr addr' with
  | nil => rfl
  | cons c children ih => exact congrArg (List.cons _) (ih _ _)

theorem FatImage.ofQuads_eq (ty : PrimType) (children : List BuildRecord) (addr addr' : Nat) :
    ((ofQuads b prims r ty children).block addr).node =
        ((ofQuads b prims r ty children).block addr').node ∧
      ((ofQuads b prims r ty children).block addr).nodeMask =
        ((ofQuads b prims r ty children).block addr').nodeMask := by
  constructor
  · exact congrArg (setChildren _ 0) (createAllQuads_args.trans createAllQuads_args.symm)
  · simp only [ofQuads, valuesMask_eq, masks_createAllQuads ty children addr addr']

/-- The ranges of procedurals do not depend on where the blocks are. -/
theorem ranges_addProcedurals {s s' : ProceduralLeafBuilder} (list : List PrimRef)
    (hprev : s.prevBlockID = s'.prevBlockID) (hcurr : s.currBlockID = s'.currBlockID)
    (hleaf : s.currProcedural = s'.currProcedural) :
    (addProcedurals b s list).map Prod.snd = (addProcedurals b s' list).map Prod.snd := by
  induction list generalizing s s' with
  | nil => rfl
  | cons prim list ih =>
      rw [addProcedurals, addProcedurals, List.map_cons, List.map_cons]
      cases hadd : s.currProcedural.add (proceduralDesc b prim) prim.primID true with
      | some leaf =>
          have hadd' := hleaf ▸ hadd
          rw [ProceduralLeafBuilder.addProcedural_of_some hadd,
            ProceduralLeafBuilder.addProcedural_of_some hadd', hprev, hcurr]
          exact congrArg (List.cons _) (ih rfl rfl rfl)
      | none =>
          have hadd' := hleaf ▸ hadd
          rw [ProceduralLeafBuilder.addProcedural_of_none hadd,
            ProceduralLeafBuilder.addProcedural_of_none hadd', hprev, hcurr]
          exact congrArg (List.cons _) (ih rfl rfl rfl)

variable (b prims r) in
/-- The node of a fat leaf does not depend on where its block is. -/
theorem FatImage.ofRecord_eq (addr addr' : Nat) :
    ((ofRecord b prims r).block addr).node = ((ofRecord b prims r).block addr').node ∧
      ((ofRecord b prims r).block addr).nodeMask = ((ofRecord b prims r).block addr').nodeMask := by
  rw [ofRecord]
  cases b.getType (prims r.begin_).geomID with
  | triangle => exact ofQuads_eq _ _ addr addr'
  | quad => exact ofQuads_eq _ _ addr addr'
  | procedural =>
      refine ⟨?_, rfl⟩
      have hranges : ∀ list,
          (addProcedurals b (.start addr) list).map Prod.snd =
            (addProcedurals b (.start addr') list).map Prod.snd :=
        fun list => ranges_addProcedurals list rfl rfl rfl
      simp only [ofProcedurals, hranges]
  | inst => exact ⟨rfl, rfl⟩

end blocks

section runs

variable {b : BuilderT} {m : Nat → Option Cell} {prims : Nat → PrimRef} {r : BuildRecord}
  {addr childData : Nat} {t : List BuildEvent}

theorem FatKept.shows {ty : PrimType} (h : FatKept b m prims r addr childData)
    (hr : r.Describes b.getType prims) (htype : r.type = some ty) (hsize : r.size ≤ leafSize r.type)
    (haddr : addr % 64 = 0) :
    Shows m ⟨addr, .internal, 0⟩ ((Plan.fat prims r).image b) := by
  obtain ⟨hdata, hkeeps, hfits, hnode⟩ := h
  obtain ⟨hfirst, hlength, hchildren, -, -, -⟩ := fatChildren hr htype hsize
  obtain ⟨hblock, hmask⟩ := FatImage.ofRecord_eq b prims r childData 0
  rw [Plan.image, ← hblock, ← hmask, fatImages, hfirst]
  rw [FatImage.ofRecord, hfirst] at hkeeps hfits hnode ⊢
  rw [htype] at hsize
  have hquads : ∀ (i : Nat) (hi : i < (fatLeafChildren b.heuristic prims r).2.length),
      ((fatLeafChildren b.heuristic prims r).2[i]).begin_ <
        ((fatLeafChildren b.heuristic prims r).2[i]).end_ :=
    fun i hi => (hchildren _ (List.getElem_mem hi)).1.nonempty
  cases ty with
  | triangle =>
      refine (FatImage.ofQuads_frame hlength hchildren hdata).shows hnode hfits haddr ?_ (fun i hi => ?_)
      · rw [List.length_map, FatImage.quadArgs, List.length_map]
      · rw [FatImage.quadArgs, List.length_map] at hi
        have hcells := FatImage.ofQuads_stored hkeeps hi
        simp only [List.get_eq_getElem, FatImage.quadArgs, List.getElem_map]
        exact shows_quads (hquads i hi) hcells
  | quad =>
      refine (FatImage.ofQuads_frame hlength hchildren hdata).shows hnode hfits haddr ?_ (fun i hi => ?_)
      · rw [List.length_map, FatImage.quadArgs, List.length_map]
      · rw [FatImage.quadArgs, List.length_map] at hi
        have hcells := FatImage.ofQuads_stored hkeeps hi
        simp only [List.get_eq_getElem, FatImage.quadArgs, List.getElem_map]
        exact shows_quads (hquads i hi) hcells
  | procedural =>
      obtain ⟨hframe, hholds⟩ := FatImage.ofProcedurals_frame hsize hdata hkeeps
      have hargs := FatImage.length_startedArgs (b := b) childData
        (r.list (fatLeafChildren b.heuristic prims r).1)
      refine hframe.shows hnode hfits haddr ((List.length_map _).trans hargs.symm) (fun i hi => ?_)
      obtain ⟨-, htype, hholds⟩ := hholds i hi (hargs ▸ hi)
      simp only [List.get_eq_getElem, List.getElem_map]
      rw [htype]
      exact shows_procedural hholds
  | inst =>
      refine (FatImage.ofInstances_frame hsize hdata).shows hnode hfits haddr ?_ (fun i hi => ?_)
      · rw [List.length_map, FatImage.instanceArgs, List.length_map]
      · rw [FatImage.instanceArgs, List.length_map] at hi
        have hcells := FatImage.ofInstances_stored hkeeps hi
        simp only [List.get_eq_getElem, FatImage.instanceArgs, List.getElem_map]
        exact shows_instance hcells

/-- A node depends on the types and the masks of its children, not on where they are. -/
theorem childrenNode_eq {children : List BuildRecord}
    {values values₀ : Fin children.length → ReductionTy}
    (hmask : ∀ i, (values i).nodeMask = (values₀ i).nodeMask)
    (h : ∀ i, (values i).type = .internal ∧ (values i).primRange.blockDelta = 1)
    (h₀ : ∀ i, (values₀ i).type = .internal ∧ (values₀ i).primRange.blockDelta = 1) :
    childrenNode .internal children (List.ofFn values) =
        childrenNode .internal children (List.ofFn values₀) ∧
      valuesMask (List.ofFn values) = valuesMask (List.ofFn values₀) := by
  constructor
  · rw [childrenNode, childrenNode, childrenNode_args h, childrenNode_args h₀]
  · rw [valuesMask_eq, valuesMask_eq, List.map_ofFn, List.map_ofFn]
    exact congrArg (fun masks => (List.ofFn masks).foldr (· ||| ·) 0) (funext hmask)

theorem frame_children {children : List BuildRecord} {values : Fin children.length → ReductionTy}
    {childBase : Nat} (hlength : children.length ≤ 6) (hbounds : ∀ c ∈ children, c.bounds ≠ ⊥)
    (hvalues : ∀ i, (values i).type = .internal ∧ (values i).primRange.blockDelta = 1)
    (hbase : childBase % 64 = 0) :
    (⟨[], childBase, valuesMask (List.ofFn values),
      childrenNode .internal children (List.ofFn values)⟩ : FatBlock).Frame .internal
        (children.map (fun c => ⟨c.bounds, .internal, 1, 0⟩)) := by
  refine ⟨⟨children.foldl (fun b child => b ⊔ child.bounds) ⊥, ?_⟩,
    (List.length_map _).trans_le hlength, fun c hc => ?_, hbase⟩
  · exact congrArg (setChildren _ 0) (childrenNode_args hvalues)
  · obtain ⟨child, hchild, rfl⟩ := List.mem_map.1 hc
    exact ⟨hbounds child hchild, show 1 < 4 by decide, Nat.succ_pos 15, fun h => absurd rfl h,
      fun _ => rfl⟩

/-- What is kept is what the plan stores, whatever addresses it was given. -/
theorem Plan.Valid.shows {p : Plan} (hvalid : Valid b.getType prims r p) {v : ReductionTy}
    (hkept : p.Kept b m addr v) :
    Shows m ⟨addr, .internal, 0⟩ (p.image b) ∧
      v = nodeValue (some addr) (Image.nodeMask (p.image b)) := by
  induction hvalid generalizing addr v with
  | throw prims r x => cases hkept
  | fat prims r ty r' hprims hr htype hsize =>
      cases hkept with
      | fat _ _ _ childData haddr hkept =>
          refine ⟨hkept.shows hr htype hsize haddr, ?_⟩
          rw [(FatImage.ofRecord_eq b prims r' childData 0).2]
          rfl
  | node prims prims' r r' parallel children sub hprims hr hcover hlength hsub ih =>
      cases hkept with
      | node _ _ _ _ childBase values haddr hbase hfits hnode hkept =>
          have hvalues : ∀ i, values i = nodeValue (some (childBase + i * nodeBytes))
              (Image.nodeMask ((sub i).image b)) := fun i => (ih i (hkept i)).2
          have hinternal : ∀ i, (values i).type = .internal ∧ (values i).primRange.blockDelta = 1 := by
            intro i
            rw [hvalues i]
            exact ⟨rfl, rfl⟩
          have hmasks : ∀ i, (values i).nodeMask =
              (nodeValue none (Image.nodeMask ((sub i).image b))).nodeMask := by
            intro i
            rw [hvalues i]
            rfl
          obtain ⟨hchildren, hmask⟩ := childrenNode_eq hmasks hinternal (fun i => ⟨rfl, rfl⟩)
          rw [Plan.image, ← hchildren, ← hmask]
          refine ⟨?_, rfl⟩
          refine (frame_children hlength (fun c hc => (hcover.describes c hc).bounds_ne_bot)
            hinternal hbase).shows hnode hfits haddr (by simp) (fun i hi => ?_)
          rw [List.length_map] at hi
          simp only [List.get_eq_getElem, List.getElem_map, List.getElem_ofFn]
          rw [blockOffset_children hi.le, Nat.mul_comm]
          exact (ih ⟨i, hi⟩ (hkept ⟨i, hi⟩)).1

theorem Plan.requestedBytes_eq {p : Plan} {v : ReductionTy}
    (h : BuildRun (p.emit b (some addr)) t (.ret v)) (hv : v.valid = true) :
    requestedBytes t = p.bytes b := by
  induction p generalizing t addr v with
  | throw x => cases h
  | fat prims r =>
      generalize ho : Outcome.ret v = o at h
      cases createFatLeaf_run h with
      | tooDeep hdepth => cases ho
      | full hdepth =>
          cases ho
          cases hv
      | done childData hdepth => simp [Plan.bytes, mallocBytes, FatImage.blockEvents]
  | node parallel children sub ih =>
      generalize ho : Outcome.ret v = o at h
      cases createChildren_run h with
      | full =>
          cases ho
          cases hv
      | failed childBase started ts os w i w' htasks hi hret hw =>
          cases ho
          cases hv
      | threw childBase started ts os w i x htasks hi hthrow => cases ho
      | done childBase ts w values hruns hvalues hweave =>
          rw [requestedBytes_cons, mallocBytes_mallocChildren, requestedBytes_append,
            requestedBytes_finishEvents, Nat.add_zero, Plan.bytes, requestedBytes, hweave.sum_map]
          exact congrArg _ (Finset.sum_congr rfl (fun i _ => ih i (hruns i) (hvalues i)))

/-- Where no call of malloc fails, the allocator hands out what is asked for. -/
theorem NeverFull.cur_eq {endBytes cur cur' : Nat} (hnever : NeverFull t)
    (h : Answered (Serves endBytes) cur t cur') : cur' = cur + requestedBytes t := by
  induction h with
  | nil cur => rfl
  | @ask cur cur₁ cur₂ q a t hserve ht ih =>
      have hrest := ih (hnever.mono (fun e he => List.mem_cons_of_mem _ he))
      rw [requestedBytes_cons]
      cases hserve with
      | malloc hserve =>
          cases hserve with
          | full hfull => exact absurd (List.mem_cons_self ..) (hnever _ _)
          | taken htaken => exact hrest.trans (Nat.add_assoc ..)
          | overshoot hover => exact absurd (List.mem_cons_self ..) (hnever _ _)
      | bytesAllocated => exact hrest.trans (congrArg _ (Nat.zero_add _).symm)
  | emit ht ih =>
      have hrest := ih (hnever.mono (fun e he => List.mem_cons_of_mem _ he))
      rw [requestedBytes_cons]
      exact hrest.trans (congrArg _ (Nat.zero_add _).symm)

end runs

section build

variable {b : BuilderT} {fuel endBytes cur : Nat} {prims : Nat → PrimRef} {pinfo : PrimInfoRange}
  {t : List BuildEvent} {v : ReductionTy}

def builtImage (b : BuilderT) (fuel : Nat) (prims : Nat → PrimRef) (pinfo : PrimInfoRange) : Image :=
  if (rootRecord pinfo).size = 0 then .ofNode (.ofType .internal) []
  else (Plan.internalNode b fuel prims (rootRecord pinfo)).image b

theorem buildBvh_bytes (h : BuildRun (buildBvh b fuel prims pinfo (some headerBytes)) t (.ret v))
    (hv : v.valid = true) :
    headerBytes + nodeBytes + requestedBytes t = builtBytes b fuel prims pinfo := by
  rw [builtBytes]
  rcases buildBvh_run h with ⟨hzero, rfl, -⟩ | ⟨hpos, h⟩
  · rw [if_pos hzero]
    rfl
  · rw [if_neg hpos.ne', Plan.requestedBytes_eq h hv]

/-- The node of an empty scene shows no child. -/
theorem shows_empty {m : Nat → Option Cell} {addr : Nat}
    (hm : m addr = some (.node (.ofType .internal))) :
    Shows m ⟨addr, .internal, 0⟩ (.ofNode (.ofType .internal) []) := by
  have hvalid : ∀ i, (InternalNode.ofType .internal).valid i = false := by decide
  refine ⟨1, fun fuel hfuel => ?_⟩
  obtain ⟨fuel, rfl⟩ := Nat.exists_eq_add_of_le' hfuel
  have hsequence : sequence (fun i : Fin 6 =>
      if (InternalNode.ofType .internal).valid i = true then
        ((InternalNode.ofType .internal).child addr i).bind (image m fuel)
      else some .absent) = some (fun _ => .absent) := by
    apply sequence_eq_some
    intro i
    rw [if_neg (Bool.eq_false_iff.1 (hvalid i))]
  rw [image]
  simp only [hm, hsequence]
  rfl

theorem build_shows (hbounds : (rootRecord pinfo).bounds = unionBounds ((rootRecord pinfo).list prims))
    (hend : endBytes ≤ 2 ^ 37) (hrun : BufferRun endBytes (build b fuel prims pinfo) 0 t (.ret v) cur)
    (hv : v.valid = true) :
    Shows (memory t) ⟨headerBytes, .internal, 0⟩ (builtImage b fuel prims pinfo) := by
  obtain ⟨t, bytes, cur', rfl, hlt, h, ht⟩ := build_done hrun hv
  rw [builtImage]
  rcases buildBvh_run h with ⟨hzero, rfl, -⟩ | ⟨hpos, h⟩
  · rw [if_pos hzero]
    exact shows_empty ((memory_done le_rfl).trans rfl)
  · rw [if_neg hpos.ne']
    have hvalid := Plan.internalNode_valid fuel (rootRecord_describes (b := b) hpos hbounds)
    exact (hvalid.shows (hvalid.kept_done hend ⟨h, ht⟩ hv)).1

/-- A build succeeds where its bytes fit in the buffer, and then these are the bytes that it uses. -/
theorem build_bytes (hrun : BufferRun endBytes (build b fuel prims pinfo) 0 t (.ret v) cur) :
    (v.valid = true ↔ builtBytes b fuel prims pinfo < endBytes) ∧
      (v.valid = true → cur = builtBytes b fuel prims pinfo ∧
        .emit (.accelBufferBytesOut (builtBytes b fuel prims pinfo)) ∈ t) := by
  have hroot : v.valid = true → headerBytes + nodeBytes < endBytes := by
    intro hv
    obtain ⟨-, -, -, -, hlt, -⟩ := build_done hrun hv
    exact hlt
  generalize ho : Outcome.ret v = o at hrun
  cases build_run hrun.1 with
  | threw header root t x h => cases ho
  | retry header root t w h hw =>
      cases ho
      refine ⟨iff_of_false (Bool.eq_false_iff.1 hw) (fun hlt => ?_),
        fun hv => absurd hv (Bool.eq_false_iff.1 hw)⟩
      rcases roots_answered hrun.2 with ⟨-, -, rfl, ht⟩ | ⟨hle, -⟩
      · have hvalid := buildBvh_valid h (neverFull_of_lt ht ((buildBvh_bytes_le h).trans_lt hlt)) v rfl
        exact Bool.noConfusion (hw.symm.trans hvalid)
      · exact absurd (le_builtBytes.trans_lt hlt) (Nat.not_lt.2 hle)
  | done header root t w bytes h hw =>
      cases ho
      rcases roots_answered hrun.2 with ⟨hlt, -, rfl, hanswered⟩ | ⟨hle, -⟩
      · obtain ⟨cur', ht, hdone⟩ := hanswered.of_append
        obtain ⟨rfl, rfl⟩ := answered_doneEvents hdone
        have hnever := buildBvh_neverFull h hw
        have hcur : cur = builtBytes b fuel prims pinfo :=
          (hnever.cur_eq ht).trans (buildBvh_bytes h hw)
        have hend := hnever.cur_lt ht hlt
        rw [← hcur]
        refine ⟨iff_of_true hw hend, fun _ => ⟨rfl, ?_⟩⟩
        simp [doneEvents]
      · exact absurd (hroot hw) (Nat.not_lt.2 hle)

/-- Neither the schedule of its tasks nor the order in which they allocate changes whether a build
succeeds, how many bytes it uses or what it stores. -/
theorem build_deterministic (b : BuilderT) (fuel endBytes : Nat) (prims : Nat → PrimRef)
    (pinfo : PrimInfoRange) (t : List BuildEvent) (o : BuildOutcome) (cur : Nat) (hfuel : 30 ≤ fuel)
    (hbounds : (rootRecord pinfo).bounds = unionBounds ((rootRecord pinfo).list prims))
    (hend : endBytes ≤ 2 ^ 37) (hrun : BufferRun endBytes (build b fuel prims pinfo) 0 t o cur) :
    (∀ v, o = .ret v →
      (v.valid = true ↔ builtBytes b fuel prims pinfo < endBytes) ∧
      (v.valid = true → cur = builtBytes b fuel prims pinfo ∧
        .emit (.accelBufferBytesOut (builtBytes b fuel prims pinfo)) ∈ t ∧
        Shows (memory t) ⟨headerBytes, .internal, 0⟩ (builtImage b fuel prims pinfo) ∧
        ∃ n, ∀ steps, n ≤ steps → ∀ test rayMask,
          traverse (memory t) test rayMask steps ⟨headerBytes, .internal, 0⟩ =
            some (Image.traverse test rayMask (builtImage b fuel prims pinfo)))) ∧
    ∀ x, o = .throw x → x = .tooDeep ∧ 98304 < (rootRecord pinfo).size := by
  refine ⟨fun v hv => ?_, build_throw hfuel hbounds hrun.1⟩
  subst hv
  obtain ⟨hsuccess, hbytes⟩ := build_bytes hrun
  refine ⟨hsuccess, fun hv => ?_⟩
  obtain ⟨hcur, hreported⟩ := hbytes hv
  have hshows := build_shows hbounds hend hrun hv
  exact ⟨hcur, hreported, hshows, hshows.traverse⟩

theorem build_deterministic_mixed : ∃ t v cur, BufferRun 16384
    (build (.line mixedTypes) 30 (linePrims 4) (lineInfo 4 24)) 0 t (.ret v) cur ∧
      .emit (.accelBufferBytesOut
        (builtBytes (.line mixedTypes) 30 (linePrims 4) (lineInfo 4 24))) ∈ t ∧
      Shows (memory t) ⟨headerBytes, .internal, 0⟩
        (builtImage (.line mixedTypes) 30 (linePrims 4) (lineInfo 4 24)) := by
  obtain ⟨t, v, cur, hrun, hv⟩ := exists_mixedBuild
  obtain ⟨hvalid, -⟩ := build_deterministic (.line mixedTypes) 30 16384 (linePrims 4) (lineInfo 4 24) t
    (.ret v) cur le_rfl (lineInfo_describes (by decide) mixedTypes).bounds_eq (by norm_num) hrun
  obtain ⟨-, hbytes⟩ := hvalid v rfl
  obtain ⟨-, hreported, hshows, -⟩ := hbytes hv
  exact ⟨t, v, cur, hrun, hreported, hshows⟩

end build

end RTBuild
