import RTBuild.Builder

namespace RTBuild

open Library.Task RTBuild.Splits RTBuild.Children Settings

structure FatBlock where
  stores : List (Nat × Cell)
  childPtr : Nat
  nodeMask : BitVec 8
  node : InternalNode

structure FatImage where
  /-- a node that is written before the block is allocated -/
  early : Option InternalNode
  bytes : Nat
  block : Nat → FatBlock

namespace FatImage

def emit (f : FatImage) (curAddr : Option Nat) : BuildTask :=
  emits (f.early.toList.map (fun node => .write curAddr (.node node)))
    (.ask (.malloc f.bytes 64) (fun
      | none => .ret .invalid
      | some childData =>
          let block := f.block childData
          writes block.stores (finishNode curAddr block.childPtr block.nodeMask block.node)))

variable (b : BuilderT) (prims : Nat → PrimRef) (r : BuildRecord)

def ofQuads (ty : PrimType) (children : List BuildRecord) : FatImage where
  early := none
  bytes := r.size * nodeBytes
  block childData :=
    let quads := createAllQuads b prims ty children childData
    { stores := quads.flatMap Prod.fst
      childPtr := childData
      nodeMask := valuesMask (quads.map Prod.snd)
      node := childrenNode .quad children (quads.map Prod.snd) }

def proceduralArgs (list : List PrimRef) (ranges : List PrimRange) : List InternalNode.ChildArgs :=
  list.mapIdx (fun j prim =>
    ⟨prim.bounds, .procedural, (ranges.getD (j + 1) ⟨0, 0⟩).blockDelta, (ranges.getD j ⟨0, 0⟩).curPrim⟩)

def ofProcedurals : FatImage where
  early := some (.ofBounds r.bounds .procedural)
  bytes := numGeometries b (r.list prims) * nodeBytes
  block childData :=
    let added := addProcedurals b (.start childData) (r.list prims)
    let ranges := added.map Prod.snd
    { stores :=
        (childData, .procedural .empty) :: added.map (fun s =>
          (s.1.curAddr, .procedural s.1.currProcedural))
      childPtr := childData + (ranges.getD 0 ⟨0, 0⟩).blockDelta * nodeBytes
      nodeMask := (r.list prims).foldl (fun mask prim => mask ||| b.getProcedural prim.geomID) 0
      node := (InternalNode.ofBounds r.bounds .procedural).setChildren 0
        (proceduralArgs (r.list prims) ranges) }

def ofInstances : FatImage where
  early := none
  bytes := r.size * sizeofInstanceLeaf
  block childData :=
    { stores := consecutive childData ((r.list prims).flatMap (instanceCells b))
      childPtr := childData
      nodeMask := (r.list prims).foldl (fun mask prim => mask ||| (b.getInstance prim.geomID).imask) 0
      node := (InternalNode.ofBounds r.bounds .inst).setChildren 0
        ((r.list prims).map (fun prim => ⟨prim.bounds, .inst, sizeofInstanceLeaf / 64, 0⟩)) }

def ofRecord : FatImage :=
  let s := fatLeafChildren b.heuristic prims r
  match b.getType (prims r.begin_).geomID with
  | .triangle => ofQuads b s.1 r .triangle s.2
  | .quad => ofQuads b s.1 r .quad s.2
  | .procedural => ofProcedurals b s.1 r
  | .inst => ofInstances b s.1 r

end FatImage

theorem createFatLeaf_eq (b : BuilderT) (prims : Nat → PrimRef) (r : BuildRecord)
    (curAddr : Option Nat) :
    createFatLeaf b prims r curAddr =
      .emit (.fatLeaf prims r)
        (if maxDepth < r.depth then .throw .tooDeep
          else (FatImage.ofRecord b prims r).emit curAddr) := by
  rw [createFatLeaf]
  congr 1
  by_cases hdepth : maxDepth < r.depth
  · rw [if_pos hdepth, if_pos hdepth]
  · rw [if_neg hdepth, if_neg hdepth, FatImage.ofRecord]
    cases b.getType (prims r.begin_).geomID <;> rfl

/-- What the builder makes of a range of primitives, apart from where it is stored. -/
inductive Plan
  | throw (x : Error)
  | fat (prims : Nat → PrimRef) (r : BuildRecord)
  | node (parallel : Bool) (children : List BuildRecord) (sub : Fin children.length → Plan)

namespace Plan

def emit (b : BuilderT) : Plan → Option Nat → BuildTask
  | .throw x, _ => .throw x
  | .fat prims r, curAddr => createFatLeaf b prims r curAddr
  | .node parallel children sub, curAddr =>
      createChildren parallel curAddr children (fun i addr => (sub i).emit b addr)

variable (b : BuilderT)

def largeLeaf : Nat → (Nat → PrimRef) → BuildRecord → Plan
  | 0, _, _ => .throw .outOfFuel
  | fuel + 1, prims, r =>
      if maxDepth < r.depth then .throw .tooDeep
      else if r.size ≤ leafSize r.type then .fat prims r
      else .node false (largeLeafChildren prims r).2
        (fun i => largeLeaf fuel (largeLeafChildren prims r).1 ((largeLeafChildren prims r).2.get i))

def internalNode : Nat → (Nat → PrimRef) → BuildRecord → Plan
  | 0, _, _ => .throw .outOfFuel
  | fuel + 1, prims, r =>
      let kind := nodeKind b prims r
      if !kind.2.2 && kind.1 then largeLeaf fuel prims kind.2.1
      else
        let s := internalChildren b.getType b.heuristic kind.2.2 prims kind.2.1
        .node (singleThreadThreshold < kind.2.1.size) s.2 (fun i => internalNode fuel s.1 (s.2.get i))

end Plan

variable {b : BuilderT}

theorem createLargeLeaf_eq (fuel : Nat) (prims : Nat → PrimRef) (r : BuildRecord)
    (curAddr : Option Nat) :
    createLargeLeaf b fuel prims r curAddr = (Plan.largeLeaf fuel prims r).emit b curAddr := by
  induction fuel generalizing prims r curAddr with
  | zero => rfl
  | succ fuel ih =>
      rw [createLargeLeaf, Plan.largeLeaf]
      by_cases hdepth : maxDepth < r.depth
      · rw [if_pos hdepth, if_pos hdepth, Plan.emit]
      · rw [if_neg hdepth, if_neg hdepth]
        by_cases hsize : r.size ≤ leafSize r.type
        · rw [if_pos hsize, if_pos hsize, Plan.emit]
        · rw [if_neg hsize, if_neg hsize, Plan.emit]
          exact congrArg (createChildren false curAddr _)
            (funext (fun i => funext (fun addr => ih _ _ addr)))

theorem createInternalNode_eq (fuel : Nat) (prims : Nat → PrimRef) (r : BuildRecord)
    (curAddr : Option Nat) :
    createInternalNode b fuel prims r curAddr = (Plan.internalNode b fuel prims r).emit b curAddr := by
  induction fuel generalizing prims r curAddr with
  | zero => rfl
  | succ fuel ih =>
      rw [createInternalNode, Plan.internalNode]
      by_cases hleaf : (!(nodeKind b prims r).2.2 && (nodeKind b prims r).1) = true
      · simp only [if_pos hleaf]
        exact createLargeLeaf_eq fuel prims _ curAddr
      · simp only [if_neg hleaf]
        rw [Plan.emit]
        exact congrArg (createChildren _ curAddr _) (funext (fun i => funext (fun addr => ih _ _ addr)))

namespace Plan

/-- The primitives and the records of a plan fit together. The type of a record
may have been looked up since its parent made it. -/
inductive Valid (getType : Fin maxGeometries → PrimType) : (Nat → PrimRef) → BuildRecord → Plan → Prop
  | throw (prims r x) : Valid getType prims r (.throw x)
  | fat (prims r ty) (r' : BuildRecord) (hprims : r'.prims = r.prims) (hr : r'.Describes getType prims)
      (htype : r'.type = some ty) (hsize : r'.size ≤ leafSize r'.type) :
        Valid getType prims r (.fat prims r')
  | node (prims prims' r) (r' : BuildRecord) (parallel children sub) (hprims : r'.prims = r.prims)
      (hr : r'.Describes getType prims) (hcover : Cover getType r' prims prims' children)
      (hlength : children.length ≤ bvhWidth)
        (hsub : ∀ i, Valid getType prims' (children.get i) (sub i)) :
      Valid getType prims r (.node parallel children sub)

theorem Valid.retype {getType : Fin maxGeometries → PrimType} {prims : Nat → PrimRef}
    {r r' : BuildRecord} {p : Plan} (h : Valid getType prims r' p) (hprims : r'.prims = r.prims) :
    Valid getType prims r p := by
  cases h with
  | throw => exact .throw _ _ _
  | fat _ _ ty r'' hprims' hr htype hsize => exact .fat _ _ ty r'' (hprims'.trans hprims) hr htype hsize
  | node _ prims' _ r'' parallel children sub hprims' hr hcover hlength hsub =>
      exact .node _ prims' _ r'' parallel children sub (hprims'.trans hprims) hr hcover hlength hsub

variable {prims : Nat → PrimRef} {r : BuildRecord}

theorem largeLeaf_valid (fuel : Nat) {ty : PrimType} (hr : r.Describes b.getType prims)
    (htype : r.type = some ty) : Valid b.getType prims r (largeLeaf fuel prims r) := by
  induction fuel generalizing prims r with
  | zero => exact .throw _ _ _
  | succ fuel ih =>
      rw [largeLeaf]
      by_cases hdepth : maxDepth < r.depth
      · rw [if_pos hdepth]
        exact .throw _ _ _
      · rw [if_neg hdepth]
        by_cases hsize : r.size ≤ leafSize r.type
        · rw [if_pos hsize]
          exact .fat _ _ ty r rfl hr htype hsize
        · rw [if_neg hsize]
          have hchosen := largeLeafChildren_chosen hr
          refine .node _ _ _ r _ _ _ rfl hr hchosen.cover hchosen.length_le (fun i => ?_)
          have hmem := List.get_mem (largeLeafChildren prims r).2 i
          exact ih (hchosen.cover.describes _ hmem) ((largeLeafChildren_type _ hmem).trans htype)

end Plan

inductive Kind (getType : Fin maxGeometries → PrimType) (prims : Nat → PrimRef) (r : BuildRecord) :
    Bool × BuildRecord × Bool → Prop
  | keep (h : r.type ≠ none ∨ (createsLeaf r = false ∧ typeSplitSize < r.size)) :
      Kind getType prims r (createsLeaf r, r, false)
  | typed (ty) (hnone : r.type = none) (htry : createsLeaf r = true ∨ r.size ≤ typeSplitSize)
      (hall : ∀ prim ∈ r.list prims, getType prim.geomID = ty) :
      Kind getType prims r (createsLeaf r, { r with type := some ty }, false)
  | mixed (hnone : r.type = none) (htry : createsLeaf r = true ∨ r.size ≤ typeSplitSize)
      (hmixed : Mixed getType prims r) : Kind getType prims r (createsLeaf r, r, true)

theorem nodeKind_kind {prims : Nat → PrimRef} {r : BuildRecord} (hr : r.Describes b.getType prims) :
    Kind b.getType prims r (nodeKind b prims r) := by
  rw [nodeKind]
  obtain ⟨depth, range, type⟩ := r
  rcases type with _ | ty
  · by_cases htry : createsLeaf ⟨depth, range, none⟩ = true ∨
      BuildRecord.size ⟨depth, range, none⟩ ≤ typeSplitSize
    · have hattempt : (createsLeaf ⟨depth, range, none⟩ ||
          decide (BuildRecord.size ⟨depth, range, none⟩ ≤ typeSplitSize)) = true := by simpa using htry
      cases hequal : equalTypes b.getType prims range.begin_ range.end_ with
      | true =>
          simp only [BuildRecord.equalType, BuildRecord.begin_, BuildRecord.end_,
            Option.isSome_none, Bool.not_false, Bool.true_and, hattempt, if_true, hequal,
            Option.isSome_some, Bool.not_true]
          exact .typed _ rfl htry ((equalTypes_iff hr.nonempty).1 hequal)
      | false =>
          simp only [BuildRecord.equalType, BuildRecord.begin_, BuildRecord.end_,
            Option.isSome_none, Bool.not_false, Bool.true_and, hattempt, if_true, hequal,
            Bool.false_eq_true, if_false]
          exact .mixed rfl htry (mixed_of_equalTypes hr.nonempty hequal)
    · have hattempt : (createsLeaf ⟨depth, range, none⟩ ||
          decide (BuildRecord.size ⟨depth, range, none⟩ ≤ typeSplitSize)) = false := by simpa using htry
      simp only [BuildRecord.equalType, Option.isSome_none, Bool.not_false, Bool.true_and, hattempt,
        Bool.false_eq_true, if_false]
      refine .keep (Or.inr ?_)
      simpa using htry
  · simp only [BuildRecord.equalType, Option.isSome_some, Bool.not_true, Bool.false_and,
      Bool.false_eq_true, if_false]
    exact .keep (Or.inl (by simp))

namespace Plan

theorem internalNode_valid (fuel : Nat) {prims : Nat → PrimRef} {r : BuildRecord}
    (hr : r.Describes b.getType prims) : Valid b.getType prims r (internalNode b fuel prims r) := by
  induction fuel generalizing prims r with
  | zero => exact .throw _ _ _
  | succ fuel ih =>
      have hkind := nodeKind_kind hr
      rw [internalNode]
      generalize nodeKind b prims r = kind at hkind ⊢
      -- whatever the kind, the children divide the range of the record
      have hnode : ∀ {r' : BuildRecord} {split : Bool}, r'.prims = r.prims →
          r'.Describes b.getType prims →
          (split = true → r'.type = none ∧ Mixed b.getType prims r') →
          Valid b.getType prims r (.node (singleThreadThreshold < r'.size)
            (internalChildren b.getType b.heuristic split prims r').2
            (fun i => internalNode b fuel (internalChildren b.getType b.heuristic split prims r').1
              ((internalChildren b.getType b.heuristic split prims r').2.get i))) := by
        intro r' split hprims hr' hmixed
        have hchosen := internalChildren_chosen (h := b.heuristic) hr' hmixed
        refine .node _ _ _ r' _ _ _ hprims hr' hchosen.cover hchosen.length_le (fun i => ?_)
        exact ih (hchosen.cover.describes _ (List.get_mem _ i))
      cases hkind with
      | keep h =>
          cases hleaf : createsLeaf r with
          | false => exact hnode rfl hr (fun h => Bool.noConfusion h)
          | true =>
              rcases h with htype | ⟨hfalse, _⟩
              · obtain ⟨ty, hty⟩ := Option.ne_none_iff_exists'.1 htype
                exact largeLeaf_valid fuel hr hty
              · rw [hleaf] at hfalse
                cases hfalse
      | typed ty hnone htry hall =>
          have hr' : BuildRecord.Describes b.getType { r with type := some ty } prims :=
            ⟨hr.nonempty, hr.bounds_eq, fun ty' hty' prim hprim =>
              (hall prim hprim).trans (Option.some.inj hty')⟩
          cases createsLeaf r with
          | false => exact hnode rfl hr' (fun h => Bool.noConfusion h)
          | true => exact (largeLeaf_valid fuel hr' rfl).retype rfl
      | mixed hnone htry hmixed => exact hnode rfl hr (fun _ => ⟨hnone, hmixed⟩)

end Plan

end RTBuild
