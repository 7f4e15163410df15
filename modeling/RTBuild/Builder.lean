import RTBuild.Children
import RTBuild.Leaf
import RTBuild.Library.Task

namespace RTBuild

open Library.Task RTBuild.Splits RTBuild.Children Settings

inductive Query
  | malloc (bytes align : Nat)
  | bytesAllocated
  deriving DecidableEq

inductive Error
  /-- the exception for a BVH that is too deep -/
  | tooDeep
  /-- the recursion of the model was cut off -/
  | outOfFuel
  deriving DecidableEq

/-- What a task does apart from its calls of the allocator. Addresses are relative
to the buffer, and a null pointer is none. -/
inductive Action
  | write (addr : Option Nat) (cell : Cell)
  /-- the assertion of setChildOffset -/
  | assert (ok : Bool)
  /-- the assertions of build about the root -/
  | assertRoot (ok : Bool)
  /-- a call of createFatLeaf -/
  | fatLeaf (prims : Nat → PrimRef) (curRecord : BuildRecord)
  | boundsOut (bounds : BBox3f)
  | accelBufferBytesOut (bytes : Nat)

structure PrimRange where
  blockDelta : Nat
  curPrim : Nat

structure ReductionTy where
  node : Option Nat
  type : NodeType
  nodeMask : BitVec 8
  primRange : PrimRange

namespace ReductionTy

def invalid : ReductionTy := ⟨none, .invalid, 0, ⟨0, 0⟩⟩

def valid (r : ReductionTy) : Bool := r.node.isSome

end ReductionTy

abbrev BuildTask := Prog Query (Option Nat) Action Error ReductionTy

structure BuilderT where
  getType : Fin maxGeometries → PrimType
  getTriangle : Fin maxGeometries → Nat → TrianglePairs.Triangle
  getQuad : Fin maxGeometries → Nat → Quad
  getProcedural : Fin maxGeometries → BitVec 8
  getInstance : Fin maxGeometries → Instance
  quadification : Fin maxGeometries → Nat → Nat
  rtasFormat : RtasFormat
  heuristic : Heuristic

def nodeBytes : Nat := 64

def headerBytes : Nat := 128

def writes (stores : List (Nat × Cell)) (k : BuildTask) : BuildTask :=
  emits (stores.map (fun s => .write (some s.1) s.2)) k

def consecutive (addr : Nat) (cells : List Cell) : List (Nat × Cell) :=
  cells.mapIdx (fun i cell => (addr + i * nodeBytes, cell))

def finishNode (curAddr : Option Nat) (childAddr : Nat) (nodeMask : BitVec 8)
    (node : InternalNode) : BuildTask :=
  .emit (.assert (InternalNode.offsetFits (curAddr.getD 0) childAddr))
    (.emit (.write curAddr
      (.node ((node.setChildOffset (curAddr.getD 0) childAddr).setNodeMask nodeMask)))
      (.ret ⟨curAddr, .internal, nodeMask, ⟨nodeBytes / 64, 0⟩⟩))

def valuesMask (values : List ReductionTy) : BitVec 8 :=
  values.foldl (fun mask value => mask ||| value.nodeMask) 0

def childrenNode (nodeTy : NodeType) (children : List BuildRecord) (values : List ReductionTy) :
    InternalNode :=
  let bounds := children.foldl (fun b child => b ⊔ child.bounds) ⊥
  (InternalNode.ofBounds bounds nodeTy).setChildren 0
    (List.zipWith (fun child value =>
      ⟨child.bounds, value.type, value.primRange.blockDelta, 0⟩) children values)

def setInternalNode (curAddr : Option Nat) (nodeTy : NodeType) (childAddr : Nat)
    (children : List BuildRecord) (values : List ReductionTy) : BuildTask :=
  finishNode curAddr childAddr (valuesMask values) (childrenNode nodeTy children values)

section leaves

variable (b : BuilderT) (prims : Nat → PrimRef)

def createQuadLeaf (ty : PrimType) (prim : PrimRef) : QuadLeaf :=
  if ty = .triangle then
    getTriangleInternal prim.geomID prim.primID (b.getTriangle prim.geomID) (b.quadification prim.geomID)
  else getQuadInternal prim.geomID prim.primID (b.getQuad prim.geomID prim.primID)

def quadLeaves (ty : PrimType) (curRecord : BuildRecord) : List QuadLeaf :=
  curRecord.indices.map (fun i => { createQuadLeaf b ty (prims i) with last := i + 1 = curRecord.end_ })

def createQuads (ty : PrimType) (curRecord : BuildRecord) (curAddr : Nat) :
    List (Nat × Cell) × ReductionTy :=
  let leaves := quadLeaves b prims ty curRecord
  (consecutive curAddr (leaves.map .quad),
    ⟨some (curAddr + curRecord.size * nodeBytes), .quad,
      leaves.foldl (fun mask leaf => mask ||| leaf.leafDesc.geomMask) 0,
      ⟨curRecord.size * nodeBytes / 64, 0⟩⟩)

def createAllQuads (ty : PrimType) : List BuildRecord → Nat → List (List (Nat × Cell) × ReductionTy)
  | [], _ => []
  | child :: children, addr =>
      createQuads b prims ty child addr :: createAllQuads ty children (addr + child.size * nodeBytes)

def createFatQuadLeaf (ty : PrimType) (curRecord : BuildRecord) (curAddr : Option Nat)
    (children : List BuildRecord) : BuildTask :=
  .ask (.malloc (curRecord.size * nodeBytes) 64) (fun
    | none => .ret .invalid
    | some childData =>
        let quads := createAllQuads b prims ty children childData
        writes (quads.flatMap Prod.fst)
          (setInternalNode curAddr .quad childData children (quads.map Prod.snd)))

structure ProceduralLeafBuilder where
  data : Nat
  prevBlockID : Nat
  currBlockID : Nat
  curAddr : Nat
  currProcedural : ProceduralLeaf

namespace ProceduralLeafBuilder

def start (data : Nat) : ProceduralLeafBuilder := ⟨data + nodeBytes, 0, 0, data, .empty⟩

def addProcedural (s : ProceduralLeafBuilder) (desc : PrimLeafDesc) (primID : Fin (2 ^ 32))
    (last : Bool) : ProceduralLeafBuilder × PrimRange :=
  let s :=
    match s.currProcedural.add desc primID last with
    | some leaf => { s with currProcedural := leaf }
    | none =>
        { s with
          data := s.data + nodeBytes
          currBlockID := s.currBlockID + 1
          curAddr := s.data
          currProcedural := .ofPrimitive desc primID last }
  ({ s with prevBlockID := s.currBlockID },
    ⟨s.currBlockID - s.prevBlockID, s.currProcedural.numPrimitives - 1⟩)

end ProceduralLeafBuilder

def proceduralDesc (prim : PrimRef) : PrimLeafDesc :=
  .ofGeometry prim.geomID .none (b.getProcedural prim.geomID)

def addProcedurals : ProceduralLeafBuilder → List PrimRef → List (ProceduralLeafBuilder × PrimRange)
  | _, [] => []
  | s, prim :: rest =>
      let next := s.addProcedural (proceduralDesc b prim) prim.primID true
      next :: addProcedurals next.1 rest

def numGeometries : List PrimRef → Nat
  | prim0 :: prim1 :: rest =>
      (if (proceduralDesc b prim0).same (proceduralDesc b prim1) then 0 else 1) +
        numGeometries (prim1 :: rest)
  | _ => 1

def createProcedurals (curRecord : BuildRecord) (curAddr : Option Nat) : BuildTask :=
  let list := curRecord.list prims
  let qnode := InternalNode.ofBounds curRecord.bounds .procedural
  .emit (.write curAddr (.node qnode))
    (.ask (.malloc (numGeometries b list * nodeBytes) 64) (fun
      | none => .ret .invalid
      | some childData =>
          let start := ProceduralLeafBuilder.start childData
          let added := addProcedurals b start list
          let ranges := added.map Prod.snd
          -- ranges that no primitive sets are (0,0)
          let range (j : Nat) : PrimRange := ranges.getD j ⟨0, 0⟩
          let nodeMask := list.foldl (fun mask prim => mask ||| b.getProcedural prim.geomID) 0
          let args := list.mapIdx (fun j prim =>
            ⟨prim.bounds, .procedural, (range (j + 1)).blockDelta, (range j).curPrim⟩)
          writes ((start.curAddr, .procedural start.currProcedural) ::
              added.map (fun s => (s.1.curAddr, .procedural s.1.currProcedural)))
            (finishNode curAddr (start.curAddr + (range 0).blockDelta * nodeBytes) nodeMask
              (qnode.setChildren 0 args))))

def sizeofInstanceLeaf : Nat := 128

def instanceCells (prim : PrimRef) : List Cell :=
  let leaf := instanceLeaf b.rtasFormat (b.getInstance prim.geomID) prim.geomID prim.primID
  [.instancePart0 leaf.1, .instancePart1 leaf.2]

def createInstances (curRecord : BuildRecord) (curAddr : Option Nat) : BuildTask :=
  .ask (.malloc (curRecord.size * sizeofInstanceLeaf) 64) (fun
    | none => .ret .invalid
    | some childData =>
        let list := curRecord.list prims
        let nodeMask := list.foldl (fun mask prim => mask ||| (b.getInstance prim.geomID).imask) 0
        let args := list.map (fun prim => ⟨prim.bounds, .inst, sizeofInstanceLeaf / 64, 0⟩)
        writes (consecutive childData (list.flatMap (instanceCells b)))
          (finishNode curAddr childData nodeMask
            ((InternalNode.ofBounds curRecord.bounds .inst).setChildren 0 args)))

def createFatLeaf (curRecord : BuildRecord) (curAddr : Option Nat) : BuildTask :=
  .emit (.fatLeaf prims curRecord)
    (if maxDepth < curRecord.depth then .throw .tooDeep
    else
      let ty := b.getType (prims curRecord.begin_).geomID
      let (prims, children) := fatLeafChildren b.heuristic prims curRecord
      match ty with
      | .triangle | .quad => createFatQuadLeaf b prims ty curRecord curAddr children
      | .procedural => createProcedurals b prims curRecord curAddr
      | .inst => createInstances b prims curRecord curAddr)

end leaves

def runTasks (parallel : Bool) (n : Nat) (task : Fin n → BuildTask)
    (k : Option (Fin n → ReductionTy) → BuildTask) : BuildTask :=
  if parallel then .par n task k else serial ReductionTy.valid n task k

/-- The part that createLargeLeaf and createInternalNode share: the children get
consecutive nodes, and the node is written when all of them are valid. -/
def createChildren (parallel : Bool) (curAddr : Option Nat) (children : List BuildRecord)
    (recurse : Fin children.length → Option Nat → BuildTask) : BuildTask :=
  .ask (.malloc (children.length * nodeBytes) 64) (fun
    | none => .ret .invalid
    | some childBase =>
        runTasks parallel children.length (fun i => recurse i (some (childBase + i * nodeBytes))) (fun
          | none => .ret .invalid
          | some values => setInternalNode curAddr .internal childBase children (List.ofFn values)))

section recursion

variable (b : BuilderT)

def createLargeLeaf : Nat → (Nat → PrimRef) → BuildRecord → Option Nat → BuildTask
  | 0, _, _, _ => .throw .outOfFuel
  | fuel + 1, prims, curRecord, curAddr =>
      if maxDepth < curRecord.depth then .throw .tooDeep
      else if curRecord.size ≤ leafSize curRecord.type then createFatLeaf b prims curRecord curAddr
      else
        let (prims, children) := largeLeafChildren prims curRecord
        createChildren false curAddr children
          (fun i addr => createLargeLeaf fuel prims (children.get i) addr)

def minLargeLeafLevels : Nat := 8

def singleThreadThreshold : Nat := 1024

def createsLeaf (curRecord : BuildRecord) : Bool :=
  curRecord.size ≤ leafSize curRecord.type || maxDepth ≤ curRecord.depth + minLargeLeafLevels

/-- The tests at the start of createInternalNode: whether it ends in a leaf, the
record with its type looked up again, and whether it splits by type. -/
def nodeKind (prims : Nat → PrimRef) (curRecord : BuildRecord) : Bool × BuildRecord × Bool :=
  let createLeaf := createsLeaf curRecord
  let performTypeSplit := !curRecord.equalType && (createLeaf || curRecord.size ≤ typeSplitSize)
  if performTypeSplit then
    let type := b.getType (prims curRecord.begin_).geomID
    let equalTy := equalTypes b.getType prims curRecord.begin_ curRecord.end_
    let curRecord := { curRecord with type := if equalTy then some type else none }
    (createLeaf, curRecord, !curRecord.equalType)
  else (createLeaf, curRecord, false)

def createInternalNode : Nat → (Nat → PrimRef) → BuildRecord → Option Nat → BuildTask
  | 0, _, _, _ => .throw .outOfFuel
  | fuel + 1, prims, curRecord, curAddr =>
      let (createLeaf, curRecord, performTypeSplit) := nodeKind b prims curRecord
      if !performTypeSplit && createLeaf then createLargeLeaf b fuel prims curRecord curAddr
      else
        let (prims, children) := internalChildren b.getType b.heuristic performTypeSplit prims curRecord
        createChildren (singleThreadThreshold < curRecord.size) curAddr children
          (fun i addr => createInternalNode fuel prims (children.get i) addr)

def createEmptyNode (addr : Option Nat) : BuildTask :=
  .emit (.write addr (.node (.ofType .internal))) (.ret ⟨addr, .internal, 0x00, ⟨nodeBytes / 64, 0⟩⟩)

def rootRecord (pinfo : PrimInfoRange) : BuildRecord := ⟨1, pinfo, none⟩

def buildBvh (fuel : Nat) (prims : Nat → PrimRef) (pinfo : PrimInfoRange)
    (root : Option Nat) : BuildTask :=
  if pinfo.end_ - pinfo.begin_ = 0 then createEmptyNode root
  else createInternalNode b fuel prims (rootRecord pinfo) root

def isRoot (r : ReductionTy) : Bool :=
  r.node = some headerBytes && r.type = .internal && r.primRange.curPrim = 0

/-- BuilderT::build from the initialization of the allocator on. It returns whether the value is
valid. An assertion that fails is passed over, as with NDEBUG. -/
def build (fuel : Nat) (prims : Nat → PrimRef) (pinfo : PrimInfoRange) : BuildTask :=
  .ask (.malloc headerBytes 16) (fun _ =>
    .ask (.malloc nodeBytes 64) (fun root =>
      .emit (.assertRoot root.isSome)
        ((buildBvh b fuel prims pinfo root).bind (fun r =>
          if !r.valid then .ret r
          else
            .emit (.boundsOut pinfo.geomBounds)
              (.ask .bytesAllocated (fun bytes =>
                .emit (.accelBufferBytesOut (bytes.getD 0))
                  (writes (consecutive 0 [.header, .header])
                    (.emit (.assertRoot (isRoot r)) (.ret r)))))))))

end recursion

end RTBuild
