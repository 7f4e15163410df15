import RTBuild.AffineSpace
import RTBuild.TrianglePairs
import RTBuild.QNode

namespace RTBuild

open Quadifier

inductive LeafType
  | opacityCullingEnabled
  | opacityCullingDisabled
  deriving DecidableEq

structure PrimLeafDesc where
  shaderIndex : Fin (2 ^ 24)
  geomMask : BitVec 8
  geomIndex : Fin (2 ^ 29)
  type : LeafType
  geomFlags : GeometryFlags
  deriving DecidableEq

namespace PrimLeafDesc

def maxShaderIndex : Fin (2 ^ 24) := 0xFFFFFF

/-- The constant has 30 bits, of which the field keeps 29. -/
def maxGeomIndex : Fin (2 ^ 29) := Fin.ofNat _ 0x3FFFFFFF

def ofGeometry (geomID : Fin maxGeometries) (gflags : GeometryFlags) (geomMask : BitVec 8) :
    PrimLeafDesc :=
  ⟨0, geomMask, Fin.castLE (by decide) geomID, .opacityCullingEnabled, gflags⟩

def same (a b : PrimLeafDesc) : Bool := a.geomIndex == b.geomIndex

end PrimLeafDesc

structure QuadLeaf where
  leafDesc : PrimLeafDesc
  primIndex0 : Fin (2 ^ 32)
  primIndex1Delta : Fin (2 ^ 5)
  j0 : Fin 4
  j1 : Fin 4
  j2 : Fin 4
  last : Bool
  v0 : Vec3f
  v1 : Vec3f
  v2 : Vec3f
  v3 : Vec3f
  deriving DecidableEq

structure Quad where
  p0 : Vec3f
  p1 : Vec3f
  p2 : Vec3f
  p3 : Vec3f
  gflags : GeometryFlags
  gmask : BitVec 8

section quads

variable (geomID : Fin maxGeometries) (primID : Fin (2 ^ 32))

def getTriangleInternal (getTriangle : Nat → TrianglePairs.Triangle)
    (quadification : Nat → Nat) : QuadLeaf :=
  let tri := getTriangle primID
  let second := quadification primID
  let leaf (p3 : Vec3f) (lb0 lb1 lb2 : Nat) : QuadLeaf :=
    ⟨.ofGeometry geomID tri.gflags tri.gmask, primID, Fin.ofNat _ second, Fin.ofNat _ lb0,
      Fin.ofNat _ lb1, Fin.ofNat _ lb2, false, tri.p0, tri.p1, tri.p2, p3⟩
  if second ≠ 0 then
    let tri1 := getTriangle (primID + second)
    let lb0 := lane tri.indices tri1.indices.x
    let lb1 := lane tri.indices tri1.indices.y
    let lb2 := lane tri.indices tri1.indices.z
    let p3 := if lb0 = 3 then tri1.p0 else tri.p2
    let p3 := if lb1 = 3 then tri1.p1 else p3
    let p3 := if lb2 = 3 then tri1.p2 else p3
    leaf p3 lb0 lb1 lb2
  else leaf tri.p2 0 0 0

def getQuadInternal (quad : Quad) : QuadLeaf :=
  ⟨.ofGeometry geomID quad.gflags quad.gmask, primID, 0, 3, 2, 1, false, quad.p0, quad.p1, quad.p3,
    quad.p2⟩

end quads

structure ProceduralLeaf where
  leafDesc : PrimLeafDesc
  numPrimitives : Nat
  last : Fin 13 → Bool
  primIndex : Fin 13 → Fin (2 ^ 32)

namespace ProceduralLeaf

def empty : ProceduralLeaf where
  leafDesc :=
    ⟨PrimLeafDesc.maxShaderIndex, 0, PrimLeafDesc.maxGeomIndex, .opacityCullingEnabled, .none⟩
  numPrimitives := 0
  last _ := false
  primIndex _ := 0xFFFFFFFF

/-- The constructor for a first primitive. The last bits of the free slots are set. -/
def ofPrimitive (leafDesc : PrimLeafDesc) (primIndex : Fin (2 ^ 32)) (last : Bool) : ProceduralLeaf where
  leafDesc := leafDesc
  numPrimitives := 1
  last i := i != 0 || last
  primIndex := Function.update (fun _ => 0xFFFFFFFF) 0 primIndex

def add (leaf : ProceduralLeaf) (leafDesc : PrimLeafDesc) (primIndex : Fin (2 ^ 32)) (last : Bool) :
    Option ProceduralLeaf :=
  if h : leaf.numPrimitives < 13 then
    let desc := if leaf.numPrimitives = 0 then leafDesc else leaf.leafDesc
    if desc.same leafDesc then
      some
        { leafDesc := desc
          numPrimitives := leaf.numPrimitives + 1
          last := Function.update leaf.last ⟨leaf.numPrimitives, h⟩ last
          primIndex := Function.update leaf.primIndex ⟨leaf.numPrimitives, h⟩ primIndex }
    else none
  else none

def isLast (leaf : ProceduralLeaf) (i : Nat) : Bool := if h : i < 13 then leaf.last ⟨i, h⟩ else true

end ProceduralLeaf

inductive RtasFormat
  | version1
  | version2
  deriving DecidableEq, Repr

structure Instance where
  local2world : AffineSpace3f
  /-- the address of the acceleration structure that is instantiated -/
  accel : BitVec 64
  imask : BitVec 8
  instanceUserID : BitVec 32

structure InstancePart0 where
  geomMask : BitVec 8
  instanceContributionToHitGroupIndex : Fin (2 ^ 24)
  type : LeafType
  geomFlags : GeometryFlags
  startNodePtr : BitVec 64
  instFlags : BitVec 8
  world2objVx : Vec3f
  world2objVy : Vec3f
  world2objVz : Vec3f
  /-- on purpose in this part -/
  obj2worldP : Vec3f
  deriving DecidableEq

structure InstancePart1 where
  bvhPtr : BitVec 48
  instanceID : BitVec 32
  instanceIndex : Fin (2 ^ 32)
  obj2worldVx : Vec3f
  obj2worldVy : Vec3f
  obj2worldVz : Vec3f
  world2objP : Vec3f
  deriving DecidableEq

def world2Obj (part0 : InstancePart0) (part1 : InstancePart1) : AffineSpace3f :=
  ⟨⟨part0.world2objVx, part0.world2objVy, part0.world2objVz⟩, part1.world2objP⟩

def obj2World (part0 : InstancePart0) (part1 : InstancePart1) : AffineSpace3f :=
  ⟨⟨part1.obj2worldVx, part1.obj2worldVy, part1.obj2worldVz⟩, part0.obj2worldP⟩

/-- The field for the start node has 48 bits in the first format and 64 in the second. -/
def storedStartNode : RtasFormat → BitVec 64 → BitVec 64
  | .version1, startNodePtr => (startNodePtr.setWidth 48).setWidth 64
  | .version2, startNodePtr => startNodePtr

def rootNodeOffset : Nat := 128

/-- The start node of an instance. The primitive index counts 64 byte blocks
from the root on, as a signed number. -/
def instanceRoot (inst : Instance) (primID : Fin (2 ^ 32)) : BitVec 64 :=
  inst.accel + BitVec.ofNat 64 rootNodeOffset + 64 * (BitVec.ofNat 32 primID).signExtend 64

def instanceLeaf (format : RtasFormat) (inst : Instance) (geomID : Fin maxGeometries)
    (primID : Fin (2 ^ 32)) : InstancePart0 × InstancePart1 :=
  let obj2world := inst.local2world
  let world2obj := obj2world.rcp
  ({ geomMask := inst.imask
     instanceContributionToHitGroupIndex := 0
     type := .opacityCullingEnabled
     geomFlags := .none
     startNodePtr := storedStartNode format (instanceRoot inst primID)
     instFlags := 0
     world2objVx := world2obj.l.vx
     world2objVy := world2obj.l.vy
     world2objVz := world2obj.l.vz
     obj2worldP := obj2world.p },
   { bvhPtr := 0
     instanceID := inst.instanceUserID
     instanceIndex := Fin.castLE (by decide) geomID
     obj2worldVx := obj2world.l.vx
     obj2worldVy := obj2world.l.vy
     obj2worldVz := obj2world.l.vz
     world2objP := world2obj.p })

@[simp] theorem world2Obj_instanceLeaf (format : RtasFormat) (inst : Instance)
    (geomID : Fin maxGeometries) (primID : Fin (2 ^ 32)) :
    world2Obj (instanceLeaf format inst geomID primID).1 (instanceLeaf format inst geomID primID).2 =
      inst.local2world.rcp := rfl

@[simp] theorem obj2World_instanceLeaf (format : RtasFormat) (inst : Instance)
    (geomID : Fin maxGeometries) (primID : Fin (2 ^ 32)) :
    obj2World (instanceLeaf format inst geomID primID).1 (instanceLeaf format inst geomID primID).2 =
      inst.local2world := rfl

/-- What 64 bytes of the buffer can hold. The header fills two such cells. -/
inductive Cell
  | header
  | node (node : InternalNode)
  | quad (leaf : QuadLeaf)
  | procedural (leaf : ProceduralLeaf)
  | instancePart0 (part : InstancePart0)
  | instancePart1 (part : InstancePart1)

end RTBuild
