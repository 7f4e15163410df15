import Mathlib

namespace RTBuild

/-- The geometry types a descriptor can have. A build record whose primitives
do not share a type carries no type at all, so UNKNOWN is not listed here. -/
inductive PrimType
  | triangle
  | quad
  | procedural
  | inst
  deriving DecidableEq, Repr

instance : Fintype PrimType := ⟨{.triangle, .quad, .procedural, .inst}, fun ty => by cases ty <;> simp⟩

structure Geometry where
  type : PrimType
  numPrimitives : Nat
  deriving DecidableEq, Repr

/-- The array ppGeometries; a null pointer is an empty geometry. -/
abbrev Scene := List (Option Geometry)

def getSize : Option Geometry → Nat
  | none => 0
  | some g => g.numPrimitives

inductive BuildQuality
  | low
  | medium
  | high
  deriving DecidableEq, Repr

structure BuildFlags where
  compact : Bool
  noDuplicateAnyhitInvocation : Bool
  deriving DecidableEq, Repr

def useSpatialSplits (quality : BuildQuality) (flags : BuildFlags) : Bool :=
  quality == .high && !flags.noDuplicateAnyhitInvocation

def numOfType (ty : PrimType) : Scene → Nat
  | [] => 0
  | none :: scene => numOfType ty scene
  | some g :: scene => (if g.type = ty then g.numPrimitives else 0) + numOfType ty scene

def numPrimitives (scene : Scene) : Nat := (scene.map getSize).sum

@[simp] theorem numPrimitives_nil : numPrimitives [] = 0 := rfl

@[simp] theorem numPrimitives_cons (g : Option Geometry) (scene : Scene) :
    numPrimitives (g :: scene) = getSize g + numPrimitives scene := by
  simp [numPrimitives]

theorem numPrimitives_eq_sum (scene : Scene) :
    numPrimitives scene = numOfType .triangle scene + numOfType .quad scene +
      numOfType .procedural scene + numOfType .inst scene := by
  induction scene with
  | nil => rfl
  | cons g scene ih =>
      rcases g with _ | ⟨ty, n⟩
      · simpa [numOfType, getSize] using ih
      · cases ty <;> simp [numOfType, getSize, ih] <;> omega

end RTBuild
