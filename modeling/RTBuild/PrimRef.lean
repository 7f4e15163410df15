import Mathlib

namespace RTBuild

/-- Coordinates are exact. -/
abbrev Vec3f := ℚ × ℚ × ℚ

def component (v : Vec3f) : Fin 3 → ℚ
  | 0 => v.1
  | 1 => v.2.1
  | 2 => v.2.2

/-- The order is containment, the join is the union that extend computes, and ⊥ is the empty box. -/
abbrev BBox3f := Interval Vec3f

abbrev maxGeometries : Nat := 0x00FFFFFF

instance neZero_three : NeZero 3 := ⟨by decide⟩

instance neZero_two_pow_32 : NeZero (2 ^ 32) := ⟨by decide⟩

instance neZero_maxGeometries : NeZero maxGeometries := ⟨by decide⟩

structure PrimRef where
  bounds : NonemptyInterval Vec3f
  geomID : Fin maxGeometries
  primID : Fin (2 ^ 32)
  deriving DecidableEq

def center2 (bounds : NonemptyInterval Vec3f) : Vec3f := bounds.fst + bounds.snd

def PrimRef.center2 (prim : PrimRef) : Vec3f := RTBuild.center2 prim.bounds

structure PrimInfo where
  geomBounds : BBox3f
  centBounds : BBox3f
  begin_ : Nat
  end_ : Nat
  begin_le : begin_ ≤ end_

namespace PrimInfo

def empty : PrimInfo := ⟨⊥, ⊥, 0, 0, Nat.le_refl _⟩

def ofSize (n : Nat) : PrimInfo := ⟨⊥, ⊥, 0, n, Nat.zero_le _⟩

def addCenter2 (info : PrimInfo) (prim : PrimRef) : PrimInfo where
  geomBounds := info.geomBounds ⊔ prim.bounds
  centBounds := info.centBounds ⊔ (NonemptyInterval.pure prim.center2 : NonemptyInterval Vec3f)
  begin_ := info.begin_
  end_ := info.end_ + 1
  begin_le := Nat.le_succ_of_le info.begin_le

def merge (a b : PrimInfo) : PrimInfo where
  geomBounds := a.geomBounds ⊔ b.geomBounds
  centBounds := a.centBounds ⊔ b.centBounds
  begin_ := a.begin_ + b.begin_
  end_ := a.end_ + b.end_
  begin_le := Nat.add_le_add a.begin_le b.begin_le

def size (info : PrimInfo) : Nat := info.end_ - info.begin_

def ofList (prims : List PrimRef) : PrimInfo := prims.foldl addCenter2 empty

@[simp] theorem size_empty : empty.size = 0 := rfl

@[simp] theorem size_ofSize (n : Nat) : (ofSize n).size = n := rfl

@[simp] theorem size_addCenter2 (info : PrimInfo) (prim : PrimRef) :
    (info.addCenter2 prim).size = info.size + 1 := by
  have h := info.begin_le
  simp only [size, addCenter2]
  omega

@[simp] theorem size_merge (a b : PrimInfo) : (a.merge b).size = a.size + b.size := by
  have ha := a.begin_le
  have hb := b.begin_le
  simp only [size, merge]
  omega

@[simp] theorem merge_empty (a : PrimInfo) : a.merge empty = a := by
  cases a
  simp [merge, empty]

theorem merge_addCenter2 (a b : PrimInfo) (prim : PrimRef) :
    a.merge (b.addCenter2 prim) = (a.merge b).addCenter2 prim := by
  simp [merge, addCenter2, sup_assoc, Nat.add_assoc]

theorem merge_foldl (a b : PrimInfo) (prims : List PrimRef) :
    a.merge (prims.foldl addCenter2 b) = prims.foldl addCenter2 (a.merge b) := by
  induction prims generalizing b with
  | nil => rfl
  | cons prim prims ih =>
      rw [List.foldl_cons, List.foldl_cons, ih, merge_addCenter2]

theorem ofList_append (prims prims' : List PrimRef) :
    ofList (prims ++ prims') = (ofList prims).merge (ofList prims') := by
  simp only [ofList, merge_foldl, List.foldl_append, merge_empty]

theorem size_foldl (info : PrimInfo) (prims : List PrimRef) :
    (prims.foldl addCenter2 info).size = info.size + prims.length := by
  induction prims generalizing info with
  | nil => rfl
  | cons prim prims ih =>
      rw [List.foldl_cons, ih, size_addCenter2, List.length_cons]
      omega

@[simp] theorem size_ofList (prims : List PrimRef) : (ofList prims).size = prims.length := by
  rw [ofList, size_foldl, size_empty, Nat.zero_add]

theorem merge_ofSize (m n : Nat) : (ofSize m).merge (ofSize n) = ofSize (m + n) := by
  simp [merge, ofSize]

end PrimInfo

end RTBuild
