import RTBuild.PrimRef
import RTBuild.Scene
import RTBuild.Library.Segment

namespace RTBuild

open Library.Segment

structure CentGeomBBox where
  geomBounds : BBox3f
  centBounds : BBox3f

def unionBounds (prims : List PrimRef) : BBox3f :=
  prims.foldr (fun prim b => (prim.bounds : BBox3f) ⊔ b) ⊥

namespace CentGeomBBox

def empty : CentGeomBBox := ⟨⊥, ⊥⟩

def extendCenter2 (b : CentGeomBBox) (prim : PrimRef) : CentGeomBBox where
  geomBounds := b.geomBounds ⊔ prim.bounds
  centBounds := b.centBounds ⊔ (NonemptyInterval.pure prim.center2 : NonemptyInterval Vec3f)

def merge (a b : CentGeomBBox) : CentGeomBBox where
  geomBounds := a.geomBounds ⊔ b.geomBounds
  centBounds := a.centBounds ⊔ b.centBounds

def ofList (prims : List PrimRef) : CentGeomBBox := prims.foldl extendCenter2 empty

theorem merge_extendCenter2 (a b : CentGeomBBox) (prim : PrimRef) :
    a.merge (b.extendCenter2 prim) = (a.merge b).extendCenter2 prim := by
  simp [merge, extendCenter2, sup_assoc]

theorem merge_foldl (a : CentGeomBBox) (prims : List PrimRef) :
    a.merge (prims.foldl extendCenter2 empty) = prims.foldl extendCenter2 a := by
  have hgeneral : ∀ (b : CentGeomBBox), a.merge (prims.foldl extendCenter2 b) =
      prims.foldl extendCenter2 (a.merge b) := by
    induction prims with
    | nil => exact fun _ => rfl
    | cons prim prims ih =>
        intro b
        rw [List.foldl_cons, List.foldl_cons, ih, merge_extendCenter2]
  have hempty : a.merge empty = a := by
    cases a
    simp [merge, empty]
  rw [hgeneral, hempty]

theorem geomBounds_foldl (b : CentGeomBBox) (prims : List PrimRef) :
    (prims.foldl extendCenter2 b).geomBounds = b.geomBounds ⊔ unionBounds prims := by
  induction prims generalizing b with
  | nil => simp [unionBounds]
  | cons prim prims ih =>
      rw [List.foldl_cons, ih]
      simp [extendCenter2, unionBounds, sup_assoc]

@[simp] theorem geomBounds_ofList (prims : List PrimRef) :
    (ofList prims).geomBounds = unionBounds prims := by
  rw [ofList, geomBounds_foldl]
  simp [empty]

end CentGeomBBox

theorem unionBounds_perm {prims prims' : List PrimRef} (h : prims.Perm prims') :
    unionBounds prims = unionBounds prims' := by
  induction h with
  | nil => rfl
  | cons prim _ ih => exact congrArg (fun b => (prim.bounds : BBox3f) ⊔ b) ih
  | swap prim prim' prims => exact sup_left_comm _ _ _
  | trans _ _ ih ih' => exact ih.trans ih'

theorem le_unionBounds {prims : List PrimRef} {prim : PrimRef} (h : prim ∈ prims) :
    (prim.bounds : BBox3f) ≤ unionBounds prims := by
  induction prims with
  | nil => exact absurd h List.not_mem_nil
  | cons head prims ih =>
      rcases List.mem_cons.1 h with rfl | h
      · exact le_sup_left
      · exact (ih h).trans le_sup_right

theorem unionBounds_le {prims : List PrimRef} {b : BBox3f} (h : ∀ prim ∈ prims, prim.bounds ≤ b) :
    unionBounds prims ≤ b := by
  induction prims with
  | nil => exact bot_le
  | cons head prims ih =>
      exact sup_le (h head List.mem_cons_self)
        (ih (fun prim hprim => h prim (List.mem_cons_of_mem _ hprim)))

theorem unionBounds_ne_bot {prims : List PrimRef} (h : prims ≠ []) : unionBounds prims ≠ ⊥ := by
  obtain ⟨prim, hprim⟩ := List.exists_mem_of_ne_nil prims h
  intro hbot
  have hle := le_unionBounds hprim
  rw [hbot] at hle
  exact WithBot.coe_ne_bot (le_bot_iff.1 hle)

structure PrimInfoRange extends CentGeomBBox where
  begin_ : Nat
  end_ : Nat

/-- The recursive state of the builder. The type UNKNOWN is none. -/
structure BuildRecord where
  depth : Nat
  prims : PrimInfoRange
  type : Option PrimType

namespace BuildRecord

def bounds (r : BuildRecord) : BBox3f := r.prims.geomBounds

def begin_ (r : BuildRecord) : Nat := r.prims.begin_

def end_ (r : BuildRecord) : Nat := r.prims.end_

def size (r : BuildRecord) : Nat := r.end_ - r.begin_

def equalType (r : BuildRecord) : Bool := r.type.isSome

def list (r : BuildRecord) (prims : Nat → PrimRef) : List PrimRef := slice prims r.begin_ r.end_

def indices (r : BuildRecord) : List Nat := List.range' r.begin_ r.size

@[simp] theorem length_list (r : BuildRecord) (prims : Nat → PrimRef) : (r.list prims).length = r.size :=
  length_slice ..

theorem list_eq_map (r : BuildRecord) (prims : Nat → PrimRef) : r.list prims = r.indices.map prims := rfl

theorem mem_indices {r : BuildRecord} {i : Nat} : i ∈ r.indices ↔ r.begin_ ≤ i ∧ i < r.end_ := by
  rw [indices, List.mem_range'_1, size]
  omega

end BuildRecord

/-- What a record promises about the primitives of its range. -/
structure BuildRecord.Describes (getType : Fin maxGeometries → PrimType) (r : BuildRecord)
    (prims : Nat → PrimRef) : Prop where
  nonempty : r.begin_ < r.end_
  bounds_eq : r.bounds = unionBounds (r.list prims)
  type_eq : ∀ ty, r.type = some ty → ∀ prim ∈ r.list prims, getType prim.geomID = ty

namespace BuildRecord.Describes

variable {getType : Fin maxGeometries → PrimType} {r : BuildRecord} {prims prims' : Nat → PrimRef}

theorem size_pos (h : r.Describes getType prims) : 0 < r.size := Nat.sub_pos_of_lt h.nonempty

/-- Only the primitives of the range matter, in any order. -/
theorem of_perm (h : r.Describes getType prims) (hperm : (r.list prims').Perm (r.list prims)) :
    r.Describes getType prims' where
  nonempty := h.nonempty
  bounds_eq := h.bounds_eq.trans (unionBounds_perm hperm.symm)
  type_eq ty hty prim hprim := h.type_eq ty hty prim (hperm.mem_iff.1 hprim)

theorem bounds_ne_bot (h : r.Describes getType prims) : r.bounds ≠ ⊥ := by
  rw [h.bounds_eq]
  refine unionBounds_ne_bot (fun hnil => ?_)
  have hlength := r.length_list prims
  have hpos := h.size_pos
  rw [hnil, List.length_nil] at hlength
  omega

end BuildRecord.Describes

end RTBuild
