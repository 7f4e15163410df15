import RTBuild.LeafBlocks
import RTBuild.Library.WideTree

namespace RTBuild

open Library Library.Segment

/-- A pointer to a node with its type, and the first primitive for a leaf. -/
structure NodeRef where
  node : Nat
  type : NodeType
  curPrim : Nat

def InternalNode.child (node : InternalNode) (addr : Nat) (childID : Fin 6) : Option NodeRef :=
  let ptr := (addr : Int) + node.getChildOffset childID
  match node.getChildType childID with
  | some type => if 0 ≤ ptr then some ⟨ptr.toNat, type, node.getChildStartPrim childID⟩ else none
  | none => none

inductive LeafPrim
  | quad (geomIndex : Fin (2 ^ 29)) (primIndex : Fin (2 ^ 32)) (geomMask : BitVec 8)
  | procedural (geomIndex : Fin (2 ^ 29)) (primIndex : Fin (2 ^ 32)) (geomMask : BitVec 8)
  | inst (instanceIndex : Fin (2 ^ 32)) (startNodePtr : BitVec 64) (geomMask : BitVec 8)
      (world2obj obj2world : AffineSpace3f)
  deriving DecidableEq

def LeafPrim.geomMask : LeafPrim → BitVec 8
  | quad _ _ mask => mask
  | procedural _ _ mask => mask
  | inst _ _ mask _ _ => mask

def QuadLeaf.prim (leaf : QuadLeaf) : LeafPrim :=
  .quad leaf.leafDesc.geomIndex leaf.primIndex0 leaf.leafDesc.geomMask

def instancePrim (part0 : InstancePart0) (part1 : InstancePart1) : LeafPrim :=
  .inst part1.instanceIndex part0.startNodePtr part0.geomMask (world2Obj part0 part1)
    (obj2World part0 part1)

abbrev DecodedTree := WideTree 6 (BitVec 8) BBox3f LeafPrim

section decode

variable (m : Nat → Option Cell)

def decodeQuads : Nat → Nat → Option (List LeafPrim)
  | 0, _ => none
  | fuel + 1, addr =>
      match m addr with
      | some (.quad leaf) =>
          if leaf.last then some [leaf.prim] else (decodeQuads fuel (addr + nodeBytes)).map
            (leaf.prim :: ·)
      | _ => none

def readQuads : Nat → Nat → Option (List QuadLeaf)
  | 0, _ => none
  | fuel + 1, addr =>
      match m addr with
      | some (.quad leaf) =>
          if leaf.last then some [leaf] else (readQuads fuel (addr + nodeBytes)).map (leaf :: ·)
      | _ => none

def decodeProcedurals : Nat → Nat → Nat → Option (List LeafPrim)
  | 0, _, _ => none
  | fuel + 1, addr, curPrim =>
      match m addr with
      | some (.procedural leaf) =>
          if h : curPrim < 13 then
            let prim := .procedural leaf.leafDesc.geomIndex
              (leaf.primIndex ⟨curPrim, h⟩) leaf.leafDesc.geomMask
            if leaf.isLast curPrim then some [prim]
            else
              (if leaf.numPrimitives ≤ curPrim + 1 then decodeProcedurals fuel (addr + nodeBytes) 0
              else decodeProcedurals fuel addr (curPrim + 1)).map (prim :: ·)
          else none
      | _ => none

def decodeInstance (addr : Nat) : Option LeafPrim :=
  match m addr, m (addr + nodeBytes) with
  | some (.instancePart0 part0), some (.instancePart1 part1) =>
      some (instancePrim part0 part1)
  | _, _ => none

def sequence {α : Type} {n : Nat} (f : Fin n → Option α) : Option (Fin n → α) :=
  if h : ∀ i, (f i).isSome = true then some (fun i => (f i).get (h i)) else none

/-- The tree below a reference, with the masks of its nodes and the boxes that its
children were given. There is none where a cell holds something else than is expected. -/
def decode : Nat → NodeRef → Option DecodedTree
  | 0, _ => none
  | fuel + 1, ref =>
      match ref.type with
      | .quad => (decodeQuads m fuel ref.node).map .leaf
      | .procedural => (decodeProcedurals m fuel ref.node ref.curPrim).map .leaf
      | .inst => (decodeInstance m ref.node).map (fun prim => .leaf [prim])
      | .internal =>
          match m ref.node with
          | some (.node node) =>
              (sequence (fun i => if node.valid i then (node.child ref.node i).bind (decode fuel)
                else some .absent)).map (.node node.nodeMask node.box)
          | _ => none
      | .invalid => none

end decode

theorem decodeQuads_eq (m : Nat → Option Cell) (fuel addr : Nat) :
    decodeQuads m fuel addr = (readQuads m fuel addr).map (List.map QuadLeaf.prim) := by
  induction fuel generalizing addr with
  | zero => rfl
  | succ fuel ih =>
      rw [decodeQuads, readQuads]
      split
      next leaf hcell =>
        split
        · rfl
        · rw [ih, Option.map_map, Option.map_map]
          rfl
      · rfl

theorem sequence_eq_some {α : Type} {n : Nat} {f : Fin n → Option α} {g : Fin n → α}
    (h : ∀ i, f i = some (g i)) : sequence f = some g := by
  have hsome : ∀ i, (f i).isSome = true := fun i => by rw [h i]; rfl
  rw [sequence, dif_pos hsome]
  congr 1
  funext i
  exact Option.some.inj ((Option.some_get (hsome i)).trans (h i))

theorem map_sequence {α β : Type} {n : Nat} (f : Fin n → Option α) (h : α → β) :
    (sequence f).map (fun g i => h (g i)) = sequence (fun i => (f i).map h) := by
  by_cases hsome : ∀ i, (f i).isSome = true
  · have hmap : ∀ i, (f i).map h = some (h ((f i).get (hsome i))) := by
      intro i
      rw [← Option.map_some, Option.some_get]
    rw [sequence, dif_pos hsome, sequence_eq_some hmap]
    rfl
  · have hmap : ¬∀ i, ((f i).map h).isSome = true := by
      simpa only [Option.isSome_map] using hsome
    rw [sequence, sequence, dif_neg hsome, dif_neg hmap]
    rfl

theorem maxGeometries_le_geomIndex : maxGeometries ≤ 2 ^ 29 := by decide

theorem maxGeometries_le_instanceIndex : maxGeometries ≤ 2 ^ 32 := by decide

/-- What the leaves should tell about a primitive. Triangles end up in quad leaves. -/
def leafPrim (b : BuilderT) (prim : PrimRef) : LeafPrim :=
  match b.getType prim.geomID with
  | .triangle => .quad (Fin.castLE maxGeometries_le_geomIndex prim.geomID) prim.primID
      (b.getTriangle prim.geomID prim.primID).gmask
  | .quad => .quad (Fin.castLE maxGeometries_le_geomIndex prim.geomID) prim.primID
      (b.getQuad prim.geomID prim.primID).gmask
  | .procedural => .procedural (Fin.castLE maxGeometries_le_geomIndex prim.geomID) prim.primID
      (b.getProcedural prim.geomID)
  | .inst =>
      .inst (Fin.castLE maxGeometries_le_instanceIndex prim.geomID)
        (storedStartNode b.rtasFormat (instanceRoot (b.getInstance prim.geomID) prim.primID))
        (b.getInstance prim.geomID).imask (b.getInstance prim.geomID).local2world.rcp
        (b.getInstance prim.geomID).local2world

def unionMask (b : BuilderT) (list : List PrimRef) : BitVec 8 :=
  list.foldr (fun prim mask => (leafPrim b prim).geomMask ||| mask) 0

@[simp] theorem unionMask_cons (b : BuilderT) (prim : PrimRef) (l : List PrimRef) :
    unionMask b (prim :: l) = (leafPrim b prim).geomMask ||| unionMask b l := rfl

theorem unionMask_append (b : BuilderT) (l l' : List PrimRef) :
    unionMask b (l ++ l') = unionMask b l ||| unionMask b l' := by
  induction l with
  | nil => exact (BitVec.zero_or).symm
  | cons prim l ih =>
      rw [List.cons_append, unionMask_cons, ih, unionMask_cons, BitVec.or_assoc]

theorem unionMask_perm (b : BuilderT) {l l' : List PrimRef} (h : l.Perm l') :
    unionMask b l = unionMask b l' := by
  induction h with
  | nil => rfl
  | cons prim _ ih => exact congrArg ((leafPrim b prim).geomMask ||| ·) ih
  | swap prim prim' l =>
      simp only [unionMask_cons]
      rw [← BitVec.or_assoc, ← BitVec.or_assoc, BitVec.or_comm (leafPrim b prim').geomMask]
  | trans _ _ ih ih' => exact ih.trans ih'

/-- The loops that reduce the masks of some leaves. -/
theorem foldl_mask {α : Type} (f : α → BitVec 8) (l : List α) :
    l.foldl (fun mask x => mask ||| f x) 0 = l.foldr (fun x mask => f x ||| mask) 0 := by
  have hgeneral : ∀ mask, l.foldl (fun mask x => mask ||| f x) mask =
      mask ||| l.foldr (fun x mask => f x ||| mask) 0 := by
    induction l with
    | nil => exact fun mask => (BitVec.or_zero).symm
    | cons x l ih =>
        intro mask
        rw [List.foldl_cons, ih, List.foldr_cons, BitVec.or_assoc]
  exact (hgeneral 0).trans BitVec.zero_or

section stored

variable {m : Nat → Option Cell} {addr : Nat} {cells cells' : List Cell}

def Stored (m : Nat → Option Cell) : Nat → List Cell → Prop
  | _, [] => True
  | addr, cell :: cells => m addr = some cell ∧ Stored m (addr + nodeBytes) cells

theorem stored_append : Stored m addr (cells ++ cells') ↔
    Stored m addr cells ∧ Stored m (addr + cells.length * nodeBytes) cells' := by
  induction cells generalizing addr with
  | nil => simp [Stored]
  | cons cell cells ih =>
      have haddr : addr + nodeBytes + cells.length * nodeBytes =
          addr + (cells.length + 1) * nodeBytes := by ring
      rw [List.cons_append, Stored, ih, Stored, List.length_cons, haddr, and_assoc]

theorem consecutive_cons (addr : Nat) (cell : Cell) (cells : List Cell) :
    consecutive addr (cell :: cells) = (addr, cell) :: consecutive (addr + nodeBytes) cells := by
  simp only [consecutive, List.mapIdx_cons, Nat.zero_mul, Nat.add_zero]
  congr 2
  funext i cell
  rw [Nat.add_mul, Nat.one_mul, Nat.add_comm (i * nodeBytes), Nat.add_assoc]

theorem consecutive_append (addr : Nat) (cells cells' : List Cell) :
    consecutive addr (cells ++ cells') =
      consecutive addr cells ++ consecutive (addr + cells.length * nodeBytes) cells' := by
  induction cells generalizing addr with
  | nil => simp [consecutive]
  | cons cell cells ih =>
      have haddr : addr + nodeBytes + cells.length * nodeBytes =
          addr + (cells.length + 1) * nodeBytes := by ring
      rw [List.cons_append, consecutive_cons, ih, consecutive_cons, List.length_cons, haddr,
        List.cons_append]

theorem stored_of_keeps (h : Keeps m (consecutive addr cells)) : Stored m addr cells := by
  induction cells generalizing addr with
  | nil => trivial
  | cons cell cells ih =>
      rw [consecutive_cons] at h
      refine ⟨h.head ?_, ih h.tail⟩
      rw [List.eq_nil_iff_forall_not_mem]
      intro cell' hcell
      have hle := (consecutive_inside (mem_storesAt.1 hcell)).base_le
      have hbytes : nodeBytes = 64 := rfl
      simp only [hbytes] at hle
      omega

end stored

end RTBuild
