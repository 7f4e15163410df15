import RTBuild.Leaf
import RTBuild.Library.StdHeap

namespace RTBuild

open Library

/-- A node of an instanced BVH with its address. What an invalid place for a child holds does not
matter. -/
inductive BvhNode
  | fatLeaf (addr : BitVec 64) (data : InternalNode)
  | inner (addr : BitVec 64) (data : InternalNode) (child : Fin 6 → BvhNode)

namespace BvhNode

def addr : BvhNode → BitVec 64
  | fatLeaf addr _ => addr
  | inner addr _ _ => addr

def data : BvhNode → InternalNode
  | fatLeaf _ data => data
  | inner _ data _ => data

def children : BvhNode → List BvhNode
  | fatLeaf _ _ => []
  | inner _ data child => ((List.finRange 6).filter data.valid).map child

def fatLeaves : BvhNode → List (BitVec 64)
  | fatLeaf addr _ => [addr]
  | inner _ data child => ((List.finRange 6).filter data.valid).flatMap (fun i => (child i).fatLeaves)

def nodes : BvhNode → List BvhNode
  | fatLeaf addr data => [fatLeaf addr data]
  | inner addr data child =>
      inner addr data child :: ((List.finRange 6).filter data.valid).flatMap (fun i => (child i).nodes)

def numNodes : BvhNode → Nat
  | fatLeaf _ _ => 1
  | inner _ data child =>
      1 + (((List.finRange 6).filter data.valid).map (fun i => (child i).numNodes)).sum

def WellFormed : BvhNode → Prop
  | fatLeaf _ data => data.isFatLeaf = true
  | inner addr data child =>
      data.isFatLeaf = false ∧
        ∀ i, data.valid i = true →
          (child i).addr = addr + BitVec.ofInt 64 (data.getChildOffset i) ∧ (child i).WellFormed

end BvhNode

def rootOfs (root node : BvhNode) : Int := (node.addr - root.addr).toInt.tdiv 64

/-- An instanced BVH whose nodes can be reached from the root by 32 bit offsets, for priorities by
which nodes get opened. -/
structure InstancedBvh (inst : Instance) (halfArea : BvhNode → ℚ) where
  root : BvhNode
  root_addr : root.addr = inst.accel + BitVec.ofNat 64 rootNodeOffset
  wellFormed : root.WellFormed
  separate : root.fatLeaves.Nodup
  inRange : ∀ node ∈ root.nodes, -2 ^ 31 ≤ rootOfs root node ∧ rootOfs root node < 2 ^ 31
  openable : ∀ node ∈ root.nodes, node.data.isFatLeaf = false → halfArea node ≠ 0 → node.children ≠ []

def maxPresplitsPerPrimitive : Nat := 32

namespace OpenInstance

structure Item where
  node : BvhNode
  priority : ℚ

def Item.ofNode (halfArea : BvhNode → ℚ) (node : BvhNode) : Item :=
  ⟨node, if node.data.isFatLeaf then 0 else halfArea node⟩

inductive ArrayCall
  | pushBack (size : Nat)
  | popBack (size : Nat)
  | back (size : Nat)
  | get (i size : Nat)
  deriving DecidableEq

/-- The assertions of darray_t. -/
def ArrayCall.asserts : ArrayCall → Bool
  | pushBack size => size + 1 < maxPresplitsPerPrimitive
  | popBack size => size ≠ 0
  | back size => 0 < size
  | get i size => i < size

@[simp] theorem ArrayCall.asserts_pushBack (size : Nat) :
    (pushBack size).asserts = true ↔ size + 1 < 32 :=
  decide_eq_true_iff

@[simp] theorem ArrayCall.asserts_popBack (size : Nat) : (popBack size).asserts = true ↔ size ≠ 0 :=
  decide_eq_true_iff

@[simp] theorem ArrayCall.asserts_back (size : Nat) : (back size).asserts = true ↔ 0 < size :=
  decide_eq_true_iff

@[simp] theorem ArrayCall.asserts_get (i size : Nat) : (get i size).asserts = true ↔ i < size :=
  decide_eq_true_iff

def ArrayCall.slot : ArrayCall → Option Nat
  | pushBack size => some size
  | popBack _ => none
  | back size => some (size - 1)
  | get i _ => some i

section code

variable (heapOps : StdHeap Item (StdHeap.lt Item.priority)) (halfArea : BvhNode → ℚ)
  (targetSubPrims : Nat)

def addChildren : List Item → List BvhNode → List Item × List ArrayCall
  | heap, [] => (heap, [])
  | heap, child :: rest =>
      let r := addChildren (heapOps.pushHeap (heap ++ [.ofNode halfArea child])) rest
      (r.1, .pushBack heap.length :: r.2)

inductive Iteration
  | break_ (heap : List Item) (calls : List ArrayCall)
  | next (heap : List Item) (calls : List ArrayCall)

def iteration (heap : List Item) : Iteration :=
  if heap.length + (6 - 1) ≤ maxPresplitsPerPrimitive then
    if heap.length ≥ targetSubPrims then .break_ heap []
    else
      let heap := heapOps.popHeap heap
      match heap.getLast? with
      | none => .break_ heap [.back heap.length]
      | some top =>
          if top.priority = 0 then .break_ heap [.back heap.length]
          else
            let r := addChildren heapOps halfArea heap.dropLast top.node.children
            .next r.1 (.back heap.length :: .popBack heap.length :: r.2)
  else .break_ heap []

def openLoop : Nat → List Item → Option (List Item × List ArrayCall)
  | 0, _ => none
  | fuel + 1, heap =>
      match iteration heapOps halfArea targetSubPrims heap with
      | .break_ heap calls => some (heap, calls)
      | .next heap calls => (openLoop fuel heap).map (fun r => (r.1, calls ++ r.2))

structure Opened where
  heap : List Item
  subPrims : List PrimRef
  calls : List ArrayCall

def subPrim (bounds : BvhNode → NonemptyInterval Vec3f) (geomID : Fin maxGeometries)
    (root : BvhNode) (item : Item) : PrimRef :=
  ⟨bounds item.node, geomID, (BitVec.ofInt 32 (rootOfs root item.node)).toFin⟩

def openInstance (fuel : Nat) (bounds : BvhNode → NonemptyInterval Vec3f) (prim : PrimRef)
    (root : BvhNode) : Option Opened :=
  (openLoop heapOps halfArea targetSubPrims fuel [.ofNode halfArea root]).map (fun r =>
    { heap := r.1
      subPrims := r.1.map (subPrim bounds prim.geomID root)
      calls := .pushBack 0 :: r.2 ++ (List.range r.1.length).map (.get · r.1.length) })

def Next (heap heap' : List Item) : Prop :=
  ∃ calls, iteration heapOps halfArea targetSubPrims heap = .next heap' calls

def Reached (root : BvhNode) (heap : List Item) : Prop :=
  Relation.ReflTransGen (Next heapOps halfArea targetSubPrims) [.ofNode halfArea root] heap

/-- An iteration that would fill all slots: 27 items, with one on top that can be opened and has 6
children. -/
def FillsLastSlot (heap : List Item) : Prop :=
  heap.length = 27 ∧ 27 < targetSubPrims ∧
    ∃ top ∈ (heapOps.popHeap heap).getLast?, top.priority ≠ 0 ∧ top.node.children.length = 6

end code

section nodes

theorem fatLeaves_eq {node : BvhNode} (hnode : node.WellFormed) (h : node.data.isFatLeaf = false) :
    node.fatLeaves = node.children.flatMap BvhNode.fatLeaves := by
  cases node with
  | fatLeaf addr data => exact absurd (hnode.symm.trans h) Bool.false_ne_true.symm
  | inner addr data child => exact (List.flatMap_map _ _ _).symm

theorem numNodes_eq {node : BvhNode} (hnode : node.WellFormed) (h : node.data.isFatLeaf = false) :
    node.numNodes = 1 + (node.children.map BvhNode.numNodes).sum := by
  cases node with
  | fatLeaf addr data => exact absurd (hnode.symm.trans h) Bool.false_ne_true.symm
  | inner addr data child => rw [BvhNode.children, List.map_map]; rfl

theorem length_children_le (node : BvhNode) : node.children.length ≤ 6 := by
  cases node with
  | fatLeaf addr data => exact Nat.zero_le _
  | inner addr data child =>
      rw [BvhNode.children, List.length_map]
      exact (List.length_filter_le _ _).trans_eq List.length_finRange

theorem mem_nodes_self (node : BvhNode) : node ∈ node.nodes := by
  cases node with
  | fatLeaf addr data => exact List.mem_singleton.2 rfl
  | inner addr data child => exact List.mem_cons_self

theorem nodes_trans {root node node' : BvhNode} (h : node ∈ root.nodes) (h' : node' ∈ node.nodes) :
    node' ∈ root.nodes := by
  induction root with
  | fatLeaf addr data =>
      rw [BvhNode.nodes, List.mem_singleton] at h
      rwa [h] at h'
  | inner addr data child ih =>
      rw [BvhNode.nodes, List.mem_cons] at h
      rcases h with rfl | h
      · exact h'
      · obtain ⟨i, hi, hmem⟩ := List.mem_flatMap.1 h
        exact List.mem_cons_of_mem _ (List.mem_flatMap.2 ⟨i, hi, ih i hmem⟩)

theorem children_subset {node child : BvhNode} (h : child ∈ node.children) : child ∈ node.nodes := by
  cases node with
  | fatLeaf addr data => exact absurd h List.not_mem_nil
  | inner addr data place =>
      obtain ⟨i, hi, rfl⟩ := List.mem_map.1 h
      exact List.mem_cons_of_mem _ (List.mem_flatMap.2 ⟨i, hi, mem_nodes_self _⟩)

theorem wellFormed_nodes {root node : BvhNode} (hroot : root.WellFormed) (h : node ∈ root.nodes) :
    node.WellFormed := by
  induction root with
  | fatLeaf addr data =>
      rw [BvhNode.nodes, List.mem_singleton] at h
      rwa [h]
  | inner addr data child ih =>
      rw [BvhNode.nodes, List.mem_cons] at h
      rcases h with rfl | h
      · exact hroot
      · obtain ⟨i, hi, hmem⟩ := List.mem_flatMap.1 h
        exact ih i (hroot.2 i (List.mem_filter.1 hi).2).2 hmem

theorem addr_nodes {root node : BvhNode} (hroot : root.WellFormed) (h : node ∈ root.nodes) :
    ∃ k : Int, node.addr = root.addr + BitVec.ofInt 64 (64 * k) := by
  induction root with
  | fatLeaf addr data =>
      rw [BvhNode.nodes, List.mem_singleton] at h
      exact ⟨0, by simp [h]⟩
  | inner addr data child ih =>
      rw [BvhNode.nodes, List.mem_cons] at h
      rcases h with rfl | h
      · exact ⟨0, by simp⟩
      · obtain ⟨i, hi, hmem⟩ := List.mem_flatMap.1 h
        obtain ⟨haddr, hchild⟩ := hroot.2 i (List.mem_filter.1 hi).2
        obtain ⟨k, hk⟩ := ih i hchild hmem
        rw [haddr, InternalNode.getChildOffset, BitVec.add_assoc, ← BitVec.ofInt_add,
          ← Int.mul_add] at hk
        exact ⟨_, hk⟩

end nodes

theorem ofInt_rootOfs {root node : BvhNode} {k : Int}
    (h : node.addr = root.addr + BitVec.ofInt 64 (64 * k)) :
    64 * BitVec.ofInt 64 (rootOfs root node) = node.addr - root.addr := by
  have hsub : node.addr - root.addr = BitVec.ofInt 64 (64 * k) := by
    rw [h, BitVec.add_comm, BitVec.add_sub_cancel]
  have hdvd : (64 : Int) ∣ (node.addr - root.addr).toInt := by
    have hpow : (64 : Int) ∣ ((2 ^ 64 : Nat) : Int) := by decide
    rw [hsub, BitVec.toInt_ofInt, Int.bmod_eq_self_sub_mul_bdiv]
    exact Int.dvd_sub (Int.dvd_mul_right _ _) (hpow.mul_right _)
  have hmul : 64 * rootOfs root node = (node.addr - root.addr).toInt := Int.mul_tdiv_cancel' hdvd
  calc 64 * BitVec.ofInt 64 (rootOfs root node)
      = BitVec.ofInt 64 (64 * rootOfs root node) := by
        rw [BitVec.ofInt_mul]
        rfl
    _ = node.addr - root.addr := by rw [hmul, BitVec.ofInt_toInt]

/-- The primitive index is read back as the offset that was stored, which leads from the root to the
node. -/
theorem instanceRoot_eq {inst : Instance} {halfArea : BvhNode → ℚ}
    (bvh : InstancedBvh inst halfArea) {node : BvhNode} (h : node ∈ bvh.root.nodes) :
    instanceRoot inst (BitVec.ofInt 32 (rootOfs bvh.root node)).toFin = node.addr := by
  obtain ⟨k, hk⟩ := addr_nodes bvh.wellFormed h
  obtain ⟨hlo, hhi⟩ := bvh.inRange node h
  have hread : BitVec.ofNat 32 (BitVec.ofInt 32 (rootOfs bvh.root node)).toFin =
      BitVec.ofInt 32 (rootOfs bvh.root node) :=
    BitVec.ofNat_toNat _ _
  have hsigned : (BitVec.ofInt 32 (rootOfs bvh.root node)).signExtend 64 =
      BitVec.ofInt 64 (rootOfs bvh.root node) := by
    rw [BitVec.signExtend, BitVec.toInt_ofInt, Int.bmod_eq_of_le hlo hhi]
  rw [instanceRoot, hread, hsigned, ofInt_rootOfs hk, ← bvh.root_addr, BitVec.add_comm,
    BitVec.sub_add_cancel]

section runs

variable {heapOps : StdHeap Item (StdHeap.lt Item.priority)} {halfArea : BvhNode → ℚ}
  {targetSubPrims : Nat}

variable (heapOps halfArea) in
theorem addChildren_spec {heap : List Item} (hheap : IsHeap (StdHeap.lt Item.priority) heap)
    (children : List BvhNode) :
    IsHeap (StdHeap.lt Item.priority) (addChildren heapOps halfArea heap children).1 ∧
      (addChildren heapOps halfArea heap children).1.Perm (heap ++ children.map (.ofNode halfArea)) ∧
      (addChildren heapOps halfArea heap children).2 =
        (List.range' heap.length children.length).map .pushBack := by
  induction children generalizing heap with
  | nil => exact ⟨hheap, by rw [List.map_nil, List.append_nil]; exact .refl _, rfl⟩
  | cons child rest ih =>
      have hperm := heapOps.push_perm heap (.ofNode halfArea child) hheap
      obtain ⟨hrest, hrestPerm, hcalls⟩ := ih (heapOps.push_isHeap heap (.ofNode halfArea child) hheap)
      rw [addChildren]
      refine ⟨hrest, hrestPerm.trans ((hperm.append_right _).trans ?_), ?_⟩
      · rw [List.append_assoc, List.map_cons]
        exact .refl _
      · rw [hcalls, hperm.length_eq, List.length_append, List.length_singleton, List.length_cons,
          List.range'_succ, List.map_cons]

/-- The items stand for nodes of the tree, each fat leaf of which is at or below one of them. -/
structure Frontier (halfArea : BvhNode → ℚ) (root : BvhNode) (heap : List Item) : Prop where
  nonempty : 0 < heap.length
  length_le : heap.length ≤ maxPresplitsPerPrimitive
  item_eq : ∀ item ∈ heap, item = .ofNode halfArea item.node
  node_mem : ∀ item ∈ heap, item.node ∈ root.nodes
  leaves : (heap.flatMap (fun item => item.node.fatLeaves)).Perm root.fatLeaves

theorem Frontier.start (halfArea : BvhNode → ℚ) (root : BvhNode) :
    Frontier halfArea root [.ofNode halfArea root] where
  nonempty := Nat.one_pos
  length_le := Nat.succ_le_succ (Nat.zero_le 31)
  item_eq item hitem := by rw [List.mem_singleton.1 hitem]; rfl
  node_mem item hitem := by
    rw [List.mem_singleton.1 hitem]
    exact mem_nodes_self root
  leaves := by
    rw [List.flatMap_singleton]
    exact .refl _

theorem Frontier.perm {root : BvhNode} {heap heap' : List Item} (h : Frontier halfArea root heap)
    (hperm : heap'.Perm heap) : Frontier halfArea root heap' where
  nonempty := h.nonempty.trans_eq hperm.length_eq.symm
  length_le := hperm.length_eq.trans_le h.length_le
  item_eq item hitem := h.item_eq item (hperm.subset hitem)
  node_mem item hitem := h.node_mem item (hperm.subset hitem)
  leaves := (hperm.flatMap_right _).trans h.leaves

def weight (heap : List Item) : Nat := (heap.map (fun item => item.node.numNodes)).sum

theorem weight_perm {heap heap' : List Item} (h : heap'.Perm heap) : weight heap' = weight heap :=
  (h.map _).sum_eq

/-- The top of a heap gives way to its children. -/
theorem Frontier.open_top {inst : Instance} {bvh : InstancedBvh inst halfArea} {rest : List Item}
    {top : Item} (h : Frontier halfArea bvh.root (rest ++ [top])) (htop : top.priority ≠ 0)
    (hroom : rest.length < 27) :
    Frontier halfArea bvh.root (rest ++ top.node.children.map (Item.ofNode halfArea)) ∧
      weight (rest ++ top.node.children.map (Item.ofNode halfArea)) < weight (rest ++ [top]) ∧
      top.node.children ≠ [] := by
  have hmem : top ∈ rest ++ [top] := List.mem_append_right _ List.mem_cons_self
  have hnode := h.node_mem top hmem
  have hwf := wellFormed_nodes bvh.wellFormed hnode
  have hlength := length_children_le top.node
  have hinner : top.node.data.isFatLeaf = false := by
    rw [h.item_eq top hmem, Item.ofNode] at htop
    by_contra hfat
    exact htop (if_pos (Bool.eq_true_of_not_eq_false hfat))
  have harea : halfArea top.node ≠ 0 := by
    rw [h.item_eq top hmem, Item.ofNode] at htop
    simpa only [hinner, Bool.false_eq_true, if_false] using htop
  refine ⟨⟨?_, ?_, ?_, ?_, ?_⟩, ?_, bvh.openable _ hnode hinner harea⟩
  · have hpos := List.length_pos_of_ne_nil (bvh.openable _ hnode hinner harea)
    rw [List.length_append, List.length_map]
    omega
  · rw [List.length_append, List.length_map, maxPresplitsPerPrimitive]
    omega
  · intro item hitem
    rcases List.mem_append.1 hitem with hitem | hitem
    · exact h.item_eq item (List.mem_append_left _ hitem)
    · obtain ⟨child, _, rfl⟩ := List.mem_map.1 hitem
      rfl
  · intro item hitem
    rcases List.mem_append.1 hitem with hitem | hitem
    · exact h.node_mem item (List.mem_append_left _ hitem)
    · obtain ⟨child, hchild, rfl⟩ := List.mem_map.1 hitem
      exact nodes_trans hnode (children_subset hchild)
  · have hleaves := h.leaves
    rw [List.flatMap_append, List.flatMap_singleton, fatLeaves_eq hwf hinner] at hleaves
    rw [List.flatMap_append, List.flatMap_map]
    exact hleaves
  · rw [weight, weight, List.map_append, List.map_append, List.sum_append, List.sum_append,
      List.map_singleton, List.sum_singleton, numNodes_eq hwf hinner, List.map_map]
    exact Nat.add_lt_add_left (Nat.lt_one_add_iff.2 le_rfl) _

variable (heapOps targetSubPrims) in
/-- What an iteration does, and that only filling the last slot violates an assertion. -/
theorem iteration_spec {inst : Instance} {bvh : InstancedBvh inst halfArea} {heap : List Item}
    (hheap : IsHeap (StdHeap.lt Item.priority) heap) (h : Frontier halfArea bvh.root heap) :
    (∃ heap' calls, iteration heapOps halfArea targetSubPrims heap = .break_ heap' calls ∧
        Frontier halfArea bvh.root heap' ∧
        (∀ call ∈ calls, call.asserts = true ∧ ∀ slot ∈ call.slot, slot < maxPresplitsPerPrimitive) ∧
        ¬ FillsLastSlot heapOps targetSubPrims heap) ∨
      ∃ heap' calls, iteration heapOps halfArea targetSubPrims heap = .next heap' calls ∧
        IsHeap (StdHeap.lt Item.priority) heap' ∧ Frontier halfArea bvh.root heap' ∧
          weight heap' < weight heap ∧
        (∀ call ∈ calls, ∀ slot ∈ call.slot, slot < maxPresplitsPerPrimitive) ∧
        ((∀ call ∈ calls, call.asserts = true) ↔ ¬ FillsLastSlot heapOps targetSubPrims heap) := by
  rw [iteration]
  by_cases hsize : heap.length + (6 - 1) ≤ maxPresplitsPerPrimitive
  · rw [if_pos hsize]
    rw [maxPresplitsPerPrimitive] at hsize
    by_cases htarget : heap.length ≥ targetSubPrims
    · rw [if_pos htarget]
      refine Or.inl ⟨heap, [], rfl, h, fun call hcall => absurd hcall List.not_mem_nil, ?_⟩
      rintro ⟨hfull, hless, _⟩
      omega
    · rw [if_neg htarget]
      have hperm := heapOps.pop_perm heap hheap
      rcases List.eq_nil_or_concat (heapOps.popHeap heap) with hnil | ⟨rest, top, hpop⟩
      · have hpos := h.nonempty
        rw [← hperm.length_eq, hnil] at hpos
        exact absurd hpos (Nat.lt_irrefl 0)
      · have hlength := hperm.length_eq
        have hrest := heapOps.pop_isHeap heap hheap
        have hfrontier := h.perm hperm
        have hpopWeight := weight_perm hperm
        rw [List.concat_eq_append] at hpop
        rw [FillsLastSlot]
        rw [hpop] at hpopWeight hlength hrest hfrontier ⊢
        rw [List.length_append, List.length_singleton] at hlength
        rw [List.dropLast_concat] at hrest
        simp only [List.getLast?_concat, List.dropLast_concat, List.length_append, List.length_singleton,
          Option.mem_some_iff, exists_eq_left']
        by_cases htop : top.priority = 0
        · rw [if_pos htop]
          refine Or.inl ⟨_, _, rfl, hfrontier, fun call hcall => ?_, fun hfull => hfull.2.2.1 htop⟩
          rw [List.mem_singleton.1 hcall]
          refine ⟨(ArrayCall.asserts_back _).2 (Nat.succ_pos _), fun slot hslot => ?_⟩
          obtain rfl := Option.some.inj hslot
          rw [maxPresplitsPerPrimitive]
          omega
        · rw [if_neg htop]
          obtain ⟨hopened, hweight, hchildren⟩ := hfrontier.open_top htop (by omega)
          obtain ⟨hheap', hperm', hcalls⟩ := addChildren_spec heapOps halfArea hrest top.node.children
          have hweight' : weight (addChildren heapOps halfArea rest top.node.children).1 <
              weight heap := by
            calc weight (addChildren heapOps halfArea rest top.node.children).1
                = weight (rest ++ top.node.children.map (Item.ofNode halfArea)) := weight_perm hperm'
              _ < weight (rest ++ [top]) := hweight
              _ = weight heap := hpopWeight
          have hpos := List.length_pos_of_ne_nil hchildren
          have hsix := length_children_le top.node
          refine Or.inr ⟨_, _, rfl, hheap', hopened.perm hperm', hweight', ?_, ?_⟩
          · intro call hcall slot hslot
            rw [maxPresplitsPerPrimitive]
            rw [hcalls, List.mem_cons, List.mem_cons] at hcall
            rcases hcall with rfl | rfl | hcall
            · obtain rfl := Option.some.inj hslot
              omega
            · cases hslot
            · obtain ⟨size, hsize', rfl⟩ := List.mem_map.1 hcall
              obtain rfl := Option.some.inj hslot
              have hlt := (List.mem_range'_1.1 hsize').2
              omega
          · simp only [hcalls, List.forall_mem_cons, List.forall_mem_map, ArrayCall.asserts_back,
              ArrayCall.asserts_popBack, ArrayCall.asserts_pushBack, List.mem_range'_1]
            constructor
            · rintro ⟨_, _, hpush⟩ ⟨hfull, _, _, hall⟩
              have hlast := hpush (rest.length + 5)
              omega
            · intro hnot
              refine ⟨Nat.succ_pos _, Nat.succ_ne_zero _, fun size hsize' => ?_⟩
              by_contra hge
              exact hnot ⟨by omega, by omega, htop, by omega⟩
  · rw [if_neg hsize]
    refine Or.inl ⟨heap, [], rfl, h, fun call hcall => absurd hcall List.not_mem_nil, ?_⟩
    rintro ⟨hfull, _⟩
    rw [maxPresplitsPerPrimitive] at hsize
    omega

variable (heapOps targetSubPrims) in
/-- The whole loop, and that it violates an assertion only if some iteration fills the last slot. -/
theorem openLoop_spec {inst : Instance} {bvh : InstancedBvh inst halfArea} {fuel : Nat}
    {heap : List Item} (hheap : IsHeap (StdHeap.lt Item.priority) heap)
    (h : Frontier halfArea bvh.root heap) (hfuel : weight heap < fuel) :
    ∃ heap' calls, openLoop heapOps halfArea targetSubPrims fuel heap = some (heap', calls) ∧
      Frontier halfArea bvh.root heap' ∧
      (∀ call ∈ calls, ∀ slot ∈ call.slot, slot < maxPresplitsPerPrimitive) ∧
      ((∀ call ∈ calls, call.asserts = true) ↔
        ∀ s, Relation.ReflTransGen
          (Next heapOps halfArea targetSubPrims) heap s →
          ¬ FillsLastSlot heapOps targetSubPrims s) := by
  induction fuel generalizing heap with
  | zero => exact absurd hfuel (Nat.not_lt_zero _)
  | succ fuel ih =>
      rw [openLoop]
      rcases iteration_spec heapOps targetSubPrims hheap h with
        ⟨heap', calls, hiter, hfrontier, hok, hnot⟩
          | ⟨heap', calls, hiter, hheap', hfrontier, hweight, hslots, hasserts⟩
      · rw [hiter]
        refine ⟨heap', calls, rfl, hfrontier, fun call hcall => (hok call hcall).2, ?_⟩
        refine iff_of_true (fun call hcall => (hok call hcall).1) (fun s hs => ?_)
        rcases hs.cases_head with rfl | ⟨next, ⟨_, hnext⟩, _⟩
        · exact hnot
        · rw [hiter] at hnext
          cases hnext
      · obtain ⟨last, rest, hloop, hlast, hrestSlots, hrestAsserts⟩ := ih hheap' hfrontier (by omega)
        rw [hiter]
        refine ⟨last, calls ++ rest, by simp only [hloop, Option.map_some], hlast, ?_, ?_⟩
        · intro call hcall
          rcases List.mem_append.1 hcall with hcall | hcall
          · exact hslots call hcall
          · exact hrestSlots call hcall
        · rw [List.forall_mem_append, hasserts, hrestAsserts]
          constructor
          · rintro ⟨hfirst, hrest⟩ s hs
            rcases hs.cases_head with rfl | ⟨next, ⟨_, hnext⟩, hs'⟩
            · exact hfirst
            · rw [hiter] at hnext
              cases hnext
              exact hrest s hs'
          · intro hall
            exact ⟨hall heap .refl, fun s hs => hall s (.head ⟨calls, hiter⟩ hs)⟩

theorem openLoop_mono {fuel fuel' : Nat} (hle : fuel ≤ fuel') {heap : List Item}
    {r : List Item × List ArrayCall}
    (h : openLoop heapOps halfArea targetSubPrims fuel heap = some r) :
    openLoop heapOps halfArea targetSubPrims fuel' heap = some r := by
  induction fuel generalizing fuel' heap r with
  | zero => cases h
  | succ fuel ih =>
      obtain ⟨fuel', rfl⟩ :=
        Nat.exists_eq_succ_of_ne_zero (Nat.ne_of_gt (Nat.lt_of_lt_of_le (Nat.succ_pos _) hle))
      rw [openLoop] at h ⊢
      split at h
      · exact h
      · obtain ⟨r', hr', rfl⟩ := Option.map_eq_some_iff.1 h
        rw [ih (Nat.le_of_succ_le_succ hle) hr']
        rfl

end runs

/-- What opening an instance leaves: a frontier of the tree within the array, with primitives that
lead to it. -/
structure Opened.Sound (inst : Instance) (root : BvhNode) (r : Opened) : Prop where
  inSlots : ∀ call ∈ r.calls, ∀ slot ∈ call.slot, slot < maxPresplitsPerPrimitive
  nodes : ∀ item ∈ r.heap, item.node ∈ root.nodes
  frontier : (r.heap.flatMap (fun item => item.node.fatLeaves)).Perm root.fatLeaves
  exactlyOne : ∀ leaf ∈ root.fatLeaves, r.heap.countP (fun item => leaf ∈ item.node.fatLeaves) = 1
  nonempty : 1 ≤ r.heap.length
  length_le : r.heap.length ≤ maxPresplitsPerPrimitive
  recovered : r.subPrims.map (fun prim => instanceRoot inst prim.primID) =
    r.heap.map (fun item => item.node.addr)

theorem countP_of_nodup {α β : Type} [DecidableEq β] {l : List α} {f : α → List β}
    (h : (l.flatMap f).Nodup) {b : β} (hb : b ∈ l.flatMap f) : l.countP (fun a => b ∈ f a) = 1 := by
  induction l with
  | nil => exact absurd hb List.not_mem_nil
  | cons a l ih =>
      rw [List.flatMap_cons] at h hb
      obtain ⟨_, hl, hdisjoint⟩ := List.nodup_append.1 h
      rw [List.countP_cons]
      by_cases ha : b ∈ f a
      · have hnone : l.countP (fun a => b ∈ f a) = 0 := by
          rw [List.countP_eq_zero]
          intro a' ha' hmem
          exact hdisjoint b ha b (List.mem_flatMap.2 ⟨a', ha', of_decide_eq_true hmem⟩) rfl
        rw [hnone, if_pos (decide_eq_true ha)]
      · rw [ih hl ((List.mem_append.1 hb).resolve_left ha), if_neg (by simpa using ha)]

variable (heapOps : StdHeap Item (StdHeap.lt Item.priority)) {halfArea : BvhNode → ℚ}
  (targetSubPrims : Nat)
  {inst : Instance} (bvh : InstancedBvh inst halfArea) (bounds : BvhNode → NonemptyInterval Vec3f)
    (prim : PrimRef)

/-- Opening ends, and leaves a frontier; the assertions hold unless an iteration fills the last slot. -/
theorem openInstance_sound :
    ∃ r : Opened, (∀ fuel, bvh.root.numNodes < fuel →
        openInstance heapOps halfArea targetSubPrims fuel bounds prim bvh.root = some r) ∧
      r.Sound inst bvh.root ∧
      ((∀ call ∈ r.calls, call.asserts = true) ↔
        ∀ heap, Reached heapOps halfArea targetSubPrims bvh.root heap →
          ¬ FillsLastSlot heapOps targetSubPrims heap) := by
  have hweight : weight [Item.ofNode halfArea bvh.root] = bvh.root.numNodes := List.sum_singleton
  have hfuel : weight [Item.ofNode halfArea bvh.root] < bvh.root.numNodes + 1 := by
    rw [hweight]
    exact Nat.lt_succ_self _
  obtain ⟨heap, calls, hloop, hfrontier, hslots, hasserts⟩ := openLoop_spec heapOps targetSubPrims
    (isHeap_singleton _ _) (Frontier.start halfArea bvh.root) hfuel
  refine ⟨⟨heap, heap.map (subPrim bounds prim.geomID bvh.root),
    .pushBack 0 :: calls ++ (List.range heap.length).map (.get · heap.length)⟩,
    fun fuel hlt => ?_, ?_, ?_⟩
  · rw [openInstance, openLoop_mono hlt hloop]
    rfl
  · constructor
    · intro call hcall slot hslot
      rw [List.mem_append, List.mem_cons] at hcall
      rcases hcall with (rfl | hcall) | hcall
      · obtain rfl := Option.some.inj hslot
        exact Nat.succ_pos 31
      · exact hslots call hcall slot hslot
      · obtain ⟨i, hi, rfl⟩ := List.mem_map.1 hcall
        obtain rfl := Option.some.inj hslot
        exact (List.mem_range.1 hi).trans_le hfrontier.length_le
    · exact hfrontier.node_mem
    · exact hfrontier.leaves
    · intro leaf hleaf
      exact countP_of_nodup (hfrontier.leaves.nodup_iff.2 bvh.separate)
        (hfrontier.leaves.mem_iff.2 hleaf)
    · exact hfrontier.nonempty
    · exact hfrontier.length_le
    · rw [List.map_map]
      exact List.map_congr_left (fun item hitem => instanceRoot_eq bvh (hfrontier.node_mem item hitem))
  · refine Iff.trans ?_ hasserts
    simp only [List.forall_mem_append, List.forall_mem_cons, List.forall_mem_map,
      ArrayCall.asserts_pushBack, ArrayCall.asserts_get, List.mem_range]
    exact ⟨fun h => h.1.2, fun h => ⟨⟨by decide, h⟩, fun i hi => hi⟩⟩

/-- All that is asked of opening an instance holds exactly when no iteration fills the last slot. -/
theorem openInstance_valid_iff :
    (∃ r : Opened, (∀ fuel, bvh.root.numNodes < fuel →
        openInstance heapOps halfArea targetSubPrims fuel bounds prim bvh.root = some r) ∧
      (∀ call ∈ r.calls, call.asserts = true) ∧ r.Sound inst bvh.root) ↔
    ∀ heap, Reached heapOps halfArea targetSubPrims bvh.root heap →
      ¬ FillsLastSlot heapOps targetSubPrims heap := by
  obtain ⟨r, hr, hsound, hiff⟩ := openInstance_sound heapOps targetSubPrims bvh bounds prim
  constructor
  · rintro ⟨r', hr', hasserts, _⟩
    obtain rfl : r' = r :=
      Option.some.inj ((hr' _ (Nat.lt_succ_self _)).symm.trans (hr _ (Nat.lt_succ_self _)))
    exact hiff.1 hasserts
  · intro h
    exact ⟨r, hr, hiff.2 h, hsound⟩

def plainNode (type : NodeType) (numChildren : Nat) : InternalNode :=
  { InternalNode.ofType type with
    childOffset := 1
    childData _ := ⟨1, 0⟩
    lowerX i := if i.val < numChildren then 0 else 0x80 }

def chain : Nat → BitVec 64 → BvhNode
  | 0, addr => .fatLeaf addr (plainNode .quad 6)
  | n + 1, addr =>
      .inner addr (plainNode .internal 6) (fun i =>
        if i = 5 then chain n (addr + 384)
          else .fatLeaf (addr + 64 + 64 * BitVec.ofNat 64 i) (plainNode .quad 6))

/-- The first node has 2 children only, which makes 27 items after it and 5 nodes of a chain have
been opened. -/
def chainRoot : BvhNode :=
  .inner 128 (plainNode .internal 2)
    (fun i => if i.val = 1 then chain 6 256 else .fatLeaf 192 (plainNode .quad 6))

theorem addr_chain (n : Nat) (addr : BitVec 64) : (chain n addr).addr = addr := by
  cases n <;> rfl

theorem getChildOffset_plainNode (type : NodeType) (n : Nat) (i : Fin 6) :
    (plainNode type n).getChildOffset i = 64 + 64 * i.val := by
  fin_cases i <;> rfl

theorem chain_wellFormed (n : Nat) (addr : BitVec 64) : (chain n addr).WellFormed := by
  induction n generalizing addr with
  | zero => rfl
  | succ n ih =>
      refine ⟨rfl, fun i _ => ?_⟩
      rw [getChildOffset_plainNode]
      by_cases hi : i = 5
      · subst hi
        exact ⟨addr_chain n _, ih _⟩
      · simp only [if_neg hi]
        refine ⟨?_, rfl⟩
        fin_cases i <;> exact BitVec.add_assoc _ _ _

def chainBvh : InstancedBvh ⟨.one, 0, 1, 0⟩ (fun _ => 1) where
  root := chainRoot
  root_addr := rfl
  wellFormed := by
    refine ⟨rfl, fun i hi => ?_⟩
    rw [getChildOffset_plainNode]
    fin_cases i
    · exact ⟨rfl, rfl⟩
    · exact ⟨rfl, chain_wellFormed 6 256⟩
    all_goals cases hi
  separate := by decide +kernel
  inRange := by decide +kernel
  openable := by
    have hchildren : ∀ node ∈ chainRoot.nodes, node.data.isFatLeaf = false →
        0 < node.children.length := by decide +kernel
    exact fun node hnode hinner _ => List.ne_nil_of_length_pos (hchildren node hnode hinner)

/-- Opening the chain for 32 primitives stores the last item at index 31, which the assertion rejects. -/
theorem not_valid_chain :
    ¬ ∃ r : Opened, (∀ fuel, chainBvh.root.numNodes < fuel →
        openInstance (.sorted Item.priority) (fun _ => 1) 32 fuel (fun _ => .pure (0, 0, 0))
          ⟨.pure (0, 0, 0), 0, 0⟩ chainBvh.root = some r) ∧
      (∀ call ∈ r.calls, call.asserts = true) ∧ r.Sound ⟨.one, 0, 1, 0⟩ chainBvh.root := by
  rintro ⟨r, hr, hasserts, _⟩
  have hrun := hr (chainBvh.root.numNodes + 1) (Nat.lt_succ_self _)
  have hcall :
      ((openInstance (.sorted Item.priority) (fun _ => 1) 32 (chainRoot.numNodes + 1)
        (fun _ => .pure (0, 0, 0)) ⟨.pure (0, 0, 0), 0, 0⟩ chainRoot).map
          (fun r => decide (.pushBack 31 ∈ r.calls))) = some true := by
    decide +kernel
  change openInstance (.sorted Item.priority) (fun _ => 1) 32 (chainRoot.numNodes + 1)
      (fun _ => .pure (0, 0, 0))
    ⟨.pure (0, 0, 0), 0, 0⟩ chainRoot = some r at hrun
  rw [hrun] at hcall
  have hmem : ArrayCall.pushBack 31 ∈ r.calls := of_decide_eq_true (Option.some.inj hcall)
  exact absurd (hasserts _ hmem) (by decide)

end OpenInstance

end RTBuild
