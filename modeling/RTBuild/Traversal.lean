import RTBuild.BufferSafety
import RTBuild.Bvh
import RTBuild.Quantization

namespace RTBuild

open Library Library.Task Children

section traverse

variable (m : Nat → Option Cell) (test : Vec3f × Vec3f → Bool) (rayMask : BitVec 8)

def passes (mask : BitVec 8) : Bool := mask &&& rayMask != 0

/-- What a ray meets below a reference, in the order in which it is stored. The ray is given by its
mask and by its test of the boxes that the nodes store. -/
def traverse : Nat → NodeRef → Option (List LeafPrim)
  | 0, _ => none
  | fuel + 1, ref =>
      match ref.type with
      | .quad => (decodeQuads m fuel ref.node).map (List.filter (passes rayMask ∘ LeafPrim.geomMask))
      | .procedural =>
          (decodeProcedurals m fuel ref.node ref.curPrim).map
            (List.filter (passes rayMask ∘ LeafPrim.geomMask))
      | .inst =>
          (decodeInstance m ref.node).map
            (fun prim => [prim].filter (passes rayMask ∘ LeafPrim.geomMask))
      | .internal =>
          match m ref.node with
          | some (.node node) =>
              if passes rayMask node.nodeMask then
                (sequence (fun i =>
                  if node.valid i && test (node.bounds i) then
                    (node.child ref.node i).bind (traverse fuel)
                  else some [])).map (fun found => (List.finRange 6).flatMap found)
              else some []
          | _ => none
      | .invalid => none

end traverse

namespace InternalNode

/-- The boxes that a node stores hold those that its children were given. -/
def Conservative (node : InternalNode) : Prop :=
  ∀ i, node.valid i = true → ∃ box : NonemptyInterval Vec3f, node.box i = box ∧
    (node.bounds i).1 ≤ box.fst ∧ box.snd ≤ (node.bounds i).2

structure OnGrid (parent : NonemptyInterval Vec3f) (node : InternalNode) : Prop where
  grid : HasGrid node parent
  stored : ∀ i, node.valid i = true → ∃ box : NonemptyInterval Vec3f, node.box i = box ∧
    box ≤ parent ∧ Stored node i box

variable {parent : NonemptyInterval Vec3f} {node : InternalNode}

theorem vec_le_iff {v w : Vec3f} : v ≤ w ↔ ∀ dim, component v dim ≤ component w dim := by
  constructor
  · intro h dim
    fin_cases dim
    · exact h.1
    · exact h.2.1
    · exact h.2.2
  · intro h
    exact ⟨h 0, h 1, h 2⟩

theorem OnGrid.conservative (h : OnGrid parent node) : node.Conservative := by
  intro i hi
  obtain ⟨box, hbox, hle, hstored⟩ := h.stored i hi
  have hquantized := h.grid.quantized hle hstored
  refine ⟨box, hbox, vec_le_iff.2 (fun dim => ?_), vec_le_iff.2 (fun dim => ?_)⟩
  · exact (hquantized dim).lower_le.trans (hquantized dim).conservative_lower
  · exact (hquantized dim).conservative_upper.trans (hquantized dim).le_upper

theorem onGrid_ofBounds (h : Bounded parent) (type : NodeType) :
    OnGrid parent (ofBounds parent type) where
  grid := hasGrid_ofBounds h type
  stored i hi := by
    have hinvalid : (ofBounds parent type).valid i = false :=
      valid_slot_ofBounds (parent : BBox3f) type i
    rw [hinvalid] at hi
    cases hi

theorem lowerQ_setChild_of_ne (node : InternalNode) {i j : Fin 6} (hne : j ≠ i)
    (box : NonemptyInterval Vec3f) (type : NodeType) (blockDelta curPrim : Nat) (dim : Fin 3) :
    (node.setChild i box type blockDelta curPrim).lowerQ dim j = node.lowerQ dim j ∧
      (node.setChild i box type blockDelta curPrim).upperQ dim j = node.upperQ dim j := by
  rw [setChild, lowerQ_setChildBounds, upperQ_setChildBounds, Function.update_of_ne hne,
    Function.update_of_ne hne]
  exact ⟨by fin_cases dim <;> rfl, by fin_cases dim <;> rfl⟩

theorem OnGrid.setChild (h : OnGrid parent node) (i : Fin 6) {box : NonemptyInterval Vec3f}
    (hbox : box ≤ parent) (type : NodeType) (blockDelta curPrim : Nat) :
    OnGrid parent (node.setChild i box type blockDelta curPrim) where
  grid := ⟨h.grid.lower, h.grid.exponent⟩
  stored j hj := by
    by_cases hne : j = i
    · subst hne
      refine ⟨box, ?_, hbox, stored_setChildBounds _ j box⟩
      exact congrArg Slot.box (slot_setChild node j box type blockDelta curPrim)
    · have hslot := slot_setChild_of_ne node hne (box : BBox3f) type blockDelta curPrim
      obtain ⟨box', hbox', hle, hstored⟩ := h.stored j ((congrArg Slot.valid hslot).symm.trans hj)
      have hkept := lowerQ_setChild_of_ne node hne box type blockDelta curPrim
      refine ⟨box', (congrArg Slot.box hslot).trans hbox', hle, fun dim => ?_, fun dim => ?_⟩
      · rw [(hkept dim).1]
        exact hstored.lower dim
      · rw [(hkept dim).2]
        exact hstored.upper dim

theorem OnGrid.setChildren {args : List ChildArgs} (h : OnGrid parent node)
    (hargs : ∀ c ∈ args, ∃ box : NonemptyInterval Vec3f, c.box = box ∧ box ≤ parent) (i : Nat) :
    OnGrid parent (node.setChildren i args) := by
  induction args generalizing node i with
  | nil => exact h
  | cons c args ih =>
      obtain ⟨hfirst, hrest⟩ := List.forall_mem_cons.1 hargs
      obtain ⟨box, hbox, hle⟩ := hfirst
      rw [InternalNode.setChildren, hbox]
      exact ih (h.setChild _ hle _ _ _) hrest (i + 1)

/-- The last two setters of a node leave its boxes as they are. -/
theorem Conservative.finish (h : node.Conservative) (addr childPtr : Nat) (nodeMask : BitVec 8) :
    ((node.setChildOffset addr childPtr).setNodeMask nodeMask).Conservative := h

/-- A node over a box conserves the boxes of children inside of it. -/
theorem conservative_ofBounds (bounds : BBox3f) (type : NodeType) :
    (ofBounds bounds type).Conservative := by
  intro i hi
  have hinvalid : (ofBounds bounds type).valid i = false := valid_slot_ofBounds bounds type i
  rw [hinvalid] at hi
  cases hi

theorem conservative_setChildren {bounds : BBox3f} {type : NodeType} {args : List ChildArgs}
    (h : args ≠ [] → ∃ parent : NonemptyInterval Vec3f, bounds = parent ∧ Bounded parent ∧
      ∀ c ∈ args, ∃ box : NonemptyInterval Vec3f, c.box = box ∧ box ≤ parent) :
    ((ofBounds bounds type).setChildren 0 args).Conservative := by
  by_cases hnil : args = []
  · rw [hnil, setChildren]
    exact conservative_ofBounds bounds type
  · obtain ⟨parent, rfl, hparent, hargs⟩ := h hnil
    exact ((onGrid_ofBounds hparent type).setChildren hargs 0).conservative

end InternalNode

section nodes

open InternalNode

variable {b : BuilderT} {prims : Nat → PrimRef} {r : BuildRecord}

def AllBounded (list : List PrimRef) : Prop := ∀ prim ∈ list, Bounded prim.bounds

theorem exists_unionBounds {list : List PrimRef} (hne : list ≠ []) (h : AllBounded list) :
    ∃ parent : NonemptyInterval Vec3f, unionBounds list = parent ∧ Bounded parent ∧
      ∀ prim ∈ list, prim.bounds ≤ parent := by
  induction list with
  | nil => exact absurd rfl hne
  | cons prim list ih =>
      obtain ⟨hprim, hlist⟩ := List.forall_mem_cons.1 h
      by_cases hnil : list = []
      · subst hnil
        refine ⟨prim.bounds, sup_bot_eq _, hprim, fun p hp => ?_⟩
        rw [List.mem_singleton.1 hp]
      · obtain ⟨parent, hunion, hbounded, hle⟩ := ih hnil hlist
        refine ⟨prim.bounds ⊔ parent, ?_, hprim.sup hbounded, List.forall_mem_cons.2 ⟨le_sup_left, ?_⟩⟩
        · rw [unionBounds, List.foldr_cons]
          exact congrArg (fun b => (prim.bounds : BBox3f) ⊔ b) hunion
        · exact fun p hp => (hle p hp).trans le_sup_right

/-- The box of a record whose primitives are bounded. -/
theorem BuildRecord.Describes.exists_bounds (hr : r.Describes b.getType prims)
    (h : AllBounded (r.list prims)) : ∃ box : NonemptyInterval Vec3f, r.bounds = box ∧ Bounded box ∧
      ∀ prim ∈ r.list prims, prim.bounds ≤ box := by
  rw [hr.bounds_eq]
  refine exists_unionBounds (fun hnil => ?_) h
  have hpos := hr.size_pos
  rw [← r.length_list prims, hnil] at hpos
  exact absurd hpos (Nat.lt_irrefl 0)

theorem conservative_childrenNode {nodeTy : NodeType} {children : List BuildRecord}
    {values : List ReductionTy}
    (h : ∀ c ∈ children, ∃ box : NonemptyInterval Vec3f, c.bounds = box ∧ Bounded box) :
    (childrenNode nodeTy children values).Conservative := by
  apply conservative_setChildren
  intro hne
  choose! box hbox hbounded using h
  have hchildren : children ≠ [] := by
    rintro rfl
    exact hne rfl
  let sets := children.map (fun c => ((0 : Fin 6), box c))
  have hsets : ∀ s ∈ sets, Bounded s.2 := by
    intro s hs
    obtain ⟨c, hc, rfl⟩ := List.mem_map.1 hs
    exact hbounded c hc
  obtain ⟨parent, hunion, hparent, hle⟩ := exists_union (by simpa [sets] using hchildren) hsets
  refine ⟨parent, ?_, hparent, fun c hc => ?_⟩
  · rw [← hunion, InternalNode.unionBounds, List.foldl_map]
    exact List.foldl_ext _ _ _ (fun a c hc => congrArg (a ⊔ ·) (hbox c hc))
  · obtain ⟨i, hi, rfl⟩ := List.getElem_of_mem hc
    have hi' : i < children.length := by
      rw [List.length_zipWith] at hi
      omega
    rw [List.getElem_zipWith]
    have hmem := List.getElem_mem hi'
    exact ⟨_, hbox _ hmem, hle _ (List.mem_map_of_mem hmem)⟩

def Cell.Conservative : Cell → Prop
  | .node data => data.Conservative
  | _ => True

theorem FatImage.ofRecord_conservative {ty : PrimType} (hr : r.Describes b.getType prims)
    (htype : r.type = some ty) (hsize : r.size ≤ Settings.leafSize r.type)
    (hbounded : AllBounded (r.list prims)) : (ofRecord b prims r).Forall Cell.Conservative := by
  rw [htype] at hsize
  have hnine : r.size ≤ 9 := hsize.trans (by cases ty <;> decide)
  have hcover := (fatLeafChildren_chosen (h := b.heuristic) hr hnine).cover
  have hperm : (r.list (fatLeafChildren b.heuristic prims r).1).Perm (r.list prims) :=
    hcover.rearranges.slice_perm
  obtain ⟨box, hbox, hparent, hle⟩ := hr.exists_bounds hbounded
  have hlist : ∀ prim ∈ r.list (fatLeafChildren b.heuristic prims r).1, prim.bounds ≤ box :=
    fun prim hprim => hle prim (hperm.mem_iff.1 hprim)
  have hquads : ∀ ty', (ofQuads b (fatLeafChildren b.heuristic prims r).1 r ty'
      (fatLeafChildren b.heuristic prims r).2).Forall Cell.Conservative := by
    intro ty'
    refine ⟨fun node h => (by cases h), fun addr childData => ?_, fun childData s hs => ?_⟩
    · refine Conservative.finish (conservative_childrenNode (fun c hc => ?_)) _ _ _
      have hc' : AllBounded (c.list (fatLeafChildren b.heuristic prims r).1) := fun prim hprim =>
        hbounded prim (hcover.list_perm.mem_iff.1 (List.mem_flatMap.2 ⟨c, hc, hprim⟩))
      obtain ⟨box', hbox', hparent', -⟩ := (hcover.describes c hc).exists_bounds hc'
      exact ⟨box', hbox', hparent'⟩
    · obtain ⟨c, -, leaf, -, heq⟩ := mem_createAllQuads hs
      rw [heq]
      trivial
  rw [ofRecord]
  cases b.getType (prims r.begin_).geomID with
  | triangle => exact hquads .triangle
  | quad => exact hquads .quad
  | procedural =>
      refine ⟨fun node hnode => ?_, fun addr childData => ?_, fun childData s hs => ?_⟩
      · cases hnode
        exact conservative_ofBounds _ _
      · refine Conservative.finish
          (conservative_setChildren (fun _ => ⟨box, hbox, hparent, fun c hc => ?_⟩)) _ _ _
        obtain ⟨j, hj, rfl⟩ := List.mem_iff_getElem.1 hc
        simp only [proceduralArgs, List.getElem_mapIdx]
        exact ⟨_, rfl, hlist _ (List.getElem_mem _)⟩
      · rcases List.mem_cons.1 hs with rfl | hs
        · trivial
        · obtain ⟨e, he, rfl⟩ := List.mem_map.1 hs
          trivial
  | inst =>
      refine ⟨fun node h => (by cases h), fun addr childData => ?_, fun childData s hs => ?_⟩
      · refine Conservative.finish
          (conservative_setChildren (fun _ => ⟨box, hbox, hparent, fun c hc => ?_⟩)) _ _ _
        obtain ⟨prim, hprim, rfl⟩ := List.mem_map.1 hc
        exact ⟨_, rfl, hlist prim hprim⟩
      · obtain ⟨prim, -, hcell⟩ := mem_ofInstances_stores hs
        simp only [instanceCells, List.mem_cons, List.not_mem_nil, or_false] at hcell
        rcases hcell with heq | heq
        · rw [heq]
          trivial
        · rw [heq]
          trivial

variable {t : List BuildEvent} {o : BuildOutcome}

/-- Whatever way a run of a plan ends, the nodes that it has written store conservative boxes. -/
theorem Plan.Valid.conservative {p : Plan} (hvalid : Valid b.getType prims r p) {curAddr : Option Nat}
    (h : BuildRun (p.emit b curAddr) t o) (hbounded : AllBounded (r.list prims)) :
    ∀ a cell, .emit (.write a cell) ∈ t → cell.Conservative := by
  refine hvalid.forall_writes (Q := AllBounded) (fun hlist hsub prim hprim => hlist prim (hsub hprim))
    FatImage.ofRecord_conservative (fun prims children values addr childAddr nodeMask hchildren => ?_) h
    hbounded
  refine Conservative.finish (conservative_childrenNode (fun c hc => ?_)) _ _ _
  obtain ⟨hdescribes, hc'⟩ := hchildren c hc
  obtain ⟨box, hbox, hparent, -⟩ := hdescribes.exists_bounds hc'
  exact ⟨box, hbox, hparent⟩

end nodes

section search

variable {b : BuilderT} {m : Nat → Option Cell} {test : Vec3f × Vec3f → Bool} {rayMask : BitVec 8}

/-- A ray that meets a box meets every box around it. -/
def MeetsLarger (test : Vec3f × Vec3f → Bool) : Prop :=
  ∀ (box : NonemptyInterval Vec3f) (outer : Vec3f × Vec3f),
    outer.1 ≤ box.fst → box.snd ≤ outer.2 → test (box.fst, box.snd) = true → test outer = true

def hits (b : BuilderT) (test : Vec3f × Vec3f → Bool) (rayMask : BitVec 8) (prim : PrimRef) : Bool :=
  test (prim.bounds.fst, prim.bounds.snd) && passes rayMask (leafPrim b prim).geomMask

theorem passes_iff {mask : BitVec 8} : passes rayMask mask = true ↔ mask &&& rayMask ≠ 0 := bne_iff_ne

theorem passes_or {mask mask' : BitVec 8} :
    passes rayMask (mask ||| mask') = true ↔
      passes rayMask mask = true ∨ passes rayMask mask' = true := by
  have hall : (mask ||| mask') &&& rayMask = (mask &&& rayMask) ||| (mask' &&& rayMask) := by
    ext i hi
    simp [Bool.and_or_distrib_right]
  rw [passes_iff, passes_iff, passes_iff, hall]
  exact (not_congr BitVec.or_eq_zero_iff).trans not_and_or

theorem passes_unionMask {list : List PrimRef} {prim : PrimRef} (hprim : prim ∈ list)
    (h : passes rayMask (leafPrim b prim).geomMask = true) :
    passes rayMask (unionMask b list) = true := by
  induction list with
  | nil => cases hprim
  | cons head list ih =>
      rw [unionMask_cons, passes_or]
      rcases List.mem_cons.1 hprim with rfl | hprim
      · exact Or.inl h
      · exact Or.inr (ih hprim)

theorem of_sequence_eq_some {α : Type} {n : Nat} {f : Fin n → Option α} {g : Fin n → α}
    (h : sequence f = some g) (i : Fin n) : f i = some (g i) := by
  rw [sequence] at h
  split at h
  next hsome =>
    cases h
    exact (Option.some_get (hsome i)).symm
  · cases h

abbrev StoredTree := WideTree 6 (BitVec 8) (Vec3f × Vec3f) PrimRef

def StoredTree.search (b : BuilderT) (test : Vec3f × Vec3f → Bool) (rayMask : BitVec 8)
    (s : StoredTree) : List PrimRef :=
  s.visit (passes rayMask) test (fun prim => passes rayMask (leafPrim b prim).geomMask)

theorem filter_map_leafPrim (list : List PrimRef) :
    (list.map (leafPrim b)).filter (passes rayMask ∘ LeafPrim.geomMask) =
      (StoredTree.search b test rayMask (.leaf list)).map (leafPrim b) :=
  List.filter_map

/-- A leaf is searched as it is read. -/
theorem exists_leaf (test : Vec3f × Vec3f → Bool) (rayMask : BitVec 8)
    {tree : WideTree 6 (BitVec 8) BBox3f PrimRef} {list : List LeafPrim}
    (h : WideTree.leaf list = tree.map (leafPrim b)) :
    ∃ s : StoredTree, list.filter (passes rayMask ∘ LeafPrim.geomMask) =
        (s.search b test rayMask).map (leafPrim b) ∧
      s.prims = tree.prims ∧ s.Admits (passes rayMask) test (hits b test rayMask) := by
  cases tree with
  | absent => cases h
  | node mask box child => cases h
  | leaf list' =>
      injection h with h
      subst h
      exact ⟨.leaf list', filter_map_leafPrim list', rfl, trivial⟩

/-- What a search below a node finds, given what it finds below each child that is there. -/
theorem exists_node {node : InternalNode} (hnode : node.Conservative) (htest : MeetsLarger test)
    {child : Fin 6 → WideTree 6 (BitVec 8) BBox3f PrimRef} {below : Fin 6 → Option (List LeafPrim)}
    (hchild : ∀ i, ∃ s : StoredTree, (node.valid i = true → below i =
        some ((s.search b test rayMask).map (leafPrim b))) ∧ (node.valid i = false → s = .absent) ∧
      s.prims = (child i).prims ∧ s.Admits (passes rayMask) test (hits b test rayMask))
    (hmask : node.nodeMask = unionMask b (WideTree.node node.nodeMask node.box child).prims)
    (hbox : ∀ i, child i ≠ .absent → node.box i = unionBounds (child i).prims) :
    ∃ s : StoredTree, (if passes rayMask node.nodeMask then
        (sequence (fun i => if node.valid i && test (node.bounds i) then below i else some [])).map
          (fun found => (List.finRange 6).flatMap found)
        else some []) = some ((s.search b test rayMask).map (leafPrim b)) ∧
      s.prims = (WideTree.node node.nodeMask node.box child).prims ∧
      s.Admits (passes rayMask) test (hits b test rayMask) := by
  choose s hvalid hinvalid hprims hadmits using hchild
  refine ⟨.node node.nodeMask node.bounds s, ?_, ?_, fun i prim hprim hhit => ?_, hadmits⟩
  · have hsequence :
        sequence (fun i => if node.valid i && test (node.bounds i) then below i else some []) =
        some (fun i => if test (node.bounds i) then ((s i).search b test rayMask).map (leafPrim b)
          else []) := by
      apply sequence_eq_some
      intro i
      cases hv : node.valid i with
      | true => cases htest : test (node.bounds i) <;> simp [hvalid i hv]
      | false => simp [hinvalid i hv, StoredTree.search, WideTree.visit]
    rw [hsequence, StoredTree.search, WideTree.visit]
    split
    · rw [Option.map_some, List.map_flatMap]
      congr 2
      funext i
      rw [apply_ite (List.map (leafPrim b))]
      rfl
    · rfl
  · simp only [WideTree.prims, hprims]
  · rw [hprims] at hprim
    obtain ⟨hmeets, hpasses⟩ := Bool.and_eq_true_iff.1 hhit
    have hbelow : prim ∈ (WideTree.node node.nodeMask node.box child).prims :=
      List.mem_flatMap.2 ⟨i, List.mem_finRange i, hprim⟩
    have hpresent : child i ≠ .absent := by
      intro habsent
      rw [habsent] at hprim
      cases hprim
    have hv : node.valid i = true := by
      cases hv : node.valid i with
      | true => rfl
      | false =>
          rw [← hprims i, hinvalid i hv] at hprim
          cases hprim
    refine ⟨hmask ▸ passes_unionMask hbelow hpasses, ?_⟩
    obtain ⟨box, heq, hlower, hupper⟩ := hnode i hv
    have hle : prim.bounds ≤ box := by
      have hle := le_unionBounds hprim
      rw [← hbox i hpresent, heq] at hle
      exact WithBot.coe_le_coe.1 hle
    exact htest prim.bounds _ (hlower.trans hle.1) (hle.2.trans hupper) hmeets

/-- A search through memory is that of a tree with the same primitives, in which no stored box keeps a
ray from a primitive that it meets. -/
theorem traverse_eq_search (rayMask : BitVec 8)
    (hm : ∀ addr node, m addr = some (.node node) → node.Conservative)
    (htest : MeetsLarger test) {fuel : Nat} {ref : NodeRef}
    {tree : WideTree 6 (BitVec 8) BBox3f PrimRef}
    (h : decode m fuel ref = some (tree.map (leafPrim b))) (hmasked : tree.Masked (unionMask b))
    (hbounded : tree.Bounded unionBounds) :
    ∃ s : StoredTree, traverse m test rayMask fuel ref =
        some ((s.search b test rayMask).map (leafPrim b)) ∧
      s.prims = tree.prims ∧ s.Admits (passes rayMask) test (hits b test rayMask) := by
  induction fuel generalizing ref tree with
  | zero => cases h
  | succ fuel ih =>
      rw [decode] at h
      rw [traverse]
      cases htype : ref.type with
      | invalid =>
          rw [htype] at h
          cases h
      | quad =>
          rw [htype] at h
          obtain ⟨list, hlist, heq⟩ := Option.map_eq_some_iff.1 h
          obtain ⟨s, hs, hrest⟩ := exists_leaf test rayMask heq
          exact ⟨s, by simp only [hlist, Option.map_some, hs], hrest⟩
      | procedural =>
          rw [htype] at h
          obtain ⟨list, hlist, heq⟩ := Option.map_eq_some_iff.1 h
          obtain ⟨s, hs, hrest⟩ := exists_leaf test rayMask heq
          exact ⟨s, by simp only [hlist, Option.map_some, hs], hrest⟩
      | inst =>
          rw [htype] at h
          obtain ⟨prim, hprim, heq⟩ := Option.map_eq_some_iff.1 h
          obtain ⟨s, hs, hrest⟩ := exists_leaf test rayMask heq
          exact ⟨s, by simp only [hprim, Option.map_some, hs], hrest⟩
      | internal =>
          rw [htype] at h
          cases hcell : m ref.node with
          | none => simp [hcell] at h
          | some cell =>
              cases cell with
              | node node =>
                  simp only [hcell] at h
                  obtain ⟨child', hsequence, heq⟩ := Option.map_eq_some_iff.1 h
                  cases tree with
                  | absent => cases heq
                  | leaf list => cases heq
                  | node mask box child =>
                      injection heq with hmask' hbox' hchild'
                      subst hmask' hbox' hchild'
                      refine exists_node (hm _ _ hcell) htest (fun i => ?_) hmasked.1 hbounded.1
                      have hi := of_sequence_eq_some hsequence i
                      cases hv : node.valid i with
                      | true =>
                          rw [hv, if_pos rfl] at hi
                          obtain ⟨ref', href, hdecode⟩ := Option.bind_eq_some_iff.1 hi
                          obtain ⟨s, hs, hrest⟩ := ih hdecode (hmasked.2 i) (hbounded.2 i)
                          exact ⟨s, fun _ => by rw [href, Option.bind_some, hs],
                            fun h => (by cases h), hrest⟩
                      | false =>
                          rw [hv] at hi
                          have habsent : child i = .absent := by
                            cases hc : child i with
                            | absent => rfl
                            | leaf list => simp [hc, WideTree.map] at hi
                            | node mask box child => simp [hc, WideTree.map] at hi
                          refine ⟨.absent, fun h => (by cases h), fun _ => rfl, ?_, trivial⟩
                          rw [habsent]
                          rfl
              | _ => simp [hcell] at h

end search

section build

variable {b : BuilderT} {prims : Nat → PrimRef} {pinfo : PrimInfoRange} {t : List BuildEvent}
  {v : ReductionTy} {fuel endBytes cur : Nat}

theorem storesAt_headers {addr : Nat} (h : headerBytes ≤ addr) :
    storesAt (consecutive 0 [.header, .header]) addr = [] := by
  have hnode : nodeBytes = 64 := rfl
  have hheader : headerBytes = 128 := rfl
  have hfirst : addr ≠ 0 := by omega
  have hsecond : addr ≠ 64 := by omega
  simp [storesAt, consecutive, hnode, hfirst.symm, hsecond.symm]

/-- The writes of a whole build behind its header are those of its BVH. -/
theorem writesAt_done {header root : Option Nat} {bounds : BBox3f} {bytes : Option Nat}
    {r : ReductionTy} {addr : Nat} (h : headerBytes ≤ addr) :
    writesAt (mallocRoots header root ++ (t ++ doneEvents bounds bytes r)) addr = writesAt t addr := by
  have hdone : writesAt (doneEvents bounds bytes r) addr = [] := by
    change writesAt (storeEvents (consecutive 0 [.header, .header]) ++ [_]) addr = []
    rw [writesAt_append, writesAt_storeEvents, storesAt_headers h]
    rfl
  have hroots : writesAt (mallocRoots header root) addr = [] := rfl
  rw [writesAt_append, writesAt_append, hdone, hroots, List.nil_append, List.append_nil]

/-- A build that ends with a valid value has a block for its root. -/
theorem build_done (hrun : BufferRun endBytes (build b fuel prims pinfo) 0 t (.ret v) cur)
    (hv : v.valid = true) : ∃ t' bytes cur',
      t = mallocRoots (some 0) (some headerBytes) ++ (t' ++ doneEvents pinfo.geomBounds bytes v) ∧
        headerBytes + nodeBytes < endBytes ∧
        BufferRun endBytes (buildBvh b fuel prims pinfo (some headerBytes))
          (headerBytes + nodeBytes) t' (.ret v) cur' := by
  generalize ho : Outcome.ret v = o at hrun
  cases build_run hrun.1 with
  | threw header root t x h => cases ho
  | retry header root t w h hw =>
      cases ho
      rw [hv] at hw
      cases hw
  | done header root t w bytes h hw =>
      cases ho
      rcases roots_answered hrun.2 with ⟨hlt, rfl, rfl, hanswered⟩ | ⟨hle, rfl, cur₁, hcur, hanswered⟩
      · obtain ⟨cur', ht, -⟩ := hanswered.of_append
        exact ⟨t, bytes, cur', rfl, hlt, h, ht⟩
      · obtain ⟨cur', ht, -⟩ := hanswered.of_append
        have hfull := blocks_eq_nil ht hcur
        rcases buildBvh_run h with ⟨-, -, heq⟩ | ⟨-, h⟩
        · cases heq
          cases hw
        · rw [(Plan.null_root h hfull).1 v rfl] at hw
          cases hw

/-- Apart from the BVH, a build writes the header. -/
theorem writes_done {header root : Option Nat} {bounds : BBox3f} {bytes a : Option Nat}
    {r : ReductionTy} {cell : Cell}
    (h : .emit (.write a cell) ∈ mallocRoots header root ++ (t ++ doneEvents bounds bytes r)) :
    .emit (.write a cell) ∈ t ∨
      cell = .header ∧ ∃ addr, a = some addr ∧ Inside 0 headerBytes addr := by
  simp only [mallocRoots, doneEvents, List.mem_append, List.mem_cons, List.not_mem_nil, or_false] at h
  rcases h with (he | he | he) | he | he | he | he | he | he
  · cases he
  · cases he
  · cases he
  · exact Or.inl he
  · cases he
  · cases he
  · cases he
  · obtain ⟨s, hs, heq⟩ := List.mem_map.1 he
    cases heq
    refine Or.inr ⟨?_, s.1, rfl, consecutive_inside hs⟩
    simp only [consecutive, List.mapIdx_cons, List.mapIdx_nil, List.mem_cons, List.not_mem_nil,
      or_false] at hs
    rcases hs with rfl | rfl <;> rfl
  · cases he

/-- What a build leaves in memory when it ends with a valid value. -/
inductive Built (b : BuilderT) (m : Nat → Option Cell) (list : List PrimRef) : Prop
  | empty (hlist : list = []) (hroot : m headerBytes = some (.node (.ofType .internal)))
  | root (tree : WideTree 6 (BitVec 8) BBox3f PrimRef)
      (htree : Represents b m ⟨headerBytes, .internal, 0⟩ list tree)

theorem rootRecord_describes (hpos : 0 < (rootRecord pinfo).size)
    (hbounds : (rootRecord pinfo).bounds = unionBounds ((rootRecord pinfo).list prims)) :
    (rootRecord pinfo).Describes b.getType prims :=
  ⟨Nat.lt_of_sub_pos hpos, hbounds, fun ty hty => (by cases hty)⟩

theorem memory_done {bounds : BBox3f} {bytes : Option Nat} {r : ReductionTy} {addr : Nat}
    (haddr : headerBytes ≤ addr) :
    memory (mallocRoots (some 0) (some headerBytes) ++ (t ++ doneEvents bounds bytes r)) addr =
      (writesAt t addr).getLast? := by
  rw [memory, writesAt_done haddr]

/-- The plan of such a build is kept. Its blocks lie behind the header and the root. -/
theorem Plan.Valid.kept_done {p : Plan} {r : BuildRecord} {bounds : BBox3f} {bytes : Option Nat}
    {w : ReductionTy}
    (hvalid : Plan.Valid b.getType prims r p) (hend : endBytes ≤ 2 ^ 37)
    (hrun : BufferRun endBytes (p.emit b (some headerBytes)) (headerBytes + nodeBytes) t (.ret v) cur)
    (hv : v.valid = true) :
    p.Kept b (memory (mallocRoots (some 0) (some headerBytes) ++ (t ++ doneEvents bounds bytes w)))
      headerBytes v := by
  have hout := handedOut hrun.2
  refine hvalid.kept hrun.1 hv (Plan.layout hrun rfl rfl le_rfl) ?_
    (fun addr hwrites => memory_done ?_)
  · refine Plan.asserts hrun.1 (show 128 < 2 ^ 37 by norm_num) (fun block hblock => ?_)
    exact (hout.inside block hblock).2.2.trans_le hend
  · obtain ⟨cell, hcell⟩ := mem_of_writesAt hwrites
    obtain ⟨a, ha, hplace⟩ := hvalid.writes hrun.1 (some addr) cell hcell
    cases ha
    rcases hplace with rfl | ⟨block, hblock, hinside⟩
    · exact le_rfl
    · have hbase := (hout.inside block hblock).1
      have hle := hinside.base_le
      omega

/-- Every build that ends with a valid value, in a buffer of up to 128 GiB, leaves a BVH of all
primitives. -/
theorem build_built (hbounds : (rootRecord pinfo).bounds = unionBounds ((rootRecord pinfo).list prims))
    (hend : endBytes ≤ 2 ^ 37) (hrun : BufferRun endBytes (build b fuel prims pinfo) 0 t (.ret v) cur)
    (hv : v.valid = true) : Built b (memory t) ((rootRecord pinfo).list prims) := by
  obtain ⟨t, bytes, cur', rfl, hlt, h, ht⟩ := build_done hrun hv
  rcases buildBvh_run h with ⟨hzero, rfl, -⟩ | ⟨hpos, h⟩
  · refine .empty ?_ ((memory_done le_rfl).trans rfl)
    rw [← List.length_eq_zero_iff, BuildRecord.length_list, hzero]
  · have hvalid := Plan.internalNode_valid fuel (rootRecord_describes (b := b) hpos hbounds)
    obtain ⟨⟨tree, htree⟩, -⟩ := hvalid.represents (hvalid.kept_done hend ⟨h, ht⟩ hv)
    exact .root tree htree

/-- The cells that such a build leaves are aligned and in its buffer. -/
theorem build_inside (hbounds : (rootRecord pinfo).bounds = unionBounds ((rootRecord pinfo).list prims))
    (hrun : BufferRun endBytes (build b fuel prims pinfo) 0 t (.ret v) cur) (hv : v.valid = true)
    {addr : Nat} {cell : Cell} (hm : memory t addr = some cell) :
    addr % 64 = 0 ∧ addr + 64 ≤ endBytes := by
  obtain ⟨t, bytes, cur', rfl, hlt, h, ht⟩ := build_done hrun hv
  have hheader : headerBytes = 128 := rfl
  have hnode : nodeBytes = 64 := rfl
  have hroot : headerBytes % 64 = 0 ∧ headerBytes + 64 ≤ endBytes := by omega
  rcases writes_done (mem_of_memory hm) with he | ⟨-, addr', heq, -, hle, hmod⟩
  · rcases buildBvh_run h with ⟨-, rfl, -⟩ | ⟨hpos, h⟩
    · cases List.mem_singleton.1 he
      exact hroot
    · have hvalid := Plan.internalNode_valid fuel (rootRecord_describes (b := b) hpos hbounds)
      obtain ⟨a, ha, hplace⟩ := hvalid.writes h (some addr) cell he
      cases ha
      rcases hplace with rfl | ⟨block, hblock, hinside⟩
      · exact hroot
      · have hlayout : Layout headerBytes t := Plan.layout ⟨h, ht⟩ rfl rfl le_rfl
        have hmod := hlayout.base_mod block hblock
        have hend := ((handedOut ht).inside block hblock).2.2
        have hle := hinside.le_end
        exact ⟨hinside.mod_eq.trans hmod, by omega⟩
  · cases heq
    exact ⟨hmod, by omega⟩

/-- All cells that such a build leaves have a property that headers, empty nodes and the cells of plans
have. -/
theorem build_forall {P : Cell → Prop} (hheader : P .header) (hempty : P (.node (.ofType .internal)))
    (hplan : ∀ {p : Plan} {t : List BuildEvent}, Plan.Valid b.getType prims (rootRecord pinfo) p →
      BuildRun (p.emit b (some headerBytes)) t (.ret v) → ∀ a cell, .emit (.write a cell) ∈ t → P cell)
    (hbounds : (rootRecord pinfo).bounds = unionBounds ((rootRecord pinfo).list prims))
    (hrun : BufferRun endBytes (build b fuel prims pinfo) 0 t (.ret v) cur) (hv : v.valid = true)
    {addr : Nat} {cell : Cell} (hm : memory t addr = some cell) : P cell := by
  obtain ⟨t, bytes, cur', rfl, hlt, h, ht⟩ := build_done hrun hv
  rcases writes_done (mem_of_memory hm) with he | ⟨rfl, -⟩
  · rcases buildBvh_run h with ⟨-, rfl, -⟩ | ⟨hpos, h⟩
    · cases List.mem_singleton.1 he
      exact hempty
    · exact hplan (Plan.internalNode_valid fuel (rootRecord_describes hpos hbounds)) h _ cell he
  · exact hheader

/-- The nodes that such a build leaves store conservative boxes. -/
theorem build_conservative
    (hbounds : (rootRecord pinfo).bounds = unionBounds ((rootRecord pinfo).list prims))
    (hbounded : AllBounded ((rootRecord pinfo).list prims))
    (hrun : BufferRun endBytes (build b fuel prims pinfo) 0 t (.ret v) cur) (hv : v.valid = true)
    {addr : Nat} {node : InternalNode} (hm : memory t addr = some (.node node)) :
    node.Conservative :=
  build_forall (P := Cell.Conservative) True.intro (InternalNode.conservative_ofBounds ⊥ _)
    (fun hvalid h => hvalid.conservative h hbounded) hbounds hrun hv hm

/-- The node of an empty scene has no child. -/
theorem traverse_empty {m : Nat → Option Cell} {addr steps : Nat} {test : Vec3f × Vec3f → Bool}
    {rayMask : BitVec 8} (hm : m addr = some (.node (.ofType .internal))) :
    traverse m test rayMask (steps + 1) ⟨addr, .internal, 0⟩ = some [] := by
  have hvalid : ∀ i, (InternalNode.ofType .internal).valid i = false := by decide
  have hsequence : sequence (fun i : Fin 6 =>
      if (InternalNode.ofType .internal).valid i && test ((InternalNode.ofType .internal).bounds i) then
        ((InternalNode.ofType .internal).child addr i).bind (traverse m test rayMask steps)
      else some []) = some (fun _ => []) := by
    apply sequence_eq_some
    intro i
    rw [hvalid i, Bool.false_and]
    rfl
  rw [traverse]
  simp only [hm, hsequence]
  split <;> rfl

/-- What a ray has to find, and what it can find at most. -/
structure Finds (b : BuilderT) (test : Vec3f × Vec3f → Bool) (rayMask : BitVec 8)
    (list : List PrimRef) (found : List LeafPrim) : Prop where
  complete : ((list.filter (hits b test rayMask)).map (leafPrim b)).Subperm found
  sound : found.Subperm ((list.map (leafPrim b)).filter (passes rayMask ∘ LeafPrim.geomMask))

theorem finds_search {s : StoredTree} {list : List PrimRef} {test : Vec3f × Vec3f → Bool}
    {rayMask : BitVec 8} (hperm : s.prims.Perm list)
    (h : s.Admits (passes rayMask) test (hits b test rayMask)) :
    Finds b test rayMask list ((s.search b test rayMask).map (leafPrim b)) := by
  constructor
  · have hsub : ((s.prims.filter (hits b test rayMask)).map (leafPrim b)).Sublist
        ((s.search b test rayMask).map (leafPrim b)) :=
      (WideTree.filter_sublist_visit (fun p hp => (Bool.and_eq_true_iff.1 hp).2) h).map _
    exact ((hperm.filter _).map _).symm.subperm.trans hsub.subperm
  · rw [List.filter_map]
    have hsub : (s.search b test rayMask).Sublist
        (s.prims.filter ((passes rayMask ∘ LeafPrim.geomMask) ∘ leafPrim b)) := s.visit_sublist
    exact (hsub.map _).subperm.trans ((hperm.filter _).map _).subperm

theorem Built.traverse {m : Nat → Option Cell} {list : List PrimRef} (h : Built b m list)
    (hm : ∀ addr node, m addr = some (.node node) → node.Conservative) :
    ∃ n, ∀ steps, n ≤ steps → ∀ test rayMask, MeetsLarger test →
      ∃ found, traverse m test rayMask steps ⟨headerBytes, .internal, 0⟩ = some found ∧
        Finds b test rayMask list found := by
  cases h with
  | empty hlist hroot =>
      refine ⟨1, fun steps hsteps test rayMask _ => ⟨[], ?_, ?_, ?_⟩⟩
      · obtain ⟨steps, rfl⟩ := Nat.exists_eq_add_of_le' hsteps
        exact traverse_empty hroot
      · rw [hlist]
        exact List.Subperm.refl _
      · exact List.nil_subperm
  | root tree htree =>
      obtain ⟨n, hdecode⟩ := htree.decoded
      refine ⟨n, fun steps hsteps test rayMask htest => ?_⟩
      obtain ⟨s, hs, hprims, hadmits⟩ := traverse_eq_search rayMask hm htest
        (hdecode steps hsteps) htree.masked htree.bounded
      exact ⟨_, hs, finds_search (hprims ▸ htree.perm) hadmits⟩

/-- A ray finds every primitive whose box it meets and that it does not cull, once for each time that
it was given to the builder, and nothing else than these primitives. -/
theorem build_traverse (b : BuilderT) (fuel endBytes : Nat) (prims : Nat → PrimRef)
    (pinfo : PrimInfoRange) (t : List BuildEvent) (v : ReductionTy) (cur : Nat)
    (hbounds : (rootRecord pinfo).bounds = unionBounds ((rootRecord pinfo).list prims))
    (hbounded : AllBounded ((rootRecord pinfo).list prims)) (hend : endBytes ≤ 2 ^ 37)
    (hrun : BufferRun endBytes (build b fuel prims pinfo) 0 t (.ret v) cur) (hv : v.valid = true) :
    ∃ n, ∀ steps, n ≤ steps → ∀ test rayMask, MeetsLarger test →
      ∃ found, traverse (memory t) test rayMask steps ⟨headerBytes, .internal, 0⟩ = some found ∧
        Finds b test rayMask ((rootRecord pinfo).list prims) found := by
  exact (build_built hbounds hend hrun hv).traverse
    (fun addr node hm => build_conservative hbounds hbounded hrun hv hm)

/-- A buffer that is large enough has a build in it that succeeds. -/
theorem exists_valid_build (hfuel : 30 ≤ fuel)
    (hbounds : (rootRecord pinfo).bounds = unionBounds ((rootRecord pinfo).list prims))
    (hsize : (rootRecord pinfo).size ≤ 98304)
    (hbytes : builtBytes b fuel prims pinfo < endBytes) :
    ∃ t v cur, BufferRun endBytes (build b fuel prims pinfo) 0 t (.ret v) cur ∧ v.valid = true := by
  obtain ⟨t, o, cur, hrun⟩ := exists_bufferRun endBytes (build b fuel prims pinfo) 0
  have hroot : ∀ {header root t cur}, Answered (Serves endBytes) 0 (mallocRoots header root ++ t) cur →
      root = some headerBytes ∧ Answered (Serves endBytes) 192 t cur := by
    intro header root t cur h
    rcases roots_answered h with ⟨-, -, hroot, hrest⟩ | ⟨hle, -⟩
    · exact ⟨hroot, hrest⟩
    · exact absurd (le_builtBytes.trans_lt hbytes) (Nat.not_lt.2 hle)
  cases build_run hrun.1 with
  | threw header root t x h => exact (buildBvh_not_throw hfuel hbounds hsize h x rfl).elim
  | retry header root t v h hv =>
      obtain ⟨rfl, ht⟩ := hroot hrun.2
      have hnever := neverFull_of_lt ht ((buildBvh_bytes_le h).trans_lt hbytes)
      rw [buildBvh_valid h hnever v rfl] at hv
      cases hv
  | done header root t v bytes h hv => exact ⟨_, v, cur, hrun, hv⟩

theorem exists_mixedBuild : ∃ t v cur, BufferRun 16384
    (build (.line mixedTypes) 30 (linePrims 4) (lineInfo 4 24)) 0 t (.ret v) cur ∧ v.valid = true :=
  exists_valid_build le_rfl (lineInfo_describes (by decide) mixedTypes).bounds_eq
    (show 24 - 0 ≤ 98304 by decide) builtBytes_mixed

def origin : Vec3f × Vec3f → Bool := fun box => box.1 ≤ 0 ∧ 0 ≤ box.2

theorem meetsLarger_origin : MeetsLarger origin := by
  intro box outer hlower hupper h
  obtain ⟨hfst, hsnd⟩ := of_decide_eq_true h
  exact decide_eq_true ⟨hlower.trans hfst, hsnd.trans hupper⟩

/-- A ray through the first ten primitives. -/
def startOfLine : Vec3f × Vec3f → Bool := fun box => box.1 ≤ (9, 0, 0) ∧ 0 ≤ box.2

theorem meetsLarger_startOfLine : MeetsLarger startOfLine := by
  intro box outer hlower hupper h
  obtain ⟨hfst, hsnd⟩ := of_decide_eq_true h
  exact decide_eq_true ⟨hlower.trans hfst, hsnd.trans hupper⟩

theorem build_traverse_mixed : ∃ t v cur found n,
    BufferRun 16384 (build (.line mixedTypes) 30 (linePrims 4) (lineInfo 4 24)) 0 t (.ret v) cur ∧
      traverse (memory t) startOfLine 1 n ⟨headerBytes, .internal, 0⟩ = some found ∧
        10 ≤ found.length := by
  obtain ⟨t, v, cur, hrun, hv⟩ := exists_mixedBuild
  have hbounded : AllBounded ((rootRecord (lineInfo 4 24)).list (linePrims 4)) := by
    intro prim hprim
    rw [BuildRecord.list_eq_map] at hprim
    obtain ⟨i, hi, rfl⟩ := List.mem_map.1 hprim
    have hlt : (i : ℚ) < 24 := by exact_mod_cast (BuildRecord.mem_indices.1 hi).2
    intro dim
    fin_cases dim
    · have habs : |(i : ℚ)| < InternalNode.fltLarge := by
        rw [Nat.abs_cast]
        exact hlt.trans (by norm_num [InternalNode.fltLarge])
      exact ⟨habs, habs⟩
    all_goals exact ⟨by norm_num [component, linePrims, InternalNode.fltLarge],
      by norm_num [component, linePrims, InternalNode.fltLarge]⟩
  obtain ⟨n, hn⟩ := build_traverse (.line mixedTypes) 30 16384 (linePrims 4) (lineInfo 4 24) t v cur
    (lineInfo_describes (by decide) mixedTypes).bounds_eq hbounded (by norm_num) hrun hv
  obtain ⟨found, hfound, hcomplete, -⟩ := hn n le_rfl startOfLine 1 meetsLarger_startOfLine
  have hhits : (((rootRecord (lineInfo 4 24)).list (linePrims 4)).filter
      (hits (.line mixedTypes) startOfLine 1)).length = 10 := by decide +kernel
  have hle := hcomplete.length_le
  rw [List.length_map, hhits] at hle
  exact ⟨t, v, cur, found, n, hrun, hfound, hle⟩

end build

end RTBuild
