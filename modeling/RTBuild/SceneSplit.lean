import RTBuild.Descriptors
import RTBuild.ScratchBuffer

namespace RTBuild

open InternalNode Library Library.Segment OpenInstance
open Library.Chunk (store)

def InternalNode.allBounds (node : InternalNode) : Option (Vec3f × Vec3f) :=
  ((List.finRange 6).filter node.valid).foldl (fun b i => some (match b with
    | none => node.bounds i
    | some b => (b.1 ⊓ (node.bounds i).1, b.2 ⊔ (node.bounds i).2))) none

namespace BvhNode

def worldBounds (local2world : AffineSpace3f) (node : BvhNode) : Option (NonemptyInterval Vec3f) :=
  node.data.allBounds.bind (fun b => (local2world.xfmBounds b).toBounds)

/-- A point of the boxes on the way to a fat leaf, and of one in it. -/
def Reaches (y : Vec3f) (leaf : BitVec 64) : BvhNode → Prop
  | fatLeaf addr data =>
      addr = leaf ∧ ∃ i, data.valid i = true ∧ (data.bounds i).1 ≤ y ∧ y ≤ (data.bounds i).2
  | inner _ data child =>
      ∃ i, data.valid i = true ∧ (data.bounds i).1 ≤ y ∧ y ≤ (data.bounds i).2 ∧
        (child i).Reaches y leaf

variable {y : Vec3f} {leaf : BitVec 64} {root node : BvhNode}

theorem mem_fatLeaves (h : root.Reaches y leaf) : leaf ∈ root.fatLeaves := by
  induction root with
  | fatLeaf addr data => exact List.mem_singleton.2 h.1.symm
  | inner addr data child ih =>
      obtain ⟨i, hi, -, -, hchild⟩ := h
      exact List.mem_flatMap.2 ⟨i, List.mem_filter.2 ⟨List.mem_finRange i, hi⟩, ih i hchild⟩

theorem fatLeaves_subset (h : node ∈ root.nodes) : ∀ leaf ∈ node.fatLeaves, leaf ∈ root.fatLeaves := by
  induction root with
  | fatLeaf addr data =>
      rw [List.mem_singleton.1 h]
      exact fun leaf hleaf => hleaf
  | inner addr data child ih =>
      rcases List.mem_cons.1 h with rfl | h
      · exact fun leaf hleaf => hleaf
      · obtain ⟨i, hi, hmem⟩ := List.mem_flatMap.1 h
        exact fun leaf hleaf => List.mem_flatMap.2 ⟨i, hi, ih i hmem leaf hleaf⟩

/-- The way to a fat leaf leads through all nodes that it is below of. -/
theorem reaches_of_mem (h : root.Reaches y leaf) (hnodup : root.fatLeaves.Nodup)
    (hnode : node ∈ root.nodes) (hleaf : leaf ∈ node.fatLeaves) : node.Reaches y leaf := by
  induction root with
  | fatLeaf addr data =>
      rw [List.mem_singleton.1 hnode]
      exact h
  | inner addr data child ih =>
      rcases List.mem_cons.1 hnode with rfl | hmem
      · exact h
      · obtain ⟨i, hi, hmem⟩ := List.mem_flatMap.1 hmem
        obtain ⟨j, hj, -, -, hchild⟩ := h
        have hj' : j ∈ (List.finRange 6).filter data.valid := List.mem_filter.2 ⟨List.mem_finRange j, hj⟩
        have hsame : j = i := by
          by_contra hne
          have : Std.Symm (Function.onFun List.Disjoint (fun i => (child i).fatLeaves)) :=
            ⟨fun _ _ h => h.symm⟩
          have hdisjoint := (List.nodup_flatMap.1 hnodup).2.forall hj' hi hne
          exact hdisjoint (mem_fatLeaves hchild) (fatLeaves_subset hmem leaf hleaf)
        subst hsame
        have hsub : (child j).fatLeaves.Nodup := (List.nodup_flatMap.1 hnodup).1 j hj'
        exact ih j hchild hsub hmem

theorem exists_allBounds {data : InternalNode} {i : Fin 6} (hi : data.valid i = true)
    (hlower : (data.bounds i).1 ≤ y) (hupper : y ≤ (data.bounds i).2) :
    ∃ b, data.allBounds = some b ∧ b.1 ≤ y ∧ y ≤ b.2 := by
  have hfold : ∀ (l : List (Fin 6)) (b : Option (Vec3f × Vec3f)),
      (i ∈ l ∨ ∃ b', b = some b' ∧ b'.1 ≤ y ∧ y ≤ b'.2) →
      ∃ b', l.foldl (fun b i => some (match b with
        | none => data.bounds i
        | some b => (b.1 ⊓ (data.bounds i).1, b.2 ⊔ (data.bounds i).2))) b = some b' ∧
          b'.1 ≤ y ∧ y ≤ b'.2 := by
    intro l
    induction l with
    | nil =>
        rintro b (h | h)
        · cases h
        · exact h
    | cons j l ih =>
        intro b h
        apply ih
        rcases h with h | ⟨b', rfl, hlower', hupper'⟩
        · rcases List.mem_cons.1 h with rfl | h
          · refine Or.inr ⟨_, rfl, ?_⟩
            cases b with
            | none => exact ⟨hlower, hupper⟩
            | some b => exact ⟨inf_le_right.trans hlower, hupper.trans le_sup_right⟩
          · exact Or.inl h
        · exact Or.inr ⟨_, rfl, inf_le_left.trans hlower', hupper'.trans le_sup_left⟩
  exact hfold _ none (Or.inl (List.mem_filter.2 ⟨List.mem_finRange i, hi⟩))

/-- The box of an opened node has the points by which leaves are reached below it. -/
theorem mem_worldBounds (m : AffineSpace3f) (h : node.Reaches y leaf) :
    ∃ box, node.worldBounds m = some box ∧ m.xfmPoint y ∈ box := by
  have hbounds : ∃ i, node.data.valid i = true ∧ (node.data.bounds i).1 ≤ y ∧
      y ≤ (node.data.bounds i).2 := by
    cases node with
    | fatLeaf addr data => exact h.2
    | inner addr data child =>
        obtain ⟨i, hi, hlower, hupper, -⟩ := h
        exact ⟨i, hi, hlower, hupper⟩
  obtain ⟨i, hi, hlower, hupper⟩ := hbounds
  obtain ⟨b, hb, hlower', hupper'⟩ := exists_allBounds hi hlower hupper
  obtain ⟨box, hbox⟩ := m.exists_xfmBounds b
  refine ⟨box, ?_, ?_⟩
  · rw [worldBounds, hb]
    exact hbox
  · exact AffineSpace3f.mem_xfmBounds (b := ⟨b, hlower'.trans hupper'⟩) hbox ⟨hlower', hupper'⟩

end BvhNode

def splitTriangleOrQuad (b : BuilderT) (prim : PrimRef) (dim : Fin 3) (pos : ℚ) : BBox3fa × BBox3fa :=
  match b.getType prim.geomID with
  | .triangle =>
      splitTrianglePair (b.getTriangle prim.geomID) (b.quadification prim.geomID) prim dim pos
  | .quad => splitQuad (b.getQuad prim.geomID) prim dim pos
  | _ => (.empty, .empty)

def splitPieces (b : BuilderT) (grid : SplittingGrid) (prim : PrimRef) (splitprims : Nat) :
    Option (List PrimRef) :=
  checkedSplitPrimitive (fun prim dim pos => splitPrims prim (splitTriangleOrQuad b prim dim pos))
    grid.worldSplitPos prim splitprims []

def openedBounds (local2world : AffineSpace3f) (node : BvhNode) : NonemptyInterval Vec3f :=
  (node.worldBounds local2world).getD (.pure (0, 0, 0))

structure InstancedBvhs (b : BuilderT) (local2world : Fin maxGeometries → AffineSpace3f) where
  heapOps : StdHeap Item (StdHeap.lt Item.priority)
  halfArea : BvhNode → ℚ
  bvh : ∀ geomID, b.getType geomID = .inst → InstancedBvh (b.getInstance geomID) halfArea

namespace InstancedBvhs

variable {b : BuilderT} {local2world : Fin maxGeometries → AffineSpace3f}
  (bvhs : InstancedBvhs b local2world)

def openInstance (prim : PrimRef) (splitprims : Nat) (h : b.getType prim.geomID = .inst) :
    Option Opened :=
  let root := (bvhs.bvh prim.geomID h).root
  OpenInstance.openInstance bvhs.heapOps bvhs.halfArea splitprims (root.numNodes + 1)
    (openedBounds (local2world prim.geomID)) prim root

/-- Where an assertion fails in splitPrimitive, the primitive stays whole. -/
def splitter1 (grid : SplittingGrid) (prim : PrimRef) (splitprims : Nat) : List PrimRef :=
  if h : b.getType prim.geomID = .inst then
    ((bvhs.openInstance prim splitprims h).map Opened.subPrims).getD []
  else (splitPieces b grid prim splitprims).getD [prim]

theorem exists_opened (prim : PrimRef) (splitprims : Nat) (h : b.getType prim.geomID = .inst) :
    ∃ r, bvhs.openInstance prim splitprims h = some r ∧
      r.Sound (b.getInstance prim.geomID) (bvhs.bvh prim.geomID h).root ∧
      r.subPrims = r.heap.map
        (subPrim (openedBounds (local2world prim.geomID)) prim.geomID
          (bvhs.bvh prim.geomID h).root) := by
  obtain ⟨r, hr, hsound, -⟩ := openInstance_sound bvhs.heapOps splitprims (bvhs.bvh prim.geomID h)
    (openedBounds (local2world prim.geomID)) prim
  have hopen := hr _ (Nat.lt_succ_self _)
  refine ⟨r, hopen, hsound, ?_⟩
  obtain ⟨loop, -, rfl⟩ := Option.map_eq_some_iff.1 hopen
  rfl

theorem splitter1_inst {prim : PrimRef} {splitprims : Nat} (h : b.getType prim.geomID = .inst)
    {r : Opened} (hr : bvhs.openInstance prim splitprims h = some r) (grid : SplittingGrid) :
    bvhs.splitter1 grid prim splitprims = r.subPrims := by
  rw [splitter1, dif_pos h, hr, Option.map_some, Option.getD_some]

theorem splitter1_pieces {prim : PrimRef} {splitprims : Nat} {grid : SplittingGrid}
    (h : b.getType prim.geomID ≠ .inst) {pieces : List PrimRef}
    (hpieces : splitPieces b grid prim splitprims = some pieces) :
    bvhs.splitter1 grid prim splitprims = pieces := by
  rw [splitter1, dif_neg h, hpieces, Option.getD_some]

theorem length_splitter1 (grid : SplittingGrid) (prim : PrimRef) {splitprims : Nat}
    (hpos : 0 < splitprims) (hle : splitprims ≤ maxPresplitsPerPrimitive) :
    0 < (bvhs.splitter1 grid prim splitprims).length ∧
      (bvhs.splitter1 grid prim splitprims).length ≤ maxPresplitsPerPrimitive := by
  by_cases h : b.getType prim.geomID = .inst
  · obtain ⟨r, hr, hsound, hsub⟩ := bvhs.exists_opened prim splitprims h
    rw [bvhs.splitter1_inst h hr, hsub, List.length_map]
    exact ⟨hsound.nonempty, hsound.length_le⟩
  · cases hpieces : splitPieces b grid prim splitprims with
    | none =>
        rw [splitter1, dif_neg h, hpieces]
        exact ⟨Nat.one_pos, hpos.trans_le hle⟩
    | some pieces =>
        obtain ⟨pieces, rfl, hsplit⟩ := splitInto_of_checked hpieces
        have heq : splitPrimitive (fun prim dim pos =>
            (splitPrims prim (splitTriangleOrQuad b prim dim pos)).getD (prim, prim))
            grid.worldSplitPos prim splitprims = pieces := by
          apply hsplit.splitPrimitive_eq
          intro prim dim pos r hr
          rw [hr, Option.getD_some]
        rw [bvhs.splitter1_pieces h hpieces, ← heq]
        obtain ⟨hpos', hle'⟩ := length_splitPrimitive prim hpos
        exact ⟨hpos', hle'.trans hle⟩

def func (grid : SplittingGrid) : SplitPrimitiveFunc where
  split := bvhs.splitter1 grid
  length_pos prim _ hpos hle := (bvhs.length_splitter1 grid prim hpos hle).1
  length_le prim _ hpos hle := (bvhs.length_splitter1 grid prim hpos hle).2

inductive Part (prim : PrimRef) : PrimRef → Prop
  | piece (part : PrimRef) (h : PieceOf prim part) : Part prim part
  | opened (h : b.getType prim.geomID = .inst) (node : BvhNode)
      (hnode : node ∈ (bvhs.bvh prim.geomID h).root.nodes) :
      Part prim (subPrim (openedBounds (local2world prim.geomID)) prim.geomID
        (bvhs.bvh prim.geomID h).root (.ofNode bvhs.halfArea node))

end InstancedBvhs

section shapes

theorem mem_of_le {bounds bounds' : NonemptyInterval Vec3f} {x : Vec3f} (h : bounds ≤ bounds')
    (hx : x ∈ bounds) : x ∈ bounds' :=
  ⟨h.1.trans hx.1, hx.2.trans h.2⟩

theorem convex_bounds (bounds : NonemptyInterval Vec3f) : Convex ℚ {x | x ∈ bounds} := by
  have hconvex := (BBox3fa.ofBounds bounds).convex_contains
  simp only [BBox3fa.contains_ofBounds] at hconvex
  exact hconvex

theorem TrianglePairs.Triangle.surface_subset (tri : TrianglePairs.Triangle) :
    tri.surface ⊆ {x | x ∈ tri.bounds} := by
  apply convexHull_min _ (convex_bounds _)
  rintro v (rfl | rfl | rfl)
  · exact (vertices_triangle tri _ (Or.inl (Or.inl rfl))).2
  · exact (vertices_triangle tri _ (Or.inl (Or.inr rfl))).2
  · exact (vertices_triangle tri _ (Or.inr rfl)).2

theorem Quad.surface_subset (quad : Quad) : quad.surface ⊆ {x | x ∈ quad.bounds} := by
  have h0 : quad.p0 ∈ quad.bounds :=
    (le_sup_left.trans (le_sup_left.trans le_sup_left) : NonemptyInterval.pure quad.p0 ≤ quad.bounds)
  have h1 : quad.p1 ∈ quad.bounds :=
    (le_sup_right.trans (le_sup_left.trans le_sup_left) : NonemptyInterval.pure quad.p1 ≤ quad.bounds)
  have h2 : quad.p2 ∈ quad.bounds :=
    (le_sup_right.trans le_sup_left : NonemptyInterval.pure quad.p2 ≤ quad.bounds)
  have h3 : quad.p3 ∈ quad.bounds := (le_sup_right : NonemptyInterval.pure quad.p3 ≤ quad.bounds)
  apply Set.union_subset
  · apply convexHull_min _ (convex_bounds _)
    rintro v (rfl | rfl | rfl)
    exacts [h0, h1, h3]
  · apply convexHull_min _ (convex_bounds _)
    rintro v (rfl | rfl | rfl)
    exacts [h2, h3, h1]

def shape (b : BuilderT) (prim : PrimRef) : Set Vec3f :=
  match b.getType prim.geomID with
  | .triangle => pairSurface (b.getTriangle prim.geomID) (b.quadification prim.geomID) prim.primID
  | .quad => (b.getQuad prim.geomID prim.primID).surface
  | _ => {x | x ∈ prim.bounds}

theorem pairSurface_subset (getTriangle : Nat → TrianglePairs.Triangle) (quadification : Nat → Nat)
    (primID : Nat) : pairSurface getTriangle quadification primID ⊆
      {x | x ∈ pairBounds getTriangle quadification primID} := by
  rw [pairSurface, pairBounds]
  split
  · apply Set.union_subset
    · exact (TrianglePairs.Triangle.surface_subset _).trans (fun x => mem_of_le le_sup_left)
    · exact (TrianglePairs.Triangle.surface_subset _).trans (fun x => mem_of_le le_sup_right)
  · exact TrianglePairs.Triangle.surface_subset _

variable {geometries : Geometries} {b : BuilderT} {prim : PrimRef}

theorem shape_subset (h : geometries.Describes b prim) : shape b prim ⊆ {x | x ∈ prim.bounds} := by
  rw [shape]
  cases htype : b.getType prim.geomID with
  | triangle =>
      rw [h.triangle htype]
      exact pairSurface_subset _ _ _
  | quad =>
      rw [h.quad htype]
      exact Quad.surface_subset _
  | procedural => exact subset_rfl
  | inst => exact subset_rfl

end shapes

section parts

variable {geometries : Geometries} {b : BuilderT} (bvhs : InstancedBvhs b geometries.local2world)

/-- What the hierarchy needs to have of a primitive that has been created: what a ray can hit is in the
box of some part, and a leaf below an instance is reached from the start node of some part. -/
structure PartsOf (prim : PrimRef) (parts : List PrimRef) : Prop where
  part : ∀ part ∈ parts, bvhs.Part prim part
  shape : b.getType prim.geomID ≠ .inst → ∀ x ∈ shape b prim, ∃ part ∈ parts,
    PieceOf prim part ∧ x ∈ part.bounds
  leaves : ∀ h : b.getType prim.geomID = .inst, ∀ y leaf, geometries.HasLocal prim.geomID y →
    (bvhs.bvh prim.geomID h).root.Reaches y leaf →
    ∃ part ∈ parts, ∃ node ∈ (bvhs.bvh prim.geomID h).root.nodes,
      (geometries.local2world prim.geomID).xfmPoint y ∈ part.bounds ∧ node.Reaches y leaf ∧
        part.geomID = prim.geomID ∧
        instanceRoot (b.getInstance prim.geomID) part.primID = node.addr

variable {bvhs} {prim : PrimRef}

theorem instanceRoot_zero {inst : Instance} {halfArea : BvhNode → ℚ} (bvh : InstancedBvh inst halfArea)
    {primID : Fin (2 ^ 32)} (h : primID.val = 0) : instanceRoot inst primID = bvh.root.addr := by
  rw [instanceRoot, h, bvh.root_addr]
  simp

/-- A primitive that stays whole. -/
theorem partsOf_whole (h : geometries.Describes b prim) : PartsOf bvhs prim [prim] where
  part part hpart := by
    rw [List.mem_singleton.1 hpart]
    exact .piece prim (.refl prim)
  shape _ x hx := ⟨prim, List.mem_singleton_self _, .refl prim, shape_subset h hx⟩
  leaves htype y leaf hy hreaches := by
    obtain ⟨hprimID, hinside⟩ := h.inst htype
    refine ⟨prim, List.mem_singleton_self _, _, mem_nodes_self _, ?_, hreaches, rfl,
      instanceRoot_zero _ hprimID⟩
    exact hinside y hy

theorem partsOf_opened {splitprims : Nat} (htype : b.getType prim.geomID = .inst)
    (grid : SplittingGrid) : PartsOf bvhs prim (bvhs.splitter1 grid prim splitprims) := by
  obtain ⟨r, hr, hsound, hsub⟩ := bvhs.exists_opened prim splitprims htype
  rw [bvhs.splitter1_inst htype hr, hsub]
  refine ⟨fun part hpart => ?_, fun hne => absurd htype hne, fun _ y leaf _ hreaches => ?_⟩
  · obtain ⟨item, hitem, rfl⟩ := List.mem_map.1 hpart
    exact .opened htype item.node (hsound.nodes item hitem)
  · have hleaf := hsound.frontier.mem_iff.2 (BvhNode.mem_fatLeaves hreaches)
    obtain ⟨item, hitem, hmem⟩ := List.mem_flatMap.1 hleaf
    have hnode := hsound.nodes item hitem
    have hbelow := BvhNode.reaches_of_mem hreaches (bvhs.bvh prim.geomID htype).separate hnode hmem
    obtain ⟨box, hbox, hinside⟩ := BvhNode.mem_worldBounds (geometries.local2world prim.geomID) hbelow
    refine ⟨_, List.mem_map_of_mem hitem, item.node, hnode, ?_, hbelow, rfl,
      instanceRoot_eq _ hnode⟩
    rw [subPrim, openedBounds, hbox, Option.getD_some]
    exact hinside

theorem splitTriangleOrQuad_triangle {piece : PrimRef} (h : b.getType prim.geomID = .triangle)
    (hpiece : PieceOf prim piece) (dim : Fin 3) (pos : ℚ) :
    splitTriangleOrQuad b piece dim pos =
      splitTrianglePair (b.getTriangle prim.geomID) (b.quadification prim.geomID) piece dim pos := by
  rw [splitTriangleOrQuad, hpiece.geomID_eq, h]

theorem splitTriangleOrQuad_quad {piece : PrimRef} (h : b.getType prim.geomID = .quad)
    (hpiece : PieceOf prim piece) (dim : Fin 3) (pos : ℚ) :
    splitTriangleOrQuad b piece dim pos = splitQuad (b.getQuad prim.geomID) piece dim pos := by
  rw [splitTriangleOrQuad, hpiece.geomID_eq, h]

/-- Each split of a quad yields boxes around what it has on their sides. -/
def QuadCovered (b : BuilderT) (prim : PrimRef) : Prop :=
  b.getType prim.geomID = .quad → ∀ dim pos, (b.getQuad prim.geomID prim.primID).Covered dim pos

theorem halves_splitTriangleOrQuad (hcovered : QuadCovered b prim)
    (htype : b.getType prim.geomID = .triangle ∨ b.getType prim.geomID = .quad) {piece : PrimRef}
    (hpiece : PieceOf prim piece) (dim : Fin 3) (pos : ℚ) :
    Halves (shape b prim) piece.bounds dim pos (splitTriangleOrQuad b piece dim pos) := by
  rcases htype with htype | htype
  · rw [splitTriangleOrQuad_triangle htype hpiece, shape, htype, ← hpiece.primID_eq]
    exact halves_splitTrianglePair _ _ piece dim pos
  · rw [splitTriangleOrQuad_quad htype hpiece, shape, htype]
    have hcovered' := hcovered htype
    rw [← hpiece.primID_eq] at hcovered' ⊢
    exact halves_splitQuad (b.getQuad prim.geomID) hcovered' dim pos

/-- There are points that keep the box tight and by which the splits are made. -/
theorem exists_tight (h : geometries.Describes b prim)
    (htype : b.getType prim.geomID = .triangle ∨ b.getType prim.geomID = .quad) :
    ∃ T, Tight T prim.bounds ∧ ∀ piece dim pos, PieceOf prim piece →
      ∃ r : BBox3fa × BBox3fa, SplitsAt T dim pos r ∧ splitTriangleOrQuad b piece dim pos =
        (r.1.intersect (.ofBounds piece.bounds), r.2.intersect (.ofBounds piece.bounds)) := by
  rcases htype with htype | htype
  · refine ⟨pairSurface (b.getTriangle prim.geomID) (b.quadification prim.geomID) prim.primID, ?_,
      fun piece dim pos hpiece => ?_⟩
    · rw [h.triangle htype]
      exact tight_pairBounds _ _ _
    · rw [splitTriangleOrQuad_triangle htype hpiece, ← hpiece.primID_eq]
      exact splitsAt_pair _ _ piece dim pos
  · refine ⟨outline (b.getQuad prim.geomID prim.primID).polygon, ?_, fun piece dim pos hpiece => ?_⟩
    · rw [h.quad htype]
      exact tight_quad _
    · rw [splitTriangleOrQuad_quad htype hpiece, ← hpiece.primID_eq]
      exact splitsAt_quad (b.getQuad prim.geomID) piece dim pos

variable (bvhs) in
/-- Pieces of a primitive in the grid keep its shape, and no assertion fails. -/
theorem partsOf_pieces {bounds : NonemptyInterval Vec3f} {splitprims : Nat} (hpos : 0 < splitprims)
    (hle' : splitprims ≤ maxPresplitsPerPrimitive) (h : geometries.Describes b prim)
    (hle : prim.bounds ≤ bounds) (hcovered : QuadCovered b prim)
    (htype : b.getType prim.geomID = .triangle ∨ b.getType prim.geomID = .quad) :
    ∃ pieces, splitPieces b (.ofBounds bounds) prim splitprims = some pieces ∧
      PartsOf bvhs prim pieces := by
  obtain ⟨T, htight, hsplits⟩ := exists_tight h htype
  obtain ⟨pieces, hpieces⟩ := exists_pieces hpos hle' hle htight hsplits
  have hne : b.getType prim.geomID ≠ .inst := by
    rcases htype with htype | htype <;> simp [htype]
  obtain ⟨pieces, rfl, hsplit⟩ := splitInto_of_checked hpieces
  obtain ⟨hpart, hcover⟩ := hsplit.covers
    (fun piece dim pos hpiece => halves_splitTriangleOrQuad hcovered htype hpiece dim pos)
  refine ⟨pieces, hpieces, fun part hmem => .piece part (hpart part hmem), fun _ x hx => ?_,
    fun hinst => absurd hinst hne⟩
  obtain ⟨part, hmem, hx'⟩ := hcover x hx (shape_subset h hx)
  exact ⟨part, hmem, hpart part hmem, hx'⟩

/-- Whatever pre-splitting makes of a primitive keeps it. -/
theorem partsOf_splitter1 {bounds : NonemptyInterval Vec3f} {splitprims : Nat} (hpos : 0 < splitprims)
    (hle' : splitprims ≤ maxPresplitsPerPrimitive) (h : geometries.Describes b prim)
    (hle : prim.bounds ≤ bounds) (hcovered : QuadCovered b prim)
    (hprocedural : b.getType prim.geomID ≠ .procedural) :
    PartsOf bvhs prim (bvhs.splitter1 (.ofBounds bounds) prim splitprims) := by
  by_cases hinst : b.getType prim.geomID = .inst
  · exact partsOf_opened hinst _
  · have htype : b.getType prim.geomID = .triangle ∨ b.getType prim.geomID = .quad := by
      cases htype : b.getType prim.geomID with
      | triangle => exact Or.inl rfl
      | quad => exact Or.inr rfl
      | procedural => exact absurd htype hprocedural
      | inst => exact absurd htype hinst
    obtain ⟨pieces, hpieces, hkeeps⟩ := partsOf_pieces bvhs hpos hle' h hle hcovered htype
    rw [bvhs.splitter1_pieces hinst hpieces]
    exact hkeeps

end parts

end RTBuild
