import RTBuild.Blocks
import RTBuild.LeafBlocks

namespace RTBuild

open Library.Task RTBuild.Splits RTBuild.Children Settings

variable {b : BuilderT} {t : List BuildEvent} {o : BuildOutcome}

def InBlock (t : List BuildEvent) (addr : Nat) : Prop := ∃ block ∈ blocks t, Inside block.1 block.2 addr

theorem InBlock.mono {t' : List BuildEvent} {addr : Nat} (h : InBlock t addr) (hsub : ∀ e ∈ t, e ∈ t') :
    InBlock t' addr := by
  obtain ⟨block, hmem, hinside⟩ := h
  exact ⟨block, List.filterMap_subset _ hsub hmem, hinside⟩

theorem write_mem_finishEvents {curAddr a : Option Nat} {childAddr : Nat} {nodeMask : BitVec 8}
    {node : InternalNode} {cell : Cell}
    (he : .emit (.write a cell) ∈ finishEvents curAddr childAddr nodeMask node) : a = curAddr := by
  simp only [finishEvents, List.mem_cons, List.not_mem_nil, or_false] at he
  rcases he with he | he
  · cases he
  · cases he
    rfl

/-- A plan writes its own node, and into the blocks that it allocates. -/
theorem Plan.Valid.writes {prims : Nat → PrimRef} {r : BuildRecord} {p : Plan}
    (hvalid : Valid b.getType prims r p) {addr : Nat} (h : BuildRun (p.emit b (some addr)) t o) :
    ∀ a cell, .emit (.write a cell) ∈ t → ∃ a', a = some a' ∧ (a' = addr ∨ InBlock t a') := by
  induction hvalid generalizing t o addr with
  | throw prims r x =>
      cases h with
      | throw => exact fun a cell he => absurd he List.not_mem_nil
  | fat prims r ty r' hprims hr htype hsize =>
      intro a cell he
      have hearly : .emit (.write a cell) ∈ (FatImage.ofRecord b prims r').earlyEvents (some addr) →
          a = some addr := by
        intro he
        obtain ⟨node, _, heq⟩ := List.mem_map.1 he
        cases heq
        rfl
      cases createFatLeaf_run h with
      | tooDeep hdepth => cases List.mem_singleton.1 he
      | full hdepth =>
          simp only [List.mem_cons, List.mem_append, List.not_mem_nil, or_false] at he
          rcases he with he | he | he
          · cases he
          · exact ⟨addr, hearly he, Or.inl rfl⟩
          · cases he
      | done childData hdepth =>
          simp only [List.mem_cons, List.mem_append, FatImage.blockEvents] at he
          rcases he with he | he | he | he | he
          · cases he
          · exact ⟨addr, hearly he, Or.inl rfl⟩
          · cases he
          · obtain ⟨s, hs, heq⟩ := List.mem_map.1 he
            cases heq
            exact ⟨s.1, rfl, Or.inr ⟨(childData, (FatImage.ofRecord b prims r').bytes),
              mem_blocks.2 ⟨64, by simp⟩, FatImage.stores_inside hr htype hsize childData s hs⟩⟩
          · exact ⟨addr, write_mem_finishEvents he, Or.inl rfl⟩
  | node prims prims' r r' parallel children sub hprims hr hcover hlength hsub ih =>
      intro a cell he
      rcases (createChildren_run h).tasks with ⟨rfl, _⟩ | ⟨childBase, started, ts, os, w, htasks, ht⟩
      · cases List.mem_singleton.1 he
      · have hw : .emit (.write a cell) ∈ w →
            ∃ a', a = some a' ∧ InBlock (mallocChildren children.length (some childBase) :: w) a' :=
              fun he => by
          obtain ⟨i, hi, hmem⟩ := htasks.mem he
          obtain ⟨a', rfl, ha'⟩ := ih i (htasks.runs i hi) a cell hmem
          refine ⟨a', rfl, ?_⟩
          rcases ha' with rfl | hblock
          · refine ⟨(childBase, children.length * nodeBytes), mem_blocks.2 ⟨64, List.mem_cons_self ..⟩,
              ?_⟩
            have hbytes : nodeBytes = 64 := rfl
            have hlt := i.isLt
            constructor <;> simp only [hbytes] <;> omega
          · exact hblock.mono (fun e he => List.mem_cons_of_mem _ ((htasks.weave.sublist i).subset he))
        rcases ht with rfl | ⟨nodeMask, node, rfl⟩
        · rcases List.mem_cons.1 he with he | he
          · cases he
          · obtain ⟨a', rfl, hblock⟩ := hw he
            exact ⟨a', rfl, Or.inr hblock⟩
        · simp only [List.mem_cons, List.mem_append] at he
          rcases he with he | he | he
          · cases he
          · obtain ⟨a', rfl, hblock⟩ := hw he
            refine ⟨a', rfl, Or.inr (hblock.mono (fun e he => ?_))⟩
            simp only [List.mem_cons, List.mem_append] at he ⊢
            exact he.imp id Or.inl
          · exact ⟨addr, write_mem_finishEvents he, Or.inl rfl⟩

section cells

variable {prims : Nat → PrimRef} {r : BuildRecord} {P : Cell → Prop}

theorem mem_createAllQuads {ty : PrimType} {children : List BuildRecord} {addr : Nat} {s : Nat × Cell}
    (hs : s ∈ (createAllQuads b prims ty children addr).flatMap Prod.fst) :
    ∃ c ∈ children, ∃ leaf ∈ quadLeaves b prims ty c, s.2 = .quad leaf := by
  induction children generalizing addr with
  | nil => cases hs
  | cons child children ih =>
      rw [createAllQuads, List.flatMap_cons, List.mem_append] at hs
      rcases hs with hs | hs
      · obtain ⟨i, hi, rfl⟩ := List.mem_mapIdx.1 hs
        rw [List.getElem_map]
        exact ⟨child, List.mem_cons_self, _, List.getElem_mem _, rfl⟩
      · obtain ⟨c, hc, hleaf⟩ := ih hs
        exact ⟨c, List.mem_cons_of_mem _ hc, hleaf⟩

theorem mem_ofInstances_stores {childData : Nat} {s : Nat × Cell}
    (hs : s ∈ ((FatImage.ofInstances b prims r).block childData).stores) :
    ∃ prim ∈ r.list prims, s.2 ∈ instanceCells b prim := by
  obtain ⟨i, hi, rfl⟩ := List.mem_mapIdx.1 hs
  exact List.mem_flatMap.1 (List.getElem_mem hi)

structure FatImage.Forall (P : Cell → Prop) (f : FatImage) : Prop where
  early : ∀ node, f.early = some node → P (.node node)
  node : ∀ curAddr childData, P (.node (((f.block childData).node.setChildOffset curAddr
    (f.block childData).childPtr).setNodeMask (f.block childData).nodeMask))
  stores : ∀ childData, ∀ s ∈ (f.block childData).stores, P s.2

theorem forall_finishEvents {curAddr : Option Nat} {childAddr : Nat} {nodeMask : BitVec 8}
    {node : InternalNode}
    (h : P (.node ((node.setChildOffset (curAddr.getD 0) childAddr).setNodeMask nodeMask))) :
    ∀ a cell, .emit (.write a cell) ∈ finishEvents curAddr childAddr nodeMask node → P cell := by
  intro a cell he
  simp only [finishEvents, List.mem_cons, List.not_mem_nil, or_false] at he
  rcases he with he | he
  · cases he
  · cases he
    exact h

theorem FatImage.Forall.earlyEvents {f : FatImage} (h : f.Forall P) (curAddr : Option Nat) :
    ∀ a cell, .emit (.write a cell) ∈ f.earlyEvents curAddr → P cell := by
  intro a cell he
  obtain ⟨node, hnode, heq⟩ := List.mem_map.1 he
  cases heq
  exact h.early node (Option.mem_toList.1 hnode)

theorem FatRun.forall_writes {curAddr : Option Nat} (h : FatRun b prims r curAddr t o)
    (himage : (FatImage.ofRecord b prims r).Forall P) :
    ∀ a cell, .emit (.write a cell) ∈ t → P cell := by
  intro a cell he
  cases h with
  | tooDeep hdepth => cases List.mem_singleton.1 he
  | full hdepth =>
      simp only [List.mem_cons, List.mem_append, List.not_mem_nil, or_false] at he
      rcases he with he | he | he
      · cases he
      · exact himage.earlyEvents curAddr a cell he
      · cases he
  | done childData hdepth =>
      simp only [List.mem_cons, List.mem_append, FatImage.blockEvents] at he
      rcases he with he | he | he | he | he
      · cases he
      · exact himage.earlyEvents curAddr a cell he
      · cases he
      · obtain ⟨s, hs, heq⟩ := List.mem_map.1 he
        cases heq
        exact himage.stores childData s hs
      · exact forall_finishEvents (himage.node _ childData) a cell he

/-- Whatever way a run of a plan ends, the cells that it has written have a property that fat leaves and
inner nodes have. These may be about primitives with a property that parts of a list keep. -/
theorem Plan.Valid.forall_writes {p : Plan} {Q : List PrimRef → Prop}
    (hmono : ∀ {list list' : List PrimRef}, Q list → list' ⊆ list → Q list')
    (hfat : ∀ {prims : Nat → PrimRef} {r : BuildRecord} {ty : PrimType}, r.Describes b.getType prims →
      r.type = some ty → r.size ≤ leafSize r.type → Q (r.list prims) →
        (FatImage.ofRecord b prims r).Forall P)
    (hnode : ∀ (prims : Nat → PrimRef) {children : List BuildRecord} (values : List ReductionTy)
      (addr childAddr : Nat) (nodeMask : BitVec 8),
      (∀ c ∈ children, c.Describes b.getType prims ∧ Q (c.list prims)) →
        P (.node (((childrenNode .internal children values).setChildOffset addr childAddr).setNodeMask
          nodeMask)))
    (hvalid : Valid b.getType prims r p) {curAddr : Option Nat} (h : BuildRun (p.emit b curAddr) t o)
    (hlist : Q (r.list prims)) : ∀ a cell, .emit (.write a cell) ∈ t → P cell := by
  induction hvalid generalizing t o curAddr with
  | throw prims r x =>
      cases h with
      | throw => exact fun a cell he => absurd he List.not_mem_nil
  | fat prims r ty r' hprims hr htype hsize =>
      have heq : r'.list prims = r.list prims := by
        rw [BuildRecord.list, BuildRecord.begin_, BuildRecord.end_, hprims]
        rfl
      rw [← heq] at hlist
      exact (createFatLeaf_run h).forall_writes (hfat hr htype hsize hlist)
  | node prims prims' r r' parallel children sub hprims hr hcover hlength hsub ih =>
      have heq : r'.list prims = r.list prims := by
        rw [BuildRecord.list, BuildRecord.begin_, BuildRecord.end_, hprims]
        rfl
      have hchild : ∀ c ∈ children, Q (c.list prims') := fun c hc => by
        refine hmono hlist (fun prim hprim => ?_)
        rw [← heq]
        exact hcover.list_perm.mem_iff.1 (List.mem_flatMap.2 ⟨c, hc, hprim⟩)
      have htask : ∀ {childBase started ts os w}, TaskRuns (fun i => (sub i).emit b
          (some (childBase + i * nodeBytes))) started ts os w →
            ∀ a cell, .emit (.write a cell) ∈ w → P cell := by
        intro childBase started ts os w htasks a cell he
        obtain ⟨i, hi, hmem⟩ := htasks.mem he
        exact ih i (htasks.runs i hi) (hchild _ (List.get_mem children i)) a cell hmem
      intro a cell he
      cases createChildren_run h with
      | full => cases List.mem_singleton.1 he
      | failed childBase started ts os w i v htasks hi hret hv =>
          rcases List.mem_cons.1 he with he | he
          · cases he
          · exact htask htasks a cell he
      | threw childBase started ts os w i x htasks hi hthrow =>
          rcases List.mem_cons.1 he with he | he
          · cases he
          · exact htask htasks a cell he
      | done childBase ts w values hruns hvalues hweave =>
          simp only [List.mem_cons, List.mem_append] at he
          rcases he with he | he | he
          · cases he
          · exact htask (.all hruns hweave) a cell he
          · refine forall_finishEvents (hnode prims' _ _ _ _ (fun c hc => ?_)) a cell he
            exact ⟨hcover.describes c hc, hchild c hc⟩

end cells

end RTBuild
