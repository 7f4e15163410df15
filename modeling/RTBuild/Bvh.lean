import RTBuild.Bytes
import RTBuild.Emitted

namespace RTBuild

open Library Library.Task RTBuild.Splits RTBuild.Children Settings InternalNode

variable {b : BuilderT} {prims : Nat → PrimRef} {r : BuildRecord} {t : List BuildEvent}
  {o : BuildOutcome}
  {addr endBytes cur cur' : Nat} {v : ReductionTy}

theorem offsetFits_of_lt {addr childPtr : Nat} (haddr : addr < 2 ^ 37) (hptr : childPtr < 2 ^ 37) :
    offsetFits addr childPtr = true := by
  rw [offsetFits, beq_iff_eq, Int.bmod_eq_of_le] <;> omega

theorem FatImage.childPtr_eq (b : BuilderT) (prims : Nat → PrimRef) (r : BuildRecord) (childData : Nat) :
    ((ofRecord b prims r).block childData).childPtr = childData := by
  rw [ofRecord]
  cases b.getType (prims r.begin_).geomID with
  | triangle | quad | inst => rfl
  | procedural =>
      simp only [ofProcedurals]
      cases r.list (fatLeafChildren b.heuristic prims r).1 with
      | nil => rfl
      | cons prim list =>
          have hrange := (ProceduralLeafBuilder.start_placed b childData prim).2.2.1
          rw [addProcedurals, List.map_cons, hrange]
          rfl

theorem mem_finishEvents_assert {curAddr : Option Nat} {childAddr : Nat} {nodeMask : BitVec 8}
    {node : InternalNode} {ok : Bool}
    (h : .emit (.assert ok) ∈ finishEvents curAddr childAddr nodeMask node) :
    ok = offsetFits (curAddr.getD 0) childAddr := by
  simpa [finishEvents] using h

/-- In a buffer of up to 128 GiB all child offsets fit. -/
theorem Plan.asserts {p : Plan} (h : BuildRun (p.emit b (some addr)) t o) (haddr : addr < 2 ^ 37)
    (hblocks : ∀ block ∈ blocks t, block.1 + block.2 < 2 ^ 37) :
    ∀ ok, .emit (.assert ok) ∈ t → ok = true := by
  induction p generalizing t o addr with
  | throw x =>
      cases h with
      | throw => exact fun _ hmem => absurd hmem List.not_mem_nil
  | fat prims r =>
      intro ok hok
      cases createFatLeaf_run h with
      | tooDeep hdepth => cases List.mem_singleton.1 hok
      | full hdepth =>
          simp only [List.mem_cons, List.mem_append, List.not_mem_nil, or_false] at hok
          rcases hok with hok | hok | hok
          · cases hok
          · obtain ⟨node, _, heq⟩ := List.mem_map.1 hok
            cases heq
          · cases hok
      | done childData hdepth =>
          have hdata :=
            hblocks (childData, (FatImage.ofRecord b prims r).bytes) (mem_blocks.2 ⟨64, by simp⟩)
          simp only [List.mem_cons, List.mem_append, FatImage.blockEvents] at hok
          rcases hok with hok | hok | hok | hok | hok
          · cases hok
          · obtain ⟨node, _, heq⟩ := List.mem_map.1 hok
            cases heq
          · cases hok
          · obtain ⟨s, _, heq⟩ := List.mem_map.1 hok
            cases heq
          · rw [mem_finishEvents_assert hok, FatImage.childPtr_eq]
            exact offsetFits_of_lt haddr (Nat.lt_of_le_of_lt (Nat.le_add_right _ _) hdata)
  | node parallel children sub ih =>
      intro ok hok
      rcases (createChildren_run h).tasks with ⟨rfl, _⟩ | ⟨childBase, started, ts, os, w, htasks, ht⟩
      · cases List.mem_singleton.1 hok
      · have hmalloc : mallocChildren children.length (some childBase) ∈ t := by
          rcases ht with rfl | ⟨nodeMask, node, rfl⟩ <;> exact List.mem_cons_self ..
        have hw : ∀ e ∈ w, e ∈ t := by
          intro e he
          rcases ht with rfl | ⟨nodeMask, node, rfl⟩
          · exact List.mem_cons_of_mem _ he
          · exact List.mem_cons_of_mem _ (List.mem_append_left _ he)
        have hbase := hblocks (childBase, children.length * nodeBytes) (mem_blocks.2 ⟨64, hmalloc⟩)
        have hbytes : nodeBytes = 64 := rfl
        have htask : .emit (.assert ok) ∈ w → ok = true := by
          intro hok
          obtain ⟨i, hi, hok⟩ := htasks.mem hok
          have hsub : ∀ e ∈ ts i, e ∈ t := fun e he => hw e ((htasks.weave.sublist i).subset he)
          refine ih i (htasks.runs i hi) ?_
            (fun block hblock => hblocks block (List.filterMap_subset _ hsub hblock)) ok hok
          have hlt := i.isLt
          simp only [hbytes] at hbase ⊢
          omega
        rcases ht with rfl | ⟨nodeMask, node, rfl⟩
        · rcases List.mem_cons.1 hok with hok | hok
          · cases hok
          · exact htask hok
        · simp only [List.mem_cons, List.mem_append] at hok
          rcases hok with hok | hok | hok
          · cases hok
          · exact htask hok
          · rw [mem_finishEvents_assert hok]
            exact offsetFits_of_lt haddr (Nat.lt_of_le_of_lt (Nat.le_add_right _ _) hbase)

/-- A run over a buffer that ends with a valid value leaves a tree in memory. -/
theorem Plan.Valid.represents_memory {p : Plan} (hvalid : Valid b.getType prims r p)
    (h : BufferRun endBytes (p.emit b (some addr)) cur t (.ret v) cur') (hv : v.valid = true)
    (haddr : addr % 64 = 0) (hcur : cur % 64 = 0) (hle : addr + 64 ≤ cur)
    (hassert : ∀ ok, .emit (.assert ok) ∈ t → ok = true) :
    (∃ tree, Represents b (memory t) ⟨addr, .internal, 0⟩ (r.list prims) tree) ∧
      v = nodeValue (some addr) (unionMask b (r.list prims)) :=
  hvalid.represents (hvalid.kept h.1 hv (layout h haddr hcur hle) hassert (agrees_memory t))

/-- Every primitive is below the root once, in a leaf of its type, unless a child
offset does not fit into its field. -/
theorem createInternalNode_emits (b : BuilderT) (fuel endBytes addr cur cur' : Nat)
    (prims : Nat → PrimRef) (pinfo : PrimInfoRange) (t : List BuildEvent) (v : ReductionTy)
    (hr : (rootRecord pinfo).Describes b.getType prims) (haddr : addr % 64 = 0)
    (hcur : cur % 64 = 0) (hle : addr + 64 ≤ cur)
    (hrun : BufferRun endBytes
      (createInternalNode b fuel prims (rootRecord pinfo) (some addr)) cur t (.ret v) cur')
    (hv : v.valid = true) (hassert : ∀ ok, .emit (.assert ok) ∈ t → ok = true) :
    v.node = some addr ∧ v.type = .internal ∧ ∃ (n : Nat) (tree : DecodedTree),
      (∀ steps, n ≤ steps → decode (memory t) steps ⟨addr, .internal, 0⟩ = some tree) ∧
        tree.prims.Perm (((rootRecord pinfo).list prims).map (leafPrim b)) := by
  rw [createInternalNode_eq] at hrun
  obtain ⟨⟨tree, htree⟩, rfl⟩ :=
    (Plan.internalNode_valid fuel hr).represents_memory hrun hv haddr hcur hle hassert
  obtain ⟨n, hdecode⟩ := htree.decoded
  refine ⟨rfl, rfl, n, tree.map (leafPrim b), hdecode, ?_⟩
  rw [WideTree.prims_map]
  exact htree.perm.map _

/-- A buffer that is large enough has a run over it that succeeds. -/
theorem exists_mixedRun : ∃ t v cur', BufferRun 16384 (createInternalNode (.line mixedTypes) 30
    (linePrims 4) (rootRecord (lineInfo 4 24)) (some 128)) 192 t (.ret v) cur' ∧ v.valid = true ∧
      ∀ ok, .emit (.assert ok) ∈ t → ok = true := by
  have hr : (rootRecord (lineInfo 4 24)).Describes (BuilderT.line mixedTypes).getType (linePrims 4) :=
    lineInfo_describes (by decide) _
  obtain ⟨t, o, cur', hrun⟩ := exists_bufferRun 16384 (createInternalNode (.line mixedTypes) 30
    (linePrims 4) (rootRecord (lineInfo 4 24)) (some 128)) 192
  have hplan := hrun.1
  rw [createInternalNode_eq] at hplan
  have hbytes := Plan.requestedBytes_le hplan
  have hbuilt := builtBytes_mixed
  rw [builtBytes, if_neg (by decide)] at hbuilt
  have hnever : NeverFull t :=
    neverFull_of_lt hrun.2 (Nat.lt_of_le_of_lt (Nat.add_le_add_left hbytes 192) hbuilt)
  have hsafe : (Plan.internalNode (.line mixedTypes) 30 (linePrims 4) (rootRecord (lineInfo 4 24))).Safe
      (BuilderT.line mixedTypes).getType (fun _ => False) :=
    Plan.internalNode_safe 30 hr (show 1 ≤ 19 by decide) (show 31 ≤ 1 + 30 by decide)
      (Or.inr (show 24 - 0 ≤ 98304 by decide))
  have hassert := Plan.asserts hplan (by decide) (fun block hblock =>
    ((handedOut hrun.2).inside block hblock).2.2.trans (by decide))
  cases o with
  | ret v => exact ⟨t, v, cur', hrun, Plan.valid_of_neverFull hplan hnever v rfl, hassert⟩
  | throw x => exact ((hsafe.run hplan).1 x rfl).elim

theorem createInternalNode_emits_mixed : ∃ t v cur', BufferRun 16384
    (createInternalNode (.line mixedTypes) 30 (linePrims 4) (rootRecord (lineInfo 4 24)) (some 128))
      192 t (.ret v) cur' ∧ v.node = some 128 ∧ v.type = .internal ∧ ∃ (n : Nat) (tree : DecodedTree),
        (∀ steps, n ≤ steps → decode (memory t) steps ⟨128, .internal, 0⟩ = some tree) ∧
          tree.prims.Perm (((rootRecord (lineInfo 4 24)).list (linePrims 4)).map
            (leafPrim (.line mixedTypes))) := by
  obtain ⟨t, v, cur', hrun, hv, hassert⟩ := exists_mixedRun
  exact ⟨t, v, cur', hrun,
    createInternalNode_emits (.line mixedTypes) 30 16384 128 192 cur' (linePrims 4) (lineInfo 4 24) t v
    (lineInfo_describes (by decide) _) (by decide) (by decide) (by decide) hrun hv hassert⟩

/-- The masks and boxes of a tree that a task leaves are those of all primitives below. -/
def Summarized (b : BuilderT) (prims : Nat → PrimRef) (r : BuildRecord) (addr : Nat)
    (t : List BuildEvent) (v : ReductionTy) : Prop :=
  v.nodeMask = unionMask b (r.list prims) ∧ ∃ (n : Nat) (tree : WideTree 6 (BitVec 8) BBox3f PrimRef),
    (∀ steps, n ≤ steps → decode (memory t) steps ⟨addr, .internal, 0⟩ = some (tree.map (leafPrim b))) ∧
      tree.prims.Perm (r.list prims) ∧ tree.Masked (unionMask b) ∧ tree.Bounded unionBounds

theorem Plan.Valid.summarized {p : Plan} (hvalid : Valid b.getType prims r p)
    (h : BufferRun endBytes (p.emit b (some addr)) cur t (.ret v) cur') (hv : v.valid = true)
    (haddr : addr % 64 = 0) (hcur : cur % 64 = 0) (hle : addr + 64 ≤ cur)
    (hassert : ∀ ok, .emit (.assert ok) ∈ t → ok = true) : Summarized b prims r addr t v := by
  obtain ⟨⟨tree, htree⟩, rfl⟩ := hvalid.represents_memory h hv haddr hcur hle hassert
  obtain ⟨n, hdecode⟩ := htree.decoded
  exact ⟨rfl, n, tree, hdecode, htree.perm, htree.masked, htree.bounded⟩

def ExactBounds (s : Split) : Prop :=
  s.left.bounds = unionBounds (s.left.list s.prims) ∧ s.right.bounds = unionBounds (s.right.list s.prims)

/-- Every split gives both sides the bounds of their primitives, and every node that is
finished has the mask of all primitives below and the boxes of those below its children. -/
theorem bvh_summarized (b : BuilderT) (prims : Nat → PrimRef) (r : BuildRecord)
    (hr : r.Describes b.getType prims) :
    (1 < r.size → (∀ depth sahBlockSize, ExactBounds (sahSplit b.heuristic depth sahBlockSize prims r)) ∧
      (∀ depth, ExactBounds (fallbackSplit depth prims r)) ∧
      (∀ depth, Mixed b.getType prims r → ExactBounds (typeSplit b.getType depth prims r))) ∧
    (∀ c ∈ singleChildren prims r, c.bounds = unionBounds (c.list prims)) ∧
    ∀ (fuel endBytes addr cur cur' : Nat) (t : List BuildEvent) (v : ReductionTy), v.valid = true →
      addr % 64 = 0 → cur % 64 = 0 → addr + 64 ≤ cur → (∀ ok, .emit (.assert ok) ∈ t → ok = true) →
      (BufferRun endBytes (createInternalNode b fuel prims r (some addr)) cur t (.ret v) cur' →
          Summarized b prims r addr t v) ∧
        ∀ ty, r.type = some ty →
          (BufferRun endBytes (createLargeLeaf b fuel prims r (some addr)) cur t (.ret v) cur' →
              Summarized b prims r addr t v) ∧
            (r.size ≤ leafSize (some ty) →
              BufferRun endBytes (createFatLeaf b prims r (some addr)) cur t (.ret v) cur' →
                Summarized b prims r addr t v) := by
  refine ⟨fun hsize => ⟨fun depth sahBlockSize => ?_, fun depth => ?_, fun depth hmixed => ?_⟩,
    fun c hc => ?_, ?_⟩
  · have hgood := sahSplit_good (h := b.heuristic) hr hsize depth sahBlockSize
    exact ⟨hgood.left.bounds_eq, hgood.right.bounds_eq⟩
  · have hgood := fallbackSplit_good hr hsize depth
    exact ⟨hgood.left.bounds_eq, hgood.right.bounds_eq⟩
  · have hgood := (typeSplit_good hr hmixed depth).1
    exact ⟨hgood.left.bounds_eq, hgood.right.bounds_eq⟩
  · exact ((singleChildren_cover hr).describes c hc).bounds_eq
  · intro fuel endBytes addr cur cur' t v hv haddr hcur hle hassert
    refine ⟨fun hrun => ?_, fun ty hty => ⟨fun hrun => ?_, fun hsize hrun => ?_⟩⟩
    · rw [createInternalNode_eq] at hrun
      exact (Plan.internalNode_valid fuel hr).summarized hrun hv haddr hcur hle hassert
    · rw [createLargeLeaf_eq] at hrun
      exact (Plan.largeLeaf_valid fuel hr hty).summarized hrun hv haddr hcur hle hassert
    · have hvalid : Plan.Valid b.getType prims r (.fat prims r) := .fat _ _ ty r rfl hr hty (hty ▸ hsize)
      exact hvalid.summarized hrun hv haddr hcur hle hassert

theorem bvh_summarized_mixed : ∃ t v cur', BufferRun 16384
    (createInternalNode (.line mixedTypes) 30 (linePrims 4) (rootRecord (lineInfo 4 24)) (some 128))
      192 t (.ret v) cur' ∧
      Summarized (.line mixedTypes) (linePrims 4) (rootRecord (lineInfo 4 24)) 128 t v := by
  obtain ⟨t, v, cur', hrun, hv, hassert⟩ := exists_mixedRun
  exact ⟨t, v, cur', hrun, ((bvh_summarized (.line mixedTypes) (linePrims 4)
    (rootRecord (lineInfo 4 24)) (lineInfo_describes (by decide) _)).2.2 30 16384 128 192 cur' t v hv
      (by decide) (by decide) (by decide) hassert).1 hrun⟩

end RTBuild
