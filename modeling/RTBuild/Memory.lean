import RTBuild.Writes

namespace RTBuild

open Library.Task Children

variable {b : BuilderT} {t : List BuildEvent} {o : BuildOutcome} {m : Nat → Option Cell}

def writtenAt (addr : Nat) : BuildEvent → Option Cell
  | .emit (.write (some a) cell) => if a = addr then some cell else none
  | _ => none

@[simp] theorem writtenAt_write (addr a : Nat) (cell : Cell) :
    writtenAt addr (.emit (.write (some a) cell)) = if a = addr then some cell else none := rfl

@[simp] theorem writtenAt_assert (addr : Nat) (ok : Bool) :
    writtenAt addr (.emit (.assert ok)) = none :=
  rfl

def writesAt (t : List BuildEvent) (addr : Nat) : List Cell := t.filterMap (writtenAt addr)

def memory (t : List BuildEvent) (addr : Nat) : Option Cell := (writesAt t addr).getLast?

def Agrees (m : Nat → Option Cell) (t : List BuildEvent) : Prop :=
  ∀ addr, writesAt t addr ≠ [] → m addr = (writesAt t addr).getLast?

theorem agrees_memory (t : List BuildEvent) : Agrees (memory t) t := fun _ _ => rfl

@[simp] theorem writesAt_append (t t' : List BuildEvent) (addr : Nat) :
    writesAt (t ++ t') addr = writesAt t addr ++ writesAt t' addr := List.filterMap_append ..

@[simp] theorem writesAt_ask (q : Query) (a : Option Nat) (t : List BuildEvent) (addr : Nat) :
    writesAt (.ask q a :: t) addr = writesAt t addr := rfl

@[simp] theorem writesAt_fatLeaf (prims : Nat → PrimRef) (r : BuildRecord) (t : List BuildEvent)
    (addr : Nat) :
    writesAt (.emit (.fatLeaf prims r) :: t) addr = writesAt t addr := rfl

@[simp] theorem writesAt_storeEvents (stores : List (Nat × Cell)) (addr : Nat) :
    writesAt (storeEvents stores) addr = storesAt stores addr := by
  rw [writesAt, storeEvents, List.filterMap_map]
  rfl

theorem writesAt_earlyEvents_of_ne (f : FatImage) {a addr : Nat} (h : a ≠ addr) :
    writesAt (f.earlyEvents (some a)) addr = [] := by
  rw [writesAt, FatImage.earlyEvents, List.filterMap_map]
  refine List.filterMap_eq_nil_iff.2 (fun node _ => ?_)
  exact if_neg h

theorem writesAt_finishEvents_of_ne {a addr childAddr : Nat} {nodeMask : BitVec 8}
    {node : InternalNode} (h : a ≠ addr) :
    writesAt (finishEvents (some a) childAddr nodeMask node) addr = [] := by
  simp [writesAt, finishEvents, h]

theorem writesAt_finishEvents (addr childAddr : Nat) (nodeMask : BitVec 8) (node : InternalNode) :
    writesAt (finishEvents (some addr) childAddr nodeMask node) addr =
      [.node ((node.setChildOffset addr childAddr).setNodeMask nodeMask)] := by
  simp [writesAt, finishEvents, List.filterMap_cons]

theorem writesAt_eq_nil {addr : Nat} (h : ∀ cell, .emit (.write (some addr) cell) ∉ t) :
    writesAt t addr = [] := by
  refine List.filterMap_eq_nil_iff.2 (fun e he => ?_)
  rcases e with _ | ⟨_ | a, cell⟩ | _ | _ | _ | _
  · rfl
  · rfl
  · by_cases ha : a = addr
    · subst ha
      exact absurd he (h cell)
    · exact if_neg ha
  all_goals rfl

theorem mem_of_writesAt {addr : Nat} (h : writesAt t addr ≠ []) :
    ∃ cell, .emit (.write (some addr) cell) ∈ t := by
  by_contra hnone
  exact h (writesAt_eq_nil (fun cell he => hnone ⟨cell, he⟩))

/-- Nothing else than what was written is found in a memory. -/
theorem mem_of_memory {addr : Nat} {cell : Cell} (h : memory t addr = some cell) :
    .emit (.write (some addr) cell) ∈ t := by
  obtain ⟨e, he, hwritten⟩ := List.mem_filterMap.1 (List.mem_of_getLast? h)
  rcases e with _ | ⟨_ | a, cell'⟩ | _ | _ | _ | _
  case emit.write.some =>
    rw [writtenAt_write] at hwritten
    split at hwritten
    next ha =>
      cases hwritten
      rwa [← ha]
    · cases hwritten
  all_goals cases hwritten

/-- The end of a trace that finishes a node. -/
theorem Agrees.node {addr childAddr : Nat} {nodeMask : BitVec 8} {node : InternalNode}
    (h : Agrees m (t ++ finishEvents (some addr) childAddr nodeMask node)) :
    m addr = some (.node ((node.setChildOffset addr childAddr).setNodeMask nodeMask)) := by
  have hwrites := writesAt_finishEvents addr childAddr nodeMask node
  rw [h addr (by simp [hwrites]), writesAt_append, hwrites, List.getLast?_append]
  rfl

def Apart (x y : Nat × Nat) : Prop := x.1 + x.2 ≤ y.1 ∨ y.1 + y.2 ≤ x.1

theorem Apart.symm {x y : Nat × Nat} (h : Apart x y) : Apart y x := Or.symm h

/-- A node and the blocks that were allocated for what is below it. -/
structure Layout (addr : Nat) (t : List BuildEvent) : Prop where
  addr_mod : addr % 64 = 0
  base_mod : ∀ block ∈ blocks t, block.1 % 64 = 0
  outside : ∀ block ∈ blocks t, Apart (addr, 64) block
  apart : (blocks t).Pairwise Apart

theorem Layout.ne_of_inBlock {addr a : Nat} (h : Layout addr t) (ha : InBlock t a) : addr ≠ a := by
  obtain ⟨block, hmem, hinside⟩ := ha
  have hle := hinside.base_le
  have hend := hinside.le_end
  rintro rfl
  rcases h.outside block hmem with hapart | hapart <;> simp only at hapart <;> omega

section children

variable {addr n childBase : Nat} {ts : Fin n → List BuildEvent} {w rest : List BuildEvent}

theorem blocks_cons_mallocChildren :
    blocks (mallocChildren n (some childBase) :: (w ++ rest)) =
      (childBase, n * nodeBytes) :: (blocks w ++ blocks rest) := by
  simp [blocks, mallocChildren, servedBlock]

/-- The nodes of the children are apart from each other and from all later blocks. -/
theorem Layout.child (h : Layout addr (mallocChildren n (some childBase) :: (w ++ rest)))
    (hweave : Interleaves ts w) (i : Fin n) : Layout (childBase + i * nodeBytes) (ts i) := by
  obtain ⟨haddr, hmod, _, hapart⟩ := h
  rw [blocks_cons_mallocChildren] at hmod hapart
  obtain ⟨hfirst, hrest⟩ := List.pairwise_cons.1 hapart
  have hsub : (blocks (ts i)).Sublist (blocks w) := (hweave.sublist i).filterMap _
  have hmem : ∀ block ∈ blocks (ts i), block ∈ blocks w ++ blocks rest :=
    fun block hblock => List.mem_append_left _ (hsub.subset hblock)
  have hbytes : nodeBytes = 64 := rfl
  have hi := i.isLt
  refine ⟨?_, fun block hblock => hmod block (List.mem_cons_of_mem _ (hmem block hblock)),
    fun block hblock => ?_, (List.pairwise_append.1 hrest).1.sublist hsub⟩
  · have hbase := hmod _ (List.mem_cons_self ..)
    simp only [hbytes] at hbase ⊢
    omega
  · have hdisjoint := hfirst block (hmem block hblock)
    simp only [Apart, hbytes] at hdisjoint ⊢
    omega

theorem Layout.siblings (h : Layout addr (mallocChildren n (some childBase) :: (w ++ rest)))
    (hweave : Interleaves ts w) {i j : Fin n} (hij : i ≠ j) :
    ∀ x ∈ blocks (ts i), ∀ y ∈ blocks (ts j), Apart x y := by
  have hapart := h.apart
  rw [blocks_cons_mallocChildren] at hapart
  have hw := (List.pairwise_append.1 (List.pairwise_cons.1 hapart).2).1
  exact ((hweave.filterMap servedBlock).pairwise (fun _ _ => Apart.symm) hw).2 i j hij

def Owns (childBase : Nat) (ts : Fin n → List BuildEvent) (i : Fin n) (a : Nat) : Prop :=
  a = childBase + i * nodeBytes ∨ InBlock (ts i) a

theorem Owns.inBlock {i : Fin n} {a : Nat} (h : Owns childBase ts i a) (hweave : Interleaves ts w) :
    InBlock (mallocChildren n (some childBase) :: (w ++ rest)) a := by
  rcases h with rfl | h
  · refine ⟨(childBase, n * nodeBytes), mem_blocks.2 ⟨64, List.mem_cons_self ..⟩, ?_⟩
    have hbytes : nodeBytes = 64 := rfl
    have hi := i.isLt
    constructor <;> simp only [hbytes] <;> omega
  · refine h.mono (fun e he => List.mem_cons_of_mem _ (List.mem_append_left _ ?_))
    exact (hweave.sublist i).subset he

theorem Layout.owner_unique (h : Layout addr (mallocChildren n (some childBase) :: (w ++ rest)))
    (hweave : Interleaves ts w) {i j : Fin n} {a : Nat} (hi : Owns childBase ts i a)
    (hj : Owns childBase ts j a) : i = j := by
  have hbytes : nodeBytes = 64 := rfl
  have hfirst : ∀ {k : Fin n}, ∀ block ∈ blocks (ts k), Apart (childBase, n * nodeBytes) block := by
    intro k block hblock
    have hapart := h.apart
    rw [blocks_cons_mallocChildren] at hapart
    have hsub : blocks (ts k) ⊆ blocks w := ((hweave.sublist k).filterMap _).subset
    exact (List.pairwise_cons.1 hapart).1 block (List.mem_append_left _ (hsub hblock))
  -- the node of a child is in the first block, which is apart from what is below any child
  have hnode : ∀ {k l : Fin n}, ¬ InBlock (ts l) (childBase + k * nodeBytes) := by
    rintro k l ⟨block, hblock, hinside⟩
    have hapart := hfirst block hblock
    have hk := k.isLt
    have hle := hinside.base_le
    have hend := hinside.le_end
    simp only [Apart, hbytes] at hapart hle hend
    omega
  rcases hi with rfl | hi
  · rcases hj with hj | hj
    · exact Fin.ext (by simp only [hbytes] at hj; omega)
    · exact (hnode hj).elim
  · rcases hj with rfl | hj
    · exact (hnode hi).elim
    · by_contra hij
      obtain ⟨x, hx, hxa⟩ := hi
      obtain ⟨y, hy, hya⟩ := hj
      have hapart := h.siblings hweave hij x hx y hy
      have hxle := hxa.base_le
      have hxend := hxa.le_end
      have hyle := hya.base_le
      have hyend := hya.le_end
      simp only [Apart] at hapart
      omega

/-- What the task of a child leaves in memory, no other task of the node changes. -/
theorem Agrees.child {childAddr : Nat} {nodeMask : BitVec 8} {node : InternalNode}
    (h : Agrees m
      (mallocChildren n (some childBase) :: (w ++ finishEvents (some addr) childAddr nodeMask node)))
    (hlayout : Layout addr
      (mallocChildren n (some childBase) :: (w ++ finishEvents (some addr) childAddr nodeMask node)))
    (hweave : Interleaves ts w)
    (hwrites : ∀ i a cell, .emit (.write a cell) ∈ ts i → ∃ a', a = some a' ∧ Owns childBase ts i a')
    (i : Fin n) : Agrees m (ts i) := by
  intro a ha
  have howns : ∀ {j cell}, .emit (.write (some a) cell) ∈ ts j → Owns childBase ts j a := by
    intro j cell he
    obtain ⟨a', heq, howner⟩ := hwrites j _ cell he
    rwa [Option.some.inj heq]
  obtain ⟨cell, hcell⟩ := mem_of_writesAt ha
  have hi := howns hcell
  have hothers : ∀ j, j ≠ i → writesAt (ts j) a = [] :=
    fun j hj => writesAt_eq_nil (fun cell he => hj (hlayout.owner_unique hweave (howns he) hi))
  have hw : writesAt w a = writesAt (ts i) a := (hweave.filterMap (writtenAt a)).eq_of_others_nil hothers
  have hfinish : writesAt (finishEvents (some addr) childAddr nodeMask node) a = [] :=
    writesAt_finishEvents_of_ne (hlayout.ne_of_inBlock (hi.inBlock hweave))
  have hall : writesAt (mallocChildren n (some childBase) ::
      (w ++ finishEvents (some addr) childAddr nodeMask node)) a = writesAt (ts i) a := by
    rw [mallocChildren, writesAt_ask, writesAt_append, hw, hfinish, List.append_nil]
  rw [← hall] at ha ⊢
  exact h a ha

end children

section allocator

variable {endBytes cur cur' : Nat}

/-- Blocks of whole cells are aligned, once the allocator is. -/
theorem base_mod_of_answered (h : Answered (Serves endBytes) cur t cur') (hcur : cur % 64 = 0)
    (hbytes : ∀ block ∈ blocks t, block.2 % 64 = 0) : ∀ block ∈ blocks t, block.1 % 64 = 0 := by
  induction h with
  | nil cur => exact fun _ hmem => absurd hmem List.not_mem_nil
  | @ask cur cur₁ cur₂ q a t hserve ht ih =>
      cases hserve with
      | malloc hserve =>
          cases hserve with
          | full hfull => exact ih hcur hbytes
          | taken htaken =>
              simp only [blocks, List.filterMap_cons, servedBlock] at hbytes ⊢
              obtain ⟨hfirst, hrest⟩ := List.forall_mem_cons.1 hbytes
              exact List.forall_mem_cons.2 ⟨hcur, ih (by simp only at hfirst; omega) hrest⟩
          | overshoot hover =>
              intro block hblock
              have hblock' : block ∈ blocks t := hblock
              rw [blocks_eq_nil ht hover] at hblock'
              exact absurd hblock' List.not_mem_nil
      | bytesAllocated => exact ih hcur hbytes
  | emit ht ih => exact ih hcur hbytes

theorem FatImage.bytes_mod (b : BuilderT) (prims : Nat → PrimRef) (r : BuildRecord) :
    (ofRecord b prims r).bytes % 64 = 0 := by
  rw [ofRecord]
  cases b.getType (prims r.begin_).geomID with
  | triangle => exact Nat.mul_mod_left _ 64
  | quad => exact Nat.mul_mod_left _ 64
  | procedural => exact Nat.mul_mod_left _ 64
  | inst =>
      simp only [ofInstances, sizeofInstanceLeaf]
      omega

def WholeCells (t : List BuildEvent) : Prop :=
  ∀ bytes align a, .ask (.malloc bytes align) a ∈ t → bytes % 64 = 0 ∧ align ∣ 64

theorem WholeCells.append {t t' : List BuildEvent} (h : WholeCells t) (h' : WholeCells t') :
    WholeCells (t ++ t') :=
  fun bytes align a he => (List.mem_append.1 he).elim (h bytes align a) (h' bytes align a)

theorem FatRun.wholeCells {prims : Nat → PrimRef} {r : BuildRecord} {curAddr : Option Nat}
    (h : FatRun b prims r curAddr t o) : WholeCells t := by
  have hmod := FatImage.bytes_mod b prims r
  intro bytes align a he
  cases h with
  | tooDeep hdepth => simp at he
  | full hdepth =>
      simp only [List.mem_cons, List.mem_append, FatImage.earlyEvents, List.mem_map, List.not_mem_nil,
        reduceCtorEq, and_false, exists_false, false_or, or_false] at he
      cases he
      exact ⟨hmod, dvd_rfl⟩
  | done childData hdepth =>
      simp only [List.mem_cons, List.mem_append, FatImage.earlyEvents, FatImage.blockEvents,
        storeEvents, finishEvents, List.mem_map, List.not_mem_nil, reduceCtorEq, and_false,
        exists_false, false_or, or_false] at he
      cases he
      exact ⟨hmod, dvd_rfl⟩

theorem Plan.wholeCells {p : Plan} {curAddr : Option Nat} (h : BuildRun (p.emit b curAddr) t o) :
    WholeCells t := by
  induction p generalizing t o curAddr with
  | throw x =>
      cases h with
      | throw => exact fun _ _ _ hmem => absurd hmem List.not_mem_nil
  | fat prims r => exact (createFatLeaf_run h).wholeCells
  | node parallel children sub ih =>
      have hfirst : ∀ childBase, WholeCells [mallocChildren children.length childBase] := by
        intro childBase bytes align a he
        cases List.mem_singleton.1 he
        exact ⟨Nat.mul_mod_left _ 64, dvd_rfl⟩
      rcases (createChildren_run h).tasks with ⟨rfl, _⟩ | ⟨childBase, started, ts, os, w, htasks, ht⟩
      · exact hfirst none
      · have hw : WholeCells w := by
          intro bytes align a he
          obtain ⟨i, hi, he⟩ := htasks.mem he
          exact ih i (htasks.runs i hi) bytes align a he
        rcases ht with rfl | ⟨nodeMask, node, rfl⟩
        · exact (hfirst _).append hw
        · refine (hfirst _).append (hw.append (fun bytes align a he => ?_))
          simp [finishEvents] at he

theorem WholeCells.blocks (h : WholeCells t) : ∀ block ∈ blocks t, block.2 % 64 = 0 := by
  intro block hblock
  obtain ⟨align, he⟩ := mem_blocks.1 hblock
  exact (h _ _ _ he).1

/-- A run over a buffer keeps what it allocates apart, and apart from a node in front of it. -/
theorem Plan.layout {p : Plan} {addr : Nat} (h : BufferRun endBytes (p.emit b (some addr)) cur t o cur')
    (haddr : addr % 64 = 0) (hcur : cur % 64 = 0) (hle : addr + 64 ≤ cur) : Layout addr t := by
  have hout := handedOut h.2
  exact ⟨haddr, base_mod_of_answered h.2 hcur (wholeCells h.1).blocks,
    fun block hblock => Or.inl (hle.trans (hout.inside block hblock).1), hout.apart.imp Or.inl⟩

end allocator

end RTBuild
