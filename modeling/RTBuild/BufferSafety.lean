import RTBuild.Bvh

namespace RTBuild

open Library.Task RTBuild.Splits RTBuild.Children Settings

structure Passes (endBytes : Nat) (t : List BuildEvent) : Prop where
  root : .emit (.assertRoot false) ∉ t
  offsets : endBytes ≤ 2 ^ 37 → .emit (.assert false) ∉ t

variable {b : BuilderT} {t : List BuildEvent} {o : BuildOutcome}

def Plain : BuildEvent → Prop
  | .ask (.malloc _ _) _ => True
  | .ask .bytesAllocated _ => False
  | .emit (.write _ _) => True
  | .emit (.assert _) => True
  | .emit (.assertRoot _) => False
  | .emit (.fatLeaf _ _) => True
  | .emit (.boundsOut _) => False
  | .emit (.accelBufferBytesOut _) => False

theorem plain_storeEvents (stores : List (Nat × Cell)) : ∀ e ∈ storeEvents stores, Plain e := by
  intro e he
  obtain ⟨s, _, rfl⟩ := List.mem_map.1 he
  trivial

theorem plain_finishEvents {curAddr : Option Nat} {childAddr : Nat} {nodeMask : BitVec 8}
    {node : InternalNode} : ∀ e ∈ finishEvents curAddr childAddr nodeMask node, Plain e := by
  intro e he
  simp only [finishEvents, List.mem_cons, List.not_mem_nil, or_false] at he
  rcases he with rfl | rfl <;> trivial

theorem plain_earlyEvents (f : FatImage) (curAddr : Option Nat) :
    ∀ e ∈ f.earlyEvents curAddr, Plain e := by
  intro e he
  obtain ⟨node, _, rfl⟩ := List.mem_map.1 he
  trivial

theorem FatRun.plain {prims : Nat → PrimRef} {r : BuildRecord} {curAddr : Option Nat}
    (h : FatRun b prims r curAddr t o) : ∀ e ∈ t, Plain e := by
  intro e he
  cases h with
  | tooDeep hdepth =>
      rw [List.mem_singleton.1 he]
      trivial
  | full hdepth =>
      simp only [List.mem_cons, List.mem_append, List.not_mem_nil, or_false] at he
      rcases he with rfl | he | rfl
      · trivial
      · exact plain_earlyEvents _ _ e he
      · trivial
  | done childData hdepth =>
      simp only [List.mem_cons, List.mem_append, FatImage.blockEvents] at he
      rcases he with rfl | he | rfl | he | he
      · trivial
      · exact plain_earlyEvents _ _ e he
      · trivial
      · exact plain_storeEvents _ e he
      · exact plain_finishEvents e he

theorem Plan.plain {p : Plan} {curAddr : Option Nat} (h : BuildRun (p.emit b curAddr) t o) :
    ∀ e ∈ t, Plain e := by
  induction p generalizing t o curAddr with
  | throw x =>
      cases h with
      | throw => exact fun e he => absurd he List.not_mem_nil
  | fat prims r => exact (createFatLeaf_run h).plain
  | node parallel children sub ih =>
      intro e he
      rcases (createChildren_run h).tasks with ⟨rfl, _⟩ | ⟨childBase, started, ts, os, w, htasks, ht⟩
      · rw [List.mem_singleton.1 he]
        trivial
      · have hw : e ∈ w → Plain e := fun he => by
          obtain ⟨i, hi, hmem⟩ := htasks.mem he
          exact ih i (htasks.runs i hi) e hmem
        rcases ht with rfl | ⟨nodeMask, node, rfl⟩
        · rcases List.mem_cons.1 he with rfl | he
          · trivial
          · exact hw he
        · simp only [List.mem_cons, List.mem_append] at he
          rcases he with rfl | he | he
          · trivial
          · exact hw he
          · exact plain_finishEvents e he

def Refused : BuildEvent → Prop
  | .ask (.malloc _ _) none => True
  | _ => False

theorem not_refused_storeEvents (stores : List (Nat × Cell)) :
    ∀ e ∈ storeEvents stores, ¬ Refused e := by
  intro e he
  obtain ⟨s, _, rfl⟩ := List.mem_map.1 he
  exact id

theorem not_refused_finishEvents {curAddr : Option Nat} {childAddr : Nat} {nodeMask : BitVec 8}
    {node : InternalNode} : ∀ e ∈ finishEvents curAddr childAddr nodeMask node, ¬ Refused e := by
  intro e he
  simp only [finishEvents, List.mem_cons, List.not_mem_nil, or_false] at he
  rcases he with rfl | rfl <;> exact id

theorem not_refused_earlyEvents (f : FatImage) (curAddr : Option Nat) :
    ∀ e ∈ f.earlyEvents curAddr, ¬ Refused e := by
  intro e he
  obtain ⟨node, _, rfl⟩ := List.mem_map.1 he
  exact id

theorem Plan.not_refused {p : Plan} {curAddr : Option Nat} {v : ReductionTy}
    (h : BuildRun (p.emit b curAddr) t (.ret v)) (hv : v.valid = true) : ∀ e ∈ t, ¬ Refused e := by
  induction p generalizing t curAddr v with
  | throw x => cases h
  | fat prims r =>
      generalize ho : Outcome.ret v = o at h
      cases createFatLeaf_run h with
      | tooDeep hdepth => cases ho
      | full hdepth =>
          cases ho
          cases hv
      | done childData hdepth =>
          intro e he
          simp only [List.mem_cons, List.mem_append, FatImage.blockEvents] at he
          rcases he with rfl | he | rfl | he | he
          · exact id
          · exact not_refused_earlyEvents _ _ e he
          · exact id
          · exact not_refused_storeEvents _ e he
          · exact not_refused_finishEvents e he
  | node parallel children sub ih =>
      generalize ho : Outcome.ret v = o at h
      cases createChildren_run h with
      | full =>
          cases ho
          cases hv
      | failed childBase started ts os w i w' htasks hi hret hw =>
          cases ho
          cases hv
      | threw childBase started ts os w i x htasks hi hthrow => cases ho
      | done childBase ts w values hruns hvalid hweave =>
          intro e he
          simp only [List.mem_cons, List.mem_append] at he
          rcases he with rfl | he | he
          · exact id
          · obtain ⟨i, hi⟩ := hweave.mem_iff.1 he
            exact ih i (hruns i) (hvalid i) e hi
          · exact not_refused_finishEvents e he

/-- Without memory a plan for a null pointer writes nothing but the early node of a fat leaf. -/
theorem Plan.null_root {p : Plan} (h : BuildRun (p.emit b none) t o) (hfull : blocks t = []) :
    (∀ v, o = .ret v → v.valid = false) ∧
      ((∃ prims r node, p = .fat prims r ∧ r.depth ≤ maxDepth ∧
        (FatImage.ofRecord b prims r).early = some node) ↔
        ∃ a cell, .emit (.write a cell) ∈ t) ∧ ∀ a cell, .emit (.write a cell) ∈ t → a = none := by
  have hnever : ∀ block, block ∉ blocks t := List.eq_nil_iff_forall_not_mem.1 hfull
  cases p with
  | throw x =>
      cases h with
      | throw => simp
  | fat prims r =>
      cases createFatLeaf_run h with
      | tooDeep hdepth =>
          refine ⟨fun v hv => (nomatch hv), ⟨?_, ?_⟩, fun a cell he => ?_⟩
          · rintro ⟨prims', r', node, heq, hle, _⟩
            cases heq
            omega
          · rintro ⟨a, cell, he⟩
            cases List.mem_singleton.1 he
          · cases List.mem_singleton.1 he
      | full hdepth =>
          have hevents :
              ∀ a cell, .emit (.write a cell) ∈ (FatImage.ofRecord b prims r).earlyEvents none ↔
              ∃ node, (FatImage.ofRecord b prims r).early = some node ∧ a = none ∧
                cell = .node node := by
            intro a cell
            rw [FatImage.earlyEvents]
            cases (FatImage.ofRecord b prims r).early <;> simp
          refine ⟨fun v hv => Outcome.ret.inj hv ▸ rfl, ⟨?_, ?_⟩, ?_⟩
          · rintro ⟨prims', r', node, heq, hle, hearly⟩
            cases heq
            exact ⟨none, .node node, by simp [hevents, hearly]⟩
          · rintro ⟨a, cell, he⟩
            obtain ⟨node, hearly, _⟩ := (hevents a cell).1 (by simpa using he)
            exact ⟨prims, r, node, rfl, hdepth, hearly⟩
          · intro a cell he
            obtain ⟨node, _, ha, _⟩ := (hevents a cell).1 (by simpa using he)
            exact ha
      | done childData hdepth =>
          exact absurd (mem_blocks.2 ⟨64, by simp⟩)
            (hnever (childData, (FatImage.ofRecord b prims r).bytes))
  | node parallel children sub =>
      rcases (createChildren_run h).tasks with ⟨rfl, rfl⟩ | ⟨childBase, started, ts, os, w, htasks, ht⟩
      · refine ⟨fun v hv => Outcome.ret.inj hv ▸ rfl, ⟨?_, ?_⟩, fun a cell he => ?_⟩
        · rintro ⟨prims, r, node, heq, _⟩
          cases heq
        · rintro ⟨a, cell, he⟩
          cases List.mem_singleton.1 he
        · cases List.mem_singleton.1 he
      · refine absurd (mem_blocks.2 ⟨64, ?_⟩) (hnever (childBase, children.length * nodeBytes))
        rcases ht with rfl | ⟨nodeMask, node, rfl⟩ <;> exact List.mem_cons_self ..

section root

variable {fuel : Nat} {prims : Nat → PrimRef} {pinfo : PrimInfoRange} {endBytes cur cur' : Nat}
  {header root : Option Nat}

theorem buildBvh_plain (h : BuildRun (buildBvh b fuel prims pinfo root) t o) : ∀ e ∈ t, Plain e := by
  rcases buildBvh_run h with ⟨_, rfl, _⟩ | ⟨_, h⟩
  · intro e he
    rw [List.mem_singleton.1 he]
    trivial
  · exact Plan.plain h

theorem buildBvh_neverFull {v : ReductionTy} (h : BuildRun (buildBvh b fuel prims pinfo root) t (.ret v))
    (hv : v.valid = true) : NeverFull t := by
  rcases buildBvh_run h with ⟨_, rfl, _⟩ | ⟨_, h⟩
  · intro bytes align he
    cases List.mem_singleton.1 he
  · exact fun bytes align he => Plan.not_refused h hv _ he trivial

/-- Either the root gets the block after the header, or the allocator is past its end from then on. -/
theorem roots_answered (h : Answered (Serves endBytes) 0 (mallocRoots header root ++ t) cur) :
    (headerBytes + nodeBytes < endBytes ∧ header = some 0 ∧ root = some headerBytes ∧
      Answered (Serves endBytes) (headerBytes + nodeBytes) t cur) ∨
      (endBytes ≤ headerBytes + nodeBytes ∧ root = none ∧ ∃ cur₁, endBytes ≤ cur₁ ∧
        Answered (Serves endBytes) cur₁ t cur) := by
  have hheader : headerBytes = 128 := rfl
  have hnode : nodeBytes = 64 := rfl
  cases h with
  | ask hserve h =>
      cases h with
      | ask hserve' h =>
          cases h with
          | emit h =>
              cases hserve with
              | malloc hserve =>
                  cases hserve' with
                  | malloc hserve' =>
                      cases hserve with
                      | full hfull =>
                          cases hserve' with
                          | full hfull' => exact Or.inr ⟨by omega, rfl, _, hfull', h⟩
                          | taken htaken => omega
                          | overshoot hover => exact Or.inr ⟨by omega, rfl, _, hover, h⟩
                      | taken htaken =>
                          rw [Nat.zero_add] at hserve'
                          cases hserve' with
                          | full hfull' => omega
                          | taken htaken' => exact Or.inl ⟨htaken', rfl, rfl, h⟩
                          | overshoot hover => exact Or.inr ⟨hover, rfl, _, hover, h⟩
                      | overshoot hover =>
                          cases hserve' with
                          | full hfull' => exact Or.inr ⟨by omega, rfl, _, hfull', h⟩
                          | taken htaken => omega
                          | overshoot hover' => exact Or.inr ⟨by omega, rfl, _, hover', h⟩

theorem answered_storeEvents {stores : List (Nat × Cell)}
    (h : Answered (Serves endBytes) cur (storeEvents stores) cur') : cur' = cur := by
  induction stores with
  | nil =>
      cases h with
      | nil => rfl
  | cons s stores ih =>
      cases h with
      | emit h => exact ih h

theorem answered_doneEvents {bounds : BBox3f} {bytes : Option Nat} {v : ReductionTy}
    (h : Answered (Serves endBytes) cur (doneEvents bounds bytes v) cur') :
    bytes = some cur ∧ cur' = cur := by
  cases h with
  | emit h =>
      cases h with
      | ask hserve h =>
          cases hserve with
          | bytesAllocated =>
              cases h with
              | emit h =>
                  obtain ⟨cur₁, hstores, hlast⟩ := h.of_append
                  cases hlast with
                  | emit hnil =>
                      cases hnil with
                      | nil => exact ⟨rfl, answered_storeEvents hstores⟩

theorem build_throw (hfuel : 30 ≤ fuel)
    (hbounds : (rootRecord pinfo).bounds = unionBounds ((rootRecord pinfo).list prims))
    (hrun : BuildRun (build b fuel prims pinfo) t o) :
    ∀ x, o = .throw x → x = .tooDeep ∧ 98304 < (rootRecord pinfo).size := by
  intro x hx
  cases build_run hrun with
  | threw header root t y h =>
      cases hx
      refine ⟨buildBvh_throw hfuel hbounds h x rfl, Nat.lt_of_not_le (fun hsize => ?_)⟩
      exact buildBvh_not_throw hfuel hbounds hsize h x rfl
  | retry header root t v h hv => cases hx
  | done header root t v bytes h hv => cases hx

theorem Plan.isRoot {p : Plan} {v : ReductionTy}
    (h : BuildRun (p.emit b (some headerBytes)) t (.ret v)) (hv : v.valid = true) :
    isRoot v = true := by
  generalize ho : Outcome.ret v = o at h
  cases p with
  | throw x =>
      cases h with
      | throw => cases ho
  | fat prims r =>
      cases createFatLeaf_run h with
      | tooDeep hdepth => cases ho
      | full hdepth =>
          cases ho
          cases hv
      | done childData hdepth =>
          cases ho
          rfl
  | node parallel children sub =>
      cases createChildren_run h with
      | full =>
          cases ho
          cases hv
      | failed childBase started ts os w i w' htasks hi hret hw =>
          cases ho
          cases hv
      | threw childBase started ts os w i x htasks hi hthrow => cases ho
      | done childBase ts w values hruns hvalid hweave =>
          cases ho
          rfl

theorem buildBvh_isRoot {v : ReductionTy}
    (h : BuildRun (buildBvh b fuel prims pinfo (some headerBytes)) t (.ret v)) (hv : v.valid = true) :
    isRoot v = true := by
  rcases buildBvh_run h with ⟨_, _, heq⟩ | ⟨_, h⟩
  · cases heq
    rfl
  · exact Plan.isRoot h hv

theorem buildBvh_asserts (h : BuildRun (buildBvh b fuel prims pinfo (some headerBytes)) t o)
    (hblocks : ∀ block ∈ blocks t, block.1 + block.2 < 2 ^ 37) : .emit (.assert false) ∉ t := by
  rcases buildBvh_run h with ⟨_, rfl, _⟩ | ⟨_, h⟩
  · intro he
    cases List.mem_singleton.1 he
  · intro he
    cases Plan.asserts h (by decide) hblocks false he

/-- With memory for the root no assertion about it fails. -/
theorem passes_of_root (hlt : headerBytes + nodeBytes < endBytes)
    (hrun : BufferRun endBytes (build b fuel prims pinfo) 0 t o cur) : Passes endBytes t := by
  have hout := handedOut hrun.2
  have hroot : ∀ {header root t}, Answered (Serves endBytes) 0 (mallocRoots header root ++ t) cur →
      root = some headerBytes := by
    intro header root t h
    rcases roots_answered h with ⟨_, _, hroot, _⟩ | ⟨hle, _⟩
    · exact hroot
    · omega
  have hsmall : ∀ {t'}, (∀ e ∈ t', e ∈ t) → endBytes ≤ 2 ^ 37 →
      ∀ block ∈ blocks t', block.1 + block.2 < 2 ^ 37 := by
    intro t' hsub hend block hblock
    exact (hout.inside block (List.filterMap_subset _ hsub hblock)).2.2.trans_le hend
  have hplain : ∀ {t' o'}, BuildRun (buildBvh b fuel prims pinfo (some headerBytes)) t' o' →
      .emit (.assertRoot false) ∉ t' := fun h he => buildBvh_plain h _ he
  cases build_run hrun.1 with
  | threw header root t x h =>
      obtain rfl := hroot hrun.2
      constructor
      · simpa [mallocRoots] using hplain h
      · intro hend
        have hassert := buildBvh_asserts h (hsmall (fun e he => List.mem_append_right _ he) hend)
        simpa [mallocRoots] using hassert
  | retry header root t v h hv =>
      obtain rfl := hroot hrun.2
      constructor
      · simpa [mallocRoots] using hplain h
      · intro hend
        have hassert := buildBvh_asserts h (hsmall (fun e he => List.mem_append_right _ he) hend)
        simpa [mallocRoots] using hassert
  | done header root t v bytes h hv =>
      obtain rfl := hroot hrun.2
      constructor
      · simpa [mallocRoots, doneEvents, storeEvents, buildBvh_isRoot h hv] using hplain h
      · intro hend
        have hassert := buildBvh_asserts h
          (hsmall (fun e he => List.mem_append_right _ (List.mem_append_left _ he)) hend)
        simpa [mallocRoots, doneEvents, storeEvents] using hassert

end root

end RTBuild
