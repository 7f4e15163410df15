import RTBuild.Allocator
import RTBuild.Plan

namespace RTBuild

open Library.Task

abbrev BuildEvent := Event Query (Option Nat) Action

abbrev BuildOutcome := Outcome Error ReductionTy

abbrev BuildRun := Run (Q := Query) (A := Option Nat) (E := Action) (X := Error) ReductionTy.valid

/-- How the allocator of a buffer answers its callers, each call at one moment. -/
inductive Serves (endBytes : Nat) : Nat → Query → Option Nat → Nat → Prop
  | malloc {cur cur' bytes align : Nat} {result : Option Nat}
      (h : Allocator.Serve endBytes cur ⟨bytes, result⟩ cur') :
        Serves endBytes cur (.malloc bytes align) result cur'
  | bytesAllocated (cur : Nat) : Serves endBytes cur .bytesAllocated (some cur) cur

theorem serves_total (endBytes cur : Nat) (q : Query) : ∃ a cur', Serves endBytes cur q a cur' := by
  cases q with
  | malloc bytes align =>
      by_cases h : cur + bytes < endBytes
      · exact ⟨_, _, .malloc (.taken h)⟩
      · exact ⟨_, _, .malloc (.overshoot (Nat.le_of_not_lt h))⟩
  | bytesAllocated => exact ⟨_, _, .bytesAllocated cur⟩

def BufferRun (endBytes : Nat) (p : BuildTask) (cur : Nat) (t : List BuildEvent) (o : BuildOutcome)
    (cur' : Nat) : Prop :=
  BuildRun p t o ∧ Answered (Serves endBytes) cur t cur'

theorem exists_bufferRun (endBytes : Nat) (p : BuildTask) (cur : Nat) :
    ∃ t o cur', BufferRun endBytes p cur t o cur' :=
  exists_run (serves_total endBytes) p cur

def storeEvents (stores : List (Nat × Cell)) : List BuildEvent :=
  stores.map (fun s => .emit (.write (some s.1) s.2))

def finishEvents (curAddr : Option Nat) (childAddr : Nat) (nodeMask : BitVec 8) (node : InternalNode) :
    List BuildEvent :=
  [.emit (.assert (InternalNode.offsetFits (curAddr.getD 0) childAddr)),
    .emit (.write curAddr
      (.node ((node.setChildOffset (curAddr.getD 0) childAddr).setNodeMask nodeMask)))]

def nodeValue (curAddr : Option Nat) (nodeMask : BitVec 8) : ReductionTy :=
  ⟨curAddr, .internal, nodeMask, ⟨1, 0⟩⟩

variable {t : List BuildEvent} {o : BuildOutcome}

theorem finishNode_run {curAddr : Option Nat} {childAddr : Nat} {nodeMask : BitVec 8}
    {node : InternalNode} (h : BuildRun (finishNode curAddr childAddr nodeMask node) t o) :
    t = finishEvents curAddr childAddr nodeMask node ∧ o = .ret (nodeValue curAddr nodeMask) := by
  cases h with
  | emit h =>
      cases h with
      | emit h =>
          cases h with
          | ret => exact ⟨rfl, rfl⟩

theorem writes_run {stores : List (Nat × Cell)} {k : BuildTask} (h : BuildRun (writes stores k) t o) :
    ∃ t', t = storeEvents stores ++ t' ∧ BuildRun k t' o := by
  obtain ⟨t', rfl, hk⟩ := h.of_emits
  exact ⟨t', by rw [storeEvents, List.map_map, Function.comp_def], hk⟩

namespace FatImage

def earlyEvents (f : FatImage) (curAddr : Option Nat) : List BuildEvent :=
  f.early.toList.map (fun node => .emit (.write curAddr (.node node)))

def blockEvents (f : FatImage) (curAddr : Option Nat) (childData : Nat) : List BuildEvent :=
  storeEvents (f.block childData).stores ++
    finishEvents curAddr (f.block childData).childPtr (f.block childData).nodeMask
      (f.block childData).node

/-- A fat leaf is created completely, or nothing but its early node is written. -/
theorem emit_run {f : FatImage} {curAddr : Option Nat} (h : BuildRun (f.emit curAddr) t o) :
    (t = f.earlyEvents curAddr ++ [.ask (.malloc f.bytes 64) none] ∧ o = .ret .invalid) ∨
      ∃ childData, t = f.earlyEvents curAddr ++ .ask (.malloc f.bytes 64)
        (some childData) :: f.blockEvents curAddr childData ∧
        o = .ret (nodeValue curAddr (f.block childData).nodeMask) := by
  rw [emit] at h
  obtain ⟨t', rfl, hask⟩ := h.of_emits
  have hearly : (f.early.toList.map (fun node => Action.write curAddr (.node node))).map Event.emit =
      f.earlyEvents curAddr := by
    rw [earlyEvents, List.map_map, Function.comp_def]
  rw [hearly]
  cases hask with
  | ask a hk =>
      rcases a with _ | childData
      · cases hk with
        | ret => exact Or.inl ⟨rfl, rfl⟩
      · obtain ⟨t'', rfl, hrun⟩ := writes_run hk
        obtain ⟨rfl, rfl⟩ := finishNode_run hrun
        exact Or.inr ⟨childData, rfl, rfl⟩

end FatImage

inductive FatRun (b : BuilderT) (prims : Nat → PrimRef) (r : BuildRecord) (curAddr : Option Nat) :
    List BuildEvent → BuildOutcome → Prop
  | tooDeep (h : Settings.maxDepth < r.depth) : FatRun b prims r curAddr [.emit (.fatLeaf prims r)]
      (.throw .tooDeep)
  | full (h : r.depth ≤ Settings.maxDepth) :
      FatRun b prims r curAddr
        (.emit (.fatLeaf prims r) :: ((FatImage.ofRecord b prims r).earlyEvents curAddr ++
          [.ask (.malloc (FatImage.ofRecord b prims r).bytes 64) none])) (.ret .invalid)
  | done (childData) (h : r.depth ≤ Settings.maxDepth) :
      FatRun b prims r curAddr
        (.emit (.fatLeaf prims r) :: ((FatImage.ofRecord b prims r).earlyEvents curAddr ++
          .ask (.malloc (FatImage.ofRecord b prims r).bytes 64) (some childData) ::
            (FatImage.ofRecord b prims r).blockEvents curAddr childData))
        (.ret (nodeValue curAddr ((FatImage.ofRecord b prims r).block childData).nodeMask))

theorem createFatLeaf_run {b : BuilderT} {prims : Nat → PrimRef} {r : BuildRecord} {curAddr : Option Nat}
    (h : BuildRun (createFatLeaf b prims r curAddr) t o) : FatRun b prims r curAddr t o := by
  rw [createFatLeaf_eq] at h
  cases h with
  | emit h =>
      by_cases hdepth : Settings.maxDepth < r.depth
      · rw [if_pos hdepth] at h
        cases h with
        | throw => exact .tooDeep hdepth
      · rw [if_neg hdepth] at h
        have hle : r.depth ≤ Settings.maxDepth := Nat.le_of_not_lt hdepth
        rcases FatImage.emit_run h with ⟨rfl, rfl⟩ | ⟨childData, rfl, rfl⟩
        · exact .full hle
        · exact .done childData hle

structure TaskRuns {n : Nat} (task : Fin n → BuildTask) (started : Fin n → Bool)
    (ts : Fin n → List BuildEvent) (os : Fin n → BuildOutcome) (w : List BuildEvent) : Prop where
  runs : ∀ i, started i = true → BuildRun (task i) (ts i) (os i)
  idle : ∀ i, started i = false → ts i = []
  weave : Interleaves ts w

theorem TaskRuns.all {n : Nat} {task : Fin n → BuildTask} {ts : Fin n → List BuildEvent}
    {os : Fin n → BuildOutcome} {w : List BuildEvent} (hruns : ∀ i, BuildRun (task i) (ts i) (os i))
    (hweave : Interleaves ts w) : TaskRuns task (fun _ => true) ts os w :=
  ⟨fun i _ => hruns i, fun _ hi => Bool.noConfusion hi, hweave⟩

theorem TaskRuns.mem {n : Nat} {task : Fin n → BuildTask} {started : Fin n → Bool}
    {ts : Fin n → List BuildEvent} {os : Fin n → BuildOutcome} {w : List BuildEvent}
    (h : TaskRuns task started ts os w) {e : BuildEvent} (he : e ∈ w) :
    ∃ i, started i = true ∧ e ∈ ts i := by
  obtain ⟨i, hi⟩ := h.weave.mem_iff.1 he
  cases hstarted : started i with
  | true => exact ⟨i, hstarted, hi⟩
  | false =>
      rw [h.idle i hstarted] at hi
      exact absurd hi List.not_mem_nil

def mallocChildren (n : Nat) (childBase : Option Nat) : BuildEvent :=
  .ask (.malloc (n * nodeBytes) 64) childBase

inductive ChildrenRun (curAddr : Option Nat) (children : List BuildRecord)
    (recurse : Fin children.length → Option Nat → BuildTask) : List BuildEvent → BuildOutcome → Prop
  | full : ChildrenRun curAddr children recurse [mallocChildren children.length none] (.ret .invalid)
  | failed (childBase : Nat) (started ts os w) (i : Fin children.length) (v : ReductionTy)
      (htasks : TaskRuns (fun i => recurse i (some (childBase + i * nodeBytes))) started ts os w)
      (hi : started i = true) (hret : os i = .ret v) (hv : v.valid = false) :
      ChildrenRun curAddr children recurse (mallocChildren children.length (some childBase) :: w)
        (.ret .invalid)
  | threw (childBase : Nat) (started ts os w) (i : Fin children.length) (x : Error)
      (htasks : TaskRuns (fun i => recurse i (some (childBase + i * nodeBytes))) started ts os w)
      (hi : started i = true) (hthrow : os i = .throw x) :
      ChildrenRun curAddr children recurse (mallocChildren children.length (some childBase) :: w)
        (.throw x)
  | done (childBase : Nat) (ts w) (values : Fin children.length → ReductionTy)
      (hruns : ∀ i, BuildRun (recurse i (some (childBase + i * nodeBytes))) (ts i) (.ret (values i)))
      (hvalid : ∀ i, (values i).valid = true) (hweave : Interleaves ts w) :
      ChildrenRun curAddr children recurse
        (mallocChildren children.length (some childBase) :: (w ++ finishEvents curAddr childBase
          (valuesMask (List.ofFn values)) (childrenNode .internal children (List.ofFn values))))
        (.ret (nodeValue curAddr (valuesMask (List.ofFn values))))

/-- What all runs that get as far as the tasks have in common. -/
theorem ChildrenRun.tasks {curAddr : Option Nat} {children : List BuildRecord}
    {recurse : Fin children.length → Option Nat → BuildTask}
    (h : ChildrenRun curAddr children recurse t o) :
    (t = [mallocChildren children.length none] ∧ o = .ret .invalid) ∨
      ∃ childBase started ts os w,
        TaskRuns (fun i => recurse i (some (childBase + i * nodeBytes))) started ts os w ∧
        (t = mallocChildren children.length (some childBase) :: w ∨
          ∃ nodeMask node, t = mallocChildren children.length (some childBase) ::
            (w ++ finishEvents curAddr childBase nodeMask node)) := by
  cases h with
  | full => exact Or.inl ⟨rfl, rfl⟩
  | failed childBase started ts os w i v htasks hi hret hv =>
      exact Or.inr ⟨childBase, started, ts, os, w, htasks, Or.inl rfl⟩
  | threw childBase started ts os w i x htasks hi hthrow =>
      exact Or.inr ⟨childBase, started, ts, os, w, htasks, Or.inl rfl⟩
  | done childBase ts w values hruns hvalid hweave =>
      exact Or.inr ⟨childBase, _, ts, _, w, .all hruns hweave, Or.inr ⟨_, _, rfl⟩⟩

theorem runTasks_run {parallel : Bool} {n : Nat} {task : Fin n → BuildTask}
    {k : Option (Fin n → ReductionTy) → BuildTask} (h : BuildRun (runTasks parallel n task k) t o) :
    BuildRun (.par n task k) t o := by
  rw [runTasks] at h
  cases parallel with
  | true => exact h
  | false => exact h.of_serial

theorem createChildren_run {parallel : Bool} {curAddr : Option Nat} {children : List BuildRecord}
    {recurse : Fin children.length → Option Nat → BuildTask}
    (h : BuildRun (createChildren parallel curAddr children recurse) t o) :
    ChildrenRun curAddr children recurse t o := by
  cases h with
  | ask a hk =>
      rcases a with _ | childBase
      · cases hk with
        | ret => exact .full
      · cases runTasks_run hk with
        | par started ts os r htasks hidle hweave hjoin hk =>
            cases hjoin with
            | done values hall =>
                obtain ⟨rfl, rfl⟩ := finishNode_run hk
                refine .done childBase ts _ values (fun i => ?_) (fun i => (hall i).2.2) hweave
                rw [← (hall i).2.1]
                exact htasks i (hall i).1
            | fail i v hi hret hv hothers =>
                cases hk with
                | ret =>
                    rw [List.append_nil]
                    exact .failed childBase started ts os _ i v ⟨htasks, hidle, hweave⟩ hi hret hv
        | parThrow started ts os x htasks hidle hweave hjoin =>
            cases hjoin with
            | throw i _ hi hthrow =>
                exact .threw childBase started ts os _ i x ⟨htasks, hidle, hweave⟩ hi hthrow

/-- The empty scene gets an empty node, and every other scene the plan of its root record. -/
theorem buildBvh_run {b : BuilderT} {fuel : Nat} {prims : Nat → PrimRef} {pinfo : PrimInfoRange}
    {root : Option Nat} (h : BuildRun (buildBvh b fuel prims pinfo root) t o) :
    ((rootRecord pinfo).size = 0 ∧ t = [.emit (.write root (.node (.ofType .internal)))] ∧
        o = .ret ⟨root, .internal, 0, ⟨1, 0⟩⟩) ∨
      (0 < (rootRecord pinfo).size ∧
        BuildRun ((Plan.internalNode b fuel prims (rootRecord pinfo)).emit b root) t o) := by
  rw [buildBvh] at h
  by_cases hzero : pinfo.end_ - pinfo.begin_ = 0
  · rw [if_pos hzero] at h
    cases h with
    | emit h =>
        cases h with
        | ret => exact Or.inl ⟨hzero, rfl, rfl⟩
  · rw [if_neg hzero, createInternalNode_eq] at h
    exact Or.inr ⟨Nat.pos_of_ne_zero hzero, h⟩

def mallocRoots (header root : Option Nat) : List BuildEvent :=
  [.ask (.malloc headerBytes 16) header, .ask (.malloc nodeBytes 64) root,
    .emit (.assertRoot root.isSome)]

def doneEvents (bounds : BBox3f) (bytes : Option Nat) (r : ReductionTy) : List BuildEvent :=
  .emit (.boundsOut bounds) :: .ask .bytesAllocated bytes ::
    .emit (.accelBufferBytesOut (bytes.getD 0)) ::
      (storeEvents (consecutive 0 [.header, .header]) ++ [.emit (.assertRoot (isRoot r))])

inductive BuilderRun (b : BuilderT) (fuel : Nat) (prims : Nat → PrimRef) (pinfo : PrimInfoRange) :
    List BuildEvent → BuildOutcome → Prop
  | threw (header root t x) (h : BuildRun (buildBvh b fuel prims pinfo root) t (.throw x)) :
      BuilderRun b fuel prims pinfo (mallocRoots header root ++ t) (.throw x)
  | retry (header root t v) (h : BuildRun (buildBvh b fuel prims pinfo root) t (.ret v))
      (hv : v.valid = false) :
      BuilderRun b fuel prims pinfo (mallocRoots header root ++ t) (.ret v)
  | done (header root t v bytes) (h : BuildRun (buildBvh b fuel prims pinfo root) t (.ret v))
      (hv : v.valid = true) :
      BuilderRun b fuel prims pinfo
        (mallocRoots header root ++ (t ++ doneEvents pinfo.geomBounds bytes v)) (.ret v)

theorem build_run {b : BuilderT} {fuel : Nat} {prims : Nat → PrimRef} {pinfo : PrimInfoRange}
    (h : BuildRun (build b fuel prims pinfo) t o) : BuilderRun b fuel prims pinfo t o := by
  rw [build] at h
  cases h with
  | ask header h =>
      cases h with
      | ask root h =>
          cases h with
          | emit h =>
              rcases h.of_bind with ⟨x, hrun, rfl⟩ | ⟨v, t₁, t₂, hrun, hrest, rfl⟩
              · exact .threw header root _ x hrun
              · cases hv : v.valid with
                | false =>
                    rw [hv] at hrest
                    cases hrest with
                    | ret =>
                        rw [List.append_nil]
                        exact .retry header root t₁ v hrun hv
                | true =>
                    rw [hv] at hrest
                    cases hrest with
                    | emit hrest =>
                        cases hrest with
                        | ask bytes hrest =>
                            cases hrest with
                            | emit hrest =>
                                obtain ⟨t', rfl, hlast⟩ := writes_run hrest
                                cases hlast with
                                | emit hret =>
                                    cases hret with
                                    | ret => exact .done header root t₁ v bytes hrun hv

end RTBuild
