import RTBuild.Blocks
import RTBuild.Depth
import RTBuild.SizeEstimate

namespace RTBuild

open Library.Task RTBuild.Splits RTBuild.Children Settings

def mallocBytes : BuildEvent → Nat
  | .ask (.malloc bytes _) _ => bytes
  | _ => 0

def requestedBytes (t : List BuildEvent) : Nat := (t.map mallocBytes).sum

@[simp] theorem requestedBytes_cons (e : BuildEvent) (t : List BuildEvent) :
    requestedBytes (e :: t) = mallocBytes e + requestedBytes t := by
  simp [requestedBytes]

@[simp] theorem requestedBytes_append (t t' : List BuildEvent) :
    requestedBytes (t ++ t') = requestedBytes t + requestedBytes t' := by
  simp [requestedBytes]

@[simp] theorem requestedBytes_nil : requestedBytes [] = 0 := rfl

@[simp] theorem requestedBytes_storeEvents (stores : List (Nat × Cell)) :
    requestedBytes (storeEvents stores) = 0 := by
  induction stores with
  | nil => rfl
  | cons s stores ih =>
      exact (requestedBytes_cons _ (storeEvents stores)).trans (by simpa [mallocBytes] using ih)

@[simp] theorem requestedBytes_finishEvents (curAddr : Option Nat) (childAddr : Nat)
    (nodeMask : BitVec 8) (node : InternalNode) :
    requestedBytes (finishEvents curAddr childAddr nodeMask node) = 0 :=
  rfl

@[simp] theorem requestedBytes_earlyEvents (f : FatImage) (curAddr : Option Nat) :
    requestedBytes (f.earlyEvents curAddr) = 0 := by
  rw [FatImage.earlyEvents]
  cases f.early <;> rfl

@[simp] theorem mallocBytes_mallocChildren (n : Nat) (childBase : Option Nat) :
    mallocBytes (mallocChildren n childBase) = n * nodeBytes := rfl

def Plan.bytes (b : BuilderT) : Plan → Nat
  | .throw _ => 0
  | .fat prims r => (FatImage.ofRecord b prims r).bytes
  | .node _ children sub => children.length * nodeBytes + ∑ i, (sub i).bytes b

variable {b : BuilderT} {t : List BuildEvent} {o : BuildOutcome}

theorem FatRun.requestedBytes_le {prims : Nat → PrimRef} {r : BuildRecord} {curAddr : Option Nat}
    (h : FatRun b prims r curAddr t o) : requestedBytes t ≤ (FatImage.ofRecord b prims r).bytes := by
  cases h with
  | tooDeep hdepth => exact Nat.zero_le _
  | full hdepth => simp [mallocBytes]
  | done childData hdepth => simp [mallocBytes, FatImage.blockEvents]

theorem TaskRuns.requestedBytes_le {n : Nat} {task : Fin n → BuildTask} {started : Fin n → Bool}
    {ts : Fin n → List BuildEvent} {os : Fin n → BuildOutcome} {w : List BuildEvent}
    (h : TaskRuns task started ts os w) {bytes : Fin n → Nat}
    (hbytes : ∀ i, started i = true → requestedBytes (ts i) ≤ bytes i) :
    requestedBytes w ≤ ∑ i, bytes i := by
  rw [requestedBytes, h.weave.sum_map]
  refine Finset.sum_le_sum (fun i _ => ?_)
  cases hi : started i with
  | true => exact hbytes i hi
  | false =>
      rw [h.idle i hi]
      exact Nat.zero_le _

theorem Plan.requestedBytes_le {p : Plan} {curAddr : Option Nat} (h : BuildRun (p.emit b curAddr) t o) :
    requestedBytes t ≤ p.bytes b := by
  induction p generalizing t o curAddr with
  | throw x =>
      cases h with
      | throw => exact Nat.zero_le _
  | fat prims r => exact (createFatLeaf_run h).requestedBytes_le
  | node parallel children sub ih =>
      rw [Plan.bytes]
      rcases (createChildren_run h).tasks with ⟨rfl, _⟩ | ⟨childBase, started, ts, os, w, htasks, ht⟩
      · simp
      · have hw := htasks.requestedBytes_le (fun i hi => ih i (htasks.runs i hi))
        rcases ht with rfl | ⟨nodeMask, node, rfl⟩
        · rw [requestedBytes_cons, mallocBytes_mallocChildren]
          exact Nat.add_le_add_left hw _
        · rw [requestedBytes_cons, mallocBytes_mallocChildren, requestedBytes_append,
            requestedBytes_finishEvents, Nat.add_zero]
          exact Nat.add_le_add_left hw _

def leafBytes : PrimType → Nat
  | .inst => sizeofInstanceLeaf
  | _ => 64

theorem numGeometries_le (prims : List PrimRef) (h : prims ≠ []) :
    numGeometries b prims ≤ prims.length := by
  induction prims with
  | nil => exact absurd rfl h
  | cons prim0 prims ih =>
      cases prims with
      | nil => exact le_rfl
      | cons prim1 rest =>
          have hrest := ih (List.cons_ne_nil _ _)
          rw [numGeometries, List.length_cons]
          split <;> omega

theorem FatImage.bytes_le {prims : Nat → PrimRef} {r : BuildRecord} {ty : PrimType}
    (hr : r.Describes b.getType prims) (htype : r.type = some ty) :
    (FatImage.ofRecord b prims r).bytes ≤ leafBytes ty * r.size := by
  have hfirst : b.getType (prims r.begin_).geomID = ty :=
    hr.type_eq ty htype _ (Library.Segment.mem_slice.2 ⟨_, le_rfl, hr.nonempty, rfl⟩)
  rw [ofRecord, hfirst]
  cases ty with
  | triangle => exact (Nat.mul_comm _ _).le
  | quad => exact (Nat.mul_comm _ _).le
  | procedural =>
      have hnil : r.list (fatLeafChildren b.heuristic prims r).1 ≠ [] := by
        intro hnil
        have hlength := r.length_list (fatLeafChildren b.heuristic prims r).1
        have hpos := hr.size_pos
        rw [hnil, List.length_nil] at hlength
        omega
      have hle := numGeometries_le (b := b) _ hnil
      rw [BuildRecord.length_list] at hle
      exact (Nat.mul_le_mul_right _ hle).trans (Nat.mul_comm _ _).le
  | inst => exact (Nat.mul_comm _ _).le

def nodesBelow (n : Nat) : Nat := (n - 1) + (n - 1) / 5

/-- What a record with a leaf size costs: the leaves, and the nodes where there is more than one leaf. -/
def cost (leaf leafThreshold n : Nat) : Nat :=
  leaf * n + if n ≤ leafThreshold then 0 else nodeBytes * nodesBelow n

theorem cost_le (leaf leafThreshold n : Nat) :
    cost leaf leafThreshold n ≤ leaf * n + nodeBytes * nodesBelow n := by
  rw [cost]
  split <;> omega

theorem cost_anti {leaf n l h : Nat} (hle : l ≤ h) : cost leaf h n ≤ cost leaf l n := by
  simp only [cost]
  split <;> split <;> omega

theorem sum_nodesBelow_le (sizes : List Nat) (hpos : ∀ n ∈ sizes, 0 < n) :
    (sizes.map nodesBelow).sum ≤ (sizes.sum - sizes.length) + (sizes.sum - sizes.length) / 5 ∧
      sizes.length ≤ sizes.sum := by
  induction sizes with
  | nil => simp
  | cons n sizes ih =>
      obtain ⟨hsum, hlength⟩ := ih (fun m hm => hpos m (List.mem_cons_of_mem _ hm))
      have hn := hpos n (List.mem_cons_self ..)
      simp only [List.map_cons, List.sum_cons, List.length_cons, nodesBelow] at hsum ⊢
      omega

theorem sum_mul_add (sizes : List Nat) (leaf : Nat) (f : Nat → Nat) :
    (sizes.map (fun n => leaf * n + nodeBytes * f n)).sum =
      leaf * sizes.sum + nodeBytes * (sizes.map f).sum := by
  induction sizes with
  | nil => rfl
  | cons n sizes ih =>
      simp only [List.map_cons, List.sum_cons, ih]
      ring

theorem sum_get_le (children : List BuildRecord) {costs : Fin children.length → Nat} (f : Nat → Nat)
    (h : ∀ i, costs i ≤ f (children.get i).size) :
    ∑ i, costs i ≤ ((children.map BuildRecord.size).map f).sum := by
  rw [← List.sum_ofFn]
  have hmap : (children.map BuildRecord.size).map f = List.ofFn (fun i => f (children.get i).size) := by
    conv_lhs => rw [← List.ofFn_get children]
    rw [List.map_map, List.map_ofFn]
    rfl
  rw [hmap, List.sum_ofFn, List.sum_ofFn]
  exact Finset.sum_le_sum (fun i _ => h i)

/-- A node over children that cost no more than this costs no more than this. A
full node has paid for itself, and any other node is over leaves only. -/
theorem node_cost_le {prims prims' : Nat → PrimRef} {r : BuildRecord} {children : List BuildRecord}
    {costs : Fin children.length → Nat} {leaf leafThreshold : Nat} (hn : 6 < r.size)
    (hchosen : Chosen b.getType r leafThreshold prims (prims', children))
    (hcosts : ∀ i, costs i ≤ cost leaf leafThreshold (children.get i).size) :
    children.length * nodeBytes + ∑ i, costs i ≤ leaf * r.size + nodeBytes * nodesBelow r.size := by
  have hbytes : nodeBytes = 64 := rfl
  have hwidth : bvhWidth = 6 := rfl
  have hsum : (children.map BuildRecord.size).sum = r.size := hchosen.cover.sum_size
  rcases hchosen.stop with hfull | hsmall
  · have hle := sum_get_le children (fun n => leaf * n + nodeBytes * nodesBelow n)
      (fun i => (hcosts i).trans (cost_le leaf leafThreshold _))
    have hpos : ∀ n ∈ children.map BuildRecord.size, 0 < n := by
      intro n hn
      obtain ⟨c, hc, rfl⟩ := List.mem_map.1 hn
      exact (hchosen.cover.describes c hc).size_pos
    obtain ⟨hnodes, _⟩ := sum_nodesBelow_le _ hpos
    simp only at hfull
    rw [sum_mul_add, hsum, hbytes] at hle
    rw [hsum, List.length_map, hfull, hwidth] at hnodes
    rw [hbytes]
    generalize ((children.map BuildRecord.size).map nodesBelow).sum = nodes at *
    generalize ∑ i, costs i = total at *
    simp only [nodesBelow]
    omega
  · have hleaf : ∀ i, costs i ≤ leaf * (children.get i).size := by
      intro i
      have hi := hcosts i
      rwa [cost, if_pos (hsmall _ (List.get_mem children i)), Nat.add_zero] at hi
    have hle := sum_get_le children (fun n => leaf * n) hleaf
    rw [List.sum_map_mul_left, List.map_id', hsum] at hle
    have hlength : children.length ≤ 6 := hchosen.length_le
    simp only [nodesBelow, hbytes]
    omega

namespace Plan

variable {prims : Nat → PrimRef} {r : BuildRecord} {ty : PrimType}

theorem largeLeaf_bytes (fuel : Nat) (hr : r.Describes b.getType prims) (htype : r.type = some ty) :
    (largeLeaf fuel prims r).bytes b ≤ cost (leafBytes ty) (leafSize r.type) r.size := by
  induction fuel generalizing prims r with
  | zero => exact Nat.zero_le _
  | succ fuel ih =>
      rw [largeLeaf]
      by_cases hdepth : maxDepth < r.depth
      · rw [if_pos hdepth]
        exact Nat.zero_le _
      · rw [if_neg hdepth, cost]
        by_cases hleaf : r.size ≤ leafSize r.type
        · rw [if_pos hleaf, if_pos hleaf, Nat.add_zero]
          exact FatImage.bytes_le hr htype
        · rw [if_neg hleaf, if_neg hleaf]
          have hchosen := largeLeafChildren_chosen hr
          refine node_cost_le ?_ hchosen (fun i => ?_)
          · have hsix : 6 ≤ leafSize r.type := by
              rw [htype]
              cases ty <;> decide
            omega
          · have hmem := List.get_mem (largeLeafChildren prims r).2 i
            have hsame := largeLeafChildren_type _ hmem
            rw [← hsame]
            exact ih (hchosen.cover.describes _ hmem) (hsame.trans htype)

/-- Primitives of one type cost as much whether their record tells the type or not. -/
theorem internalNode_bytes (fuel : Nat) (hr : r.Describes b.getType prims)
    (hall : ∀ prim ∈ r.list prims, b.getType prim.geomID = ty) :
    (internalNode b fuel prims r).bytes b ≤ cost (leafBytes ty) (leafSize r.type) r.size := by
  induction fuel generalizing prims r with
  | zero => exact Nat.zero_le _
  | succ fuel ih =>
      have hfirst : prims r.begin_ ∈ r.list prims :=
        Library.Segment.mem_slice.2 ⟨_, le_rfl, hr.nonempty, rfl⟩
      have hsix : ∀ type, 6 ≤ leafSize type := by
        intro type
        rcases type with _ | type
        · decide
        · cases type <;> decide
      have hnode : ∀ (r' : BuildRecord), r'.prims = r.prims → r'.Describes b.getType prims → 6 < r.size →
          (internalChildren b.getType b.heuristic false prims r').2.length * nodeBytes +
              ∑ i, (internalNode b fuel (internalChildren b.getType b.heuristic false prims r').1
                ((internalChildren b.getType b.heuristic false prims r').2.get i)).bytes b ≤
            leafBytes ty * r.size + nodeBytes * nodesBelow r.size := by
        intro r' hprims hr' hn
        have hlist : r'.list prims = r.list prims := by
          rw [BuildRecord.list, BuildRecord.list, BuildRecord.begin_, BuildRecord.end_, hprims]
          rfl
        have hsize : r'.size = r.size := by
          rw [← r'.length_list prims, hlist, r.length_list]
        have hchosen : Chosen b.getType r' (leafSize r'.type) prims
            (internalChildren b.getType b.heuristic false prims r') :=
          internalChildren_chosen hr' (fun h => Bool.noConfusion h)
        rw [← hsize]
        refine node_cost_le (hsize ▸ hn) hchosen (fun i => ?_)
        have hmem := List.get_mem (internalChildren b.getType b.heuristic false prims r').2 i
        have hsame := internalChildren_type (h := b.heuristic) _ hmem
        rw [← hsame]
        refine ih (hchosen.cover.describes _ hmem) (fun prim hprim => hall prim ?_)
        rw [← hlist]
        exact hchosen.cover.list_perm.mem_iff.1 (List.mem_flatMap.2 ⟨_, hmem, hprim⟩)
      have hinner : createsLeaf r = false → ¬ r.size ≤ leafSize r.type := by
        intro hleaf
        rw [createsLeaf, Bool.or_eq_false_iff, decide_eq_false_iff_not] at hleaf
        exact hleaf.1
      have hkind := nodeKind_kind hr
      rw [internalNode]
      generalize nodeKind b prims r = kind at hkind ⊢
      cases hkind with
      | keep h =>
          cases hleaf : createsLeaf r with
          | true =>
              rcases h with htype | ⟨hfalse, _⟩
              · obtain ⟨ty', hty'⟩ := Option.ne_none_iff_exists'.1 htype
                obtain rfl : ty' = ty := (hr.type_eq ty' hty' _ hfirst).symm.trans (hall _ hfirst)
                exact largeLeaf_bytes fuel hr hty'
              · rw [hleaf] at hfalse
                cases hfalse
          | false =>
              have hlarge := hinner hleaf
              have hsix' := hsix r.type
              rw [cost, if_neg hlarge]
              exact hnode r rfl hr (by omega)
      | typed ty' hnone htry hsame =>
          obtain rfl : ty' = ty := (hsame _ hfirst).symm.trans (hall _ hfirst)
          have hr' : BuildRecord.Describes b.getType { r with type := some ty' } prims :=
            ⟨hr.nonempty, hr.bounds_eq,
              fun ty hty prim hprim => (hall prim hprim).trans (Option.some.inj hty)⟩
          rw [hnone]
          cases hleaf : createsLeaf r with
          | true => exact (largeLeaf_bytes fuel hr' rfl).trans (cost_anti (hsix _))
          | false =>
              have hlarge := hinner hleaf
              rw [hnone] at hlarge
              rw [cost, if_neg hlarge]
              exact hnode { r with type := some ty' } rfl hr' (Nat.lt_of_not_le hlarge)
      | mixed hnone htry hmixed =>
          obtain ⟨prim, hprim, prim', hprim', hne⟩ := hmixed
          exact absurd ((hall prim hprim).trans (hall prim' hprim').symm) hne

end Plan

theorem neverFull_of_lt {endBytes cur cur' : Nat} (h : Answered (Serves endBytes) cur t cur')
    (hlt : cur + requestedBytes t < endBytes) : NeverFull t := by
  induction h with
  | nil cur => exact fun _ _ hmem => absurd hmem List.not_mem_nil
  | @ask cur cur₁ cur₂ q a t hserve ht ih =>
      rw [requestedBytes_cons] at hlt
      intro bytes align hmem
      cases hserve with
      | malloc hserve =>
          rw [mallocBytes] at hlt
          cases hserve with
          | full hfull => omega
          | taken htaken =>
              rcases List.mem_cons.1 hmem with heq | hmem
              · cases heq
              · exact ih (by omega) bytes align hmem
          | overshoot hover => omega
      | bytesAllocated =>
          rcases List.mem_cons.1 hmem with heq | hmem
          · cases heq
          · exact ih (by omega) bytes align hmem
  | emit ht ih =>
      intro bytes align hmem
      rcases List.mem_cons.1 hmem with heq | hmem
      · cases heq
      · exact ih (by rw [requestedBytes_cons] at hlt; omega) bytes align hmem

theorem Plan.valid_of_neverFull {p : Plan} {addr : Nat} (h : BuildRun (p.emit b (some addr)) t o)
    (hnever : NeverFull t) : ∀ v, o = .ret v → v.valid = true := by
  induction p generalizing t o addr with
  | throw x =>
      cases h with
      | throw => exact fun v hv => nomatch hv
  | fat prims r =>
      cases createFatLeaf_run h with
      | tooDeep hdepth => exact fun v hv => nomatch hv
      | full hdepth => exact absurd (by simp) (hnever (FatImage.ofRecord b prims r).bytes 64)
      | done childData hdepth => exact fun v hv => Outcome.ret.inj hv ▸ rfl
  | node parallel children sub ih =>
      cases createChildren_run h with
      | full => exact absurd (List.mem_singleton.2 rfl) (hnever _ 64)
      | failed childBase started ts os w i v htasks hi hret hv =>
          have hsub : NeverFull (ts i) :=
            hnever.mono (fun e he => List.mem_cons_of_mem _ ((htasks.weave.sublist i).subset he))
          exact absurd (ih i (htasks.runs i hi) hsub v hret) (by simp [hv])
      | threw childBase started ts os w i x htasks hi hthrow => exact fun v hv => nomatch hv
      | done childBase ts w values hruns hvalid hweave => exact fun v hv => Outcome.ret.inj hv ▸ rfl

theorem numOfType_eq_zero {scene : Scene} {ty ty' : PrimType}
    (hscene : ∀ g, some g ∈ scene → g.type = ty) (hne : ty' ≠ ty) : numOfType ty' scene = 0 := by
  induction scene with
  | nil => rfl
  | cons g scene ih =>
      have hrest := ih (fun g hg => hscene g (List.mem_cons_of_mem _ hg))
      rcases g with _ | g
      · exact hrest
      · have hg := hscene g (List.mem_cons_self ..)
        rw [numOfType, hrest, hg, if_neg hne.symm]

theorem numOfType_eq {scene : Scene} {ty : PrimType} (hscene : ∀ g, some g ∈ scene → g.type = ty) :
    numOfType ty scene = numPrimitives scene := by
  have hzero : ∀ ty', ty' ≠ ty → numOfType ty' scene = 0 := fun ty' hne => numOfType_eq_zero hscene hne
  rw [numPrimitives_eq_sum]
  cases ty <;> simp [hzero]

/-- The statistics of a scene with one type of primitives allow for the header,
the root and the nodes and leaves below it. -/
theorem lt_worstCaseBytes {scene : Scene} {ty : PrimType} (hscene : ∀ g, some g ∈ scene → g.type = ty)
    (quality : BuildQuality) (flags : BuildFlags) {n : Nat} (hn : n ≤ numPrimitives scene) :
    headerBytes + (nodeBytes + (leafBytes ty * n + nodeBytes * nodesBelow n)) <
      (SizeEstimate.estimateSize scene quality flags).worstCaseBytes := by
  have hzero : ∀ ty', ty' ≠ ty → numOfType ty' scene = 0 := fun ty' hne => numOfType_eq_zero hscene hne
  have hall := numOfType_eq hscene
  have hheader : headerBytes = 128 := rfl
  have hnode : nodeBytes = 64 := rfl
  have hinst : sizeofInstanceLeaf = 128 := rfl
  have hstats : ∀ s : SizeEstimate.Stats, n ≤ s.size →
      leafBytes ty * n ≤ s.numTriangles * 64 + s.numQuads * 64 +
      s.numProcedurals * 64 + s.numInstances * 128 →
      headerBytes + (nodeBytes + (leafBytes ty * n + nodeBytes * nodesBelow n)) <
        s.worstCaseBvhBytes := by
    intro s hsize hleaves
    simp only [SizeEstimate.Stats.worstCaseBvhBytes, SizeEstimate.paddedBytes, SizeEstimate.roundUp128,
      SizeEstimate.scale, hheader, hnode, nodesBelow]
    omega
  simp only [SizeEstimate.estimateSize, SizeEstimate.estimateStats_eq]
  split
  · apply hstats
    · cases ty <;> simp only [SizeEstimate.Stats.size, SizeEstimate.Stats.estimatePresplits] <;> omega
    · cases ty <;> simp [SizeEstimate.Stats.estimatePresplits, hzero, hall, leafBytes, hinst] <;> omega
  · apply hstats
    · cases ty <;> simp only [SizeEstimate.Stats.size] <;> omega
    · cases ty <;> simp [hzero, hall, leafBytes, hinst] <;> omega

section root

variable {fuel : Nat} {prims : Nat → PrimRef} {pinfo : PrimInfoRange} {root : Option Nat}

/-- What a build of some primitives takes of a buffer, when there is enough. -/
def builtBytes (b : BuilderT) (fuel : Nat) (prims : Nat → PrimRef) (pinfo : PrimInfoRange) : Nat :=
  headerBytes + nodeBytes +
    if (rootRecord pinfo).size = 0 then 0
    else (Plan.internalNode b fuel prims (rootRecord pinfo)).bytes b

theorem le_builtBytes : headerBytes + nodeBytes ≤ builtBytes b fuel prims pinfo :=
  Nat.le_add_right _ _

theorem builtBytes_le {ty : PrimType}
    (hprims : ∀ prim ∈ (rootRecord pinfo).list prims, b.getType prim.geomID = ty)
    (hbounds : (rootRecord pinfo).bounds = unionBounds ((rootRecord pinfo).list prims)) :
    builtBytes b fuel prims pinfo ≤ headerBytes + nodeBytes +
      (leafBytes ty * (rootRecord pinfo).size + nodeBytes * nodesBelow (rootRecord pinfo).size) := by
  rw [builtBytes]
  apply Nat.add_le_add_left
  split
  · exact Nat.zero_le _
  · next hpos =>
      have hr : (rootRecord pinfo).Describes b.getType prims :=
        ⟨Nat.lt_of_sub_pos (Nat.pos_of_ne_zero hpos), hbounds, fun ty hty => nomatch hty⟩
      exact (Plan.internalNode_bytes fuel hr hprims).trans (cost_le _ _ _)

theorem buildBvh_bytes_le (h : BuildRun (buildBvh b fuel prims pinfo root) t o) :
    headerBytes + nodeBytes + requestedBytes t ≤ builtBytes b fuel prims pinfo := by
  rw [builtBytes]
  apply Nat.add_le_add_left
  rcases buildBvh_run h with ⟨hzero, rfl, -⟩ | ⟨hpos, h⟩
  · exact Nat.zero_le _
  · rw [if_neg hpos.ne']
    exact Plan.requestedBytes_le h

theorem buildBvh_valid {addr : Nat} (h : BuildRun (buildBvh b fuel prims pinfo (some addr)) t o)
    (hnever : NeverFull t) : ∀ v, o = .ret v → v.valid = true := by
  rcases buildBvh_run h with ⟨_, _, rfl⟩ | ⟨_, h⟩
  · exact fun v hv => Outcome.ret.inj hv ▸ rfl
  · exact Plan.valid_of_neverFull h hnever

/-- The recursion never runs out, and does not get too deep up to 98304 primitives. -/
theorem buildBvh_safe {allowed : Error → Prop} (hfuel : 30 ≤ fuel)
    (hbounds : (rootRecord pinfo).bounds = unionBounds ((rootRecord pinfo).list prims))
    (hallowed : allowed .tooDeep ∨ (rootRecord pinfo).size ≤ 98304)
    (h : BuildRun (buildBvh b fuel prims pinfo root) t o) : ∀ x, o = .throw x → allowed x := by
  rcases buildBvh_run h with ⟨_, _, rfl⟩ | ⟨hpos, h⟩
  · exact fun x hx => nomatch hx
  · have hr : (rootRecord pinfo).Describes b.getType prims :=
      ⟨Nat.lt_of_sub_pos hpos, hbounds, fun ty hty => nomatch hty⟩
    have hfuel' : Plan.fuelBound (rootRecord pinfo).type ≤ (rootRecord pinfo).depth + fuel := by
      simp only [rootRecord, Plan.fuelBound]
      omega
    have hsafe : (Plan.internalNode b fuel prims (rootRecord pinfo)).Safe b.getType allowed :=
      Plan.internalNode_safe fuel hr (show 1 ≤ 19 by decide) hfuel' hallowed
    exact (hsafe.run h).1

theorem buildBvh_throw (hfuel : 30 ≤ fuel)
    (hbounds : (rootRecord pinfo).bounds = unionBounds ((rootRecord pinfo).list prims))
    (h : BuildRun (buildBvh b fuel prims pinfo root) t o) : ∀ x, o = .throw x → x = .tooDeep :=
  buildBvh_safe hfuel hbounds (Or.inl rfl) h

theorem buildBvh_not_throw (hfuel : 30 ≤ fuel)
    (hbounds : (rootRecord pinfo).bounds = unionBounds ((rootRecord pinfo).list prims))
    (hsize : (rootRecord pinfo).size ≤ 98304)
    (h : BuildRun (buildBvh b fuel prims pinfo root) t o) : ∀ x, o = .throw x → False :=
  buildBvh_safe hfuel hbounds (Or.inr hsize) h

theorem builtBytes_mixed : builtBytes (.line mixedTypes) 30 (linePrims 4) (lineInfo 4 24) < 16384 := by
  decide +kernel

end root

/-- A buffer of the worst case size is never exhausted. -/
theorem build_fits (b : BuilderT) (scene : Scene) (quality : BuildQuality) (flags : BuildFlags)
    (ty : PrimType) (fuel : Nat) (prims : Nat → PrimRef) (pinfo : PrimInfoRange)
    (t : List BuildEvent) (o : BuildOutcome) (cur : Nat)
    (hscene : ∀ g, some g ∈ scene → g.type = ty)
    (hprims : ∀ prim ∈ (rootRecord pinfo).list prims, b.getType prim.geomID = ty)
    (hsize : (rootRecord pinfo).size ≤ numPrimitives scene)
    (hbounds : (rootRecord pinfo).bounds = unionBounds ((rootRecord pinfo).list prims))
    (hrun : BufferRun (SizeEstimate.estimateSize scene quality flags).worstCaseBytes
      (build b fuel prims pinfo) 0 t o cur) :
    requestedBytes t < (SizeEstimate.estimateSize scene quality flags).worstCaseBytes ∧ NeverFull t ∧
      (∀ v, o = .ret v → v.valid = true) ∧ (30 ≤ fuel → o ≠ .throw .outOfFuel) := by
  have hworst := lt_worstCaseBytes hscene quality flags hsize
  have hbuilt : builtBytes b fuel prims pinfo ≤ _ := builtBytes_le hprims hbounds
  have hbuild := build_run hrun.1
  have hroots : ∀ header root, requestedBytes (mallocRoots header root) = headerBytes + nodeBytes :=
    fun _ _ => rfl
  have hlt : requestedBytes t < (SizeEstimate.estimateSize scene quality flags).worstCaseBytes := by
    cases hbuild with
    | threw header root t x h =>
        have hbytes := buildBvh_bytes_le h
        rw [requestedBytes_append, hroots]
        omega
    | retry header root t v h hv =>
        have hbytes := buildBvh_bytes_le h
        rw [requestedBytes_append, hroots]
        omega
    | done header root t v bytes h hv =>
        have hbytes := buildBvh_bytes_le h
        have hdone : requestedBytes (doneEvents pinfo.geomBounds bytes v) = 0 := rfl
        rw [requestedBytes_append, requestedBytes_append, hroots, hdone]
        omega
  have hnever : NeverFull t := neverFull_of_lt hrun.2 (by omega)
  refine ⟨hlt, hnever, fun v hv => ?_, fun hfuel hthrow => ?_⟩
  · cases hbuild with
    | threw header root t x h => cases hv
    | retry header root t w h hw =>
        cases root with
        | none => exact absurd (by simp [mallocRoots]) (hnever nodeBytes 64)
        | some addr => exact buildBvh_valid h (hnever.mono (fun e he => List.mem_append_right _ he)) v hv
    | done header root t w bytes h hw => exact Outcome.ret.inj hv ▸ hw
  · cases hbuild with
    | threw header root t x h =>
        have hdeep := buildBvh_throw hfuel hbounds h x rfl
        rw [hdeep] at hthrow
        cases hthrow
    | retry header root t v h hv => cases hthrow
    | done header root t v bytes h hv => cases hthrow

theorem build_fits_line :
    let bytes := (SizeEstimate.estimateSize [some ⟨.quad, 100⟩] .medium ⟨false, false⟩).worstCaseBytes
    ∃ t o cur, BufferRun bytes (build (.line fun _ => .quad) 30 (linePrims 1) (lineInfo 1 100)) 0 t o
        cur ∧
      requestedBytes t < bytes ∧ NeverFull t ∧ (∀ v, o = .ret v → v.valid = true) ∧
        (30 ≤ 30 → o ≠ .throw .outOfFuel) := by
  intro bytes
  obtain ⟨t, o, cur, hrun⟩ :=
    exists_bufferRun bytes (build (.line fun _ => .quad) 30 (linePrims 1) (lineInfo 1 100)) 0
  exact ⟨t, o, cur, hrun,
    build_fits (.line fun _ => .quad) [some ⟨.quad, 100⟩] .medium ⟨false, false⟩ .quad 30 (linePrims 1)
    (lineInfo 1 100) t o cur (fun g hg =>
      by simpa using congrArg Geometry.type (Option.some.inj (List.mem_singleton.1 hg)))
    (fun _ _ => rfl) (by decide) (lineInfo_describes (by decide) (fun _ => .quad)).bounds_eq hrun⟩

end RTBuild
