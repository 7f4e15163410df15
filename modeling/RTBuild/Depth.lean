import RTBuild.Emission

namespace RTBuild

open Library.Task RTBuild.Splits RTBuild.Children Settings

structure FatLeafOk (getType : Fin maxGeometries → PrimType) (prims : Nat → PrimRef)
    (r : BuildRecord) : Prop where
  depth_le : r.depth ≤ maxDepth
  size_pos : 0 < r.size
  size_le : r.size ≤ leafSize r.type
  type_eq : ∃ ty, r.type = some ty ∧ ∀ prim ∈ r.list prims, getType prim.geomID = ty

def Plan.Safe (getType : Fin maxGeometries → PrimType) (allowed : Error → Prop) : Plan → Prop
  | .throw x => allowed x
  | .fat prims r => FatLeafOk getType prims r
  | .node _ _ sub => ∀ i, (sub i).Safe getType allowed

variable {b : BuilderT} {t : List BuildEvent} {o : BuildOutcome}

/-- Nothing but the call itself tells of createFatLeaf. -/
theorem FatRun.fatLeaf_mem {prims prims' : Nat → PrimRef} {r r' : BuildRecord}
    {curAddr : Option Nat} (h : FatRun b prims r curAddr t o)
    (hmem : .emit (.fatLeaf prims' r') ∈ t) : prims' = prims ∧ r' = r := by
  have hfirst : ∀ rest : List BuildEvent, (∀ e ∈ rest, ∀ p s, e ≠ .emit (.fatLeaf p s)) →
      .emit (.fatLeaf prims' r') ∈ .emit (.fatLeaf prims r) :: rest → prims' = prims ∧ r' = r := by
    intro rest hrest hmem
    rcases List.mem_cons.1 hmem with heq | hmem
    · simpa using heq
    · exact absurd rfl (hrest _ hmem prims' r')
  have hearly : ∀ (f : FatImage), ∀ e ∈ f.earlyEvents curAddr, ∀ p s, e ≠ .emit (.fatLeaf p s) := by
    intro f e he p s
    obtain ⟨node, _, rfl⟩ := List.mem_map.1 he
    simp
  have hblock : ∀ (f : FatImage) childData, ∀ e ∈ f.blockEvents curAddr childData, ∀ p s, e ≠
      .emit (.fatLeaf p s) := by
    intro f childData e he p s
    rcases List.mem_append.1 he with he | he
    · obtain ⟨store, _, rfl⟩ := List.mem_map.1 he
      simp
    · simp only [finishEvents, List.mem_cons, List.not_mem_nil, or_false] at he
      rcases he with rfl | rfl <;> simp
  cases h with
  | tooDeep hdepth => exact hfirst [] (fun e he => absurd he List.not_mem_nil) hmem
  | full hdepth =>
      refine hfirst _ (fun e he p s => ?_) hmem
      rcases List.mem_append.1 he with he | he
      · exact hearly _ e he p s
      · rw [List.mem_singleton.1 he]
        simp
  | done childData hdepth =>
      refine hfirst _ (fun e he p s => ?_) hmem
      rcases List.mem_append.1 he with he | he
      · exact hearly _ e he p s
      · rcases List.mem_cons.1 he with rfl | he
        · simp
        · exact hblock _ childData e he p s

def Plan.Leaves (P : (Nat → PrimRef) → BuildRecord → Prop) : Plan → Prop
  | .throw _ => True
  | .fat prims r => P prims r
  | .node _ _ sub => ∀ i, (sub i).Leaves P

theorem Plan.Leaves.run {P : (Nat → PrimRef) → BuildRecord → Prop} {p : Plan} (hleaves : p.Leaves P)
    {curAddr : Option Nat} (h : BuildRun (p.emit b curAddr) t o) {prims : Nat → PrimRef}
    {r : BuildRecord} (hmem : .emit (.fatLeaf prims r) ∈ t) : P prims r := by
  induction p generalizing t o curAddr with
  | throw x =>
      cases h with
      | throw => exact absurd hmem List.not_mem_nil
  | fat prims' r' =>
      obtain ⟨rfl, rfl⟩ := (createFatLeaf_run h).fatLeaf_mem hmem
      exact hleaves
  | node parallel children sub ih =>
      have hfirst : ∀ childBase, .emit (.fatLeaf prims r) ≠
          mallocChildren children.length childBase := by
        intro childBase heq
        simp [mallocChildren] at heq
      rcases (createChildren_run h).tasks with ⟨rfl, _⟩ | ⟨childBase, started, ts, os, w, htasks, ht⟩
      · exact absurd (List.mem_singleton.1 hmem) (hfirst _)
      · have hw : .emit (.fatLeaf prims r) ∈ w → P prims r := by
          intro he
          obtain ⟨i, hi, he⟩ := htasks.mem he
          exact ih i (hleaves i) (htasks.runs i hi) he
        rcases ht with rfl | ⟨nodeMask, node, rfl⟩
        · exact hw ((List.mem_cons.1 hmem).resolve_left (hfirst _))
        · rcases List.mem_append.1 ((List.mem_cons.1 hmem).resolve_left (hfirst _)) with he | he
          · exact hw he
          · simp [finishEvents] at he

theorem Plan.Safe.leaves {getType : Fin maxGeometries → PrimType} {allowed : Error → Prop} {p : Plan}
    (h : p.Safe getType allowed) : p.Leaves (FatLeafOk getType) := by
  induction p with
  | throw x => trivial
  | fat prims r => exact h
  | node parallel children sub ih => exact fun i => ih i (h i)

theorem Plan.Safe.run {allowed : Error → Prop} {p : Plan} (hsafe : p.Safe b.getType allowed)
    {curAddr : Option Nat} (h : BuildRun (p.emit b curAddr) t o) :
    (∀ x, o = .throw x → allowed x) ∧ ∀ prims r, .emit (.fatLeaf prims r) ∈ t →
      FatLeafOk b.getType prims r := by
  refine ⟨?_, fun prims r hmem => hsafe.leaves.run h hmem⟩
  induction p generalizing t o curAddr with
  | throw x =>
      cases h with
      | throw => exact fun x hx => (Outcome.throw.inj hx) ▸ hsafe
  | fat prims r =>
      intro x hx
      subst hx
      cases createFatLeaf_run h with
      | tooDeep hdepth => exact absurd hsafe.depth_le (Nat.not_le_of_lt hdepth)
  | node parallel children sub ih =>
      intro x hx
      cases createChildren_run h with
      | full => cases hx
      | failed childBase started ts os w i v htasks hi hret hv => cases hx
      | threw childBase started ts os w i y htasks hi hthrow =>
          cases hx
          exact ih i (hsafe i) (htasks.runs i hi) _ hthrow
      | done childBase ts w values hruns hvalid hweave => cases hx

namespace Plan

variable {allowed : Error → Prop} {prims : Nat → PrimRef} {r : BuildRecord}

/-- Halving uses one level for every factor of four. -/
theorem largeLeaf_safe (fuel : Nat) {ty : PrimType} (hr : r.Describes b.getType prims)
    (htype : r.type = some ty) (hdepth : r.depth ≤ maxDepth + 1)
    (hfuel : maxDepth + 2 ≤ r.depth + fuel)
    (hsize : allowed .tooDeep ∨
      (r.depth ≤ maxDepth ∧ r.size ≤ leafSize r.type * 4 ^ (maxDepth - r.depth))) :
    (largeLeaf fuel prims r).Safe b.getType allowed := by
  induction fuel generalizing prims r with
  | zero => omega
  | succ fuel ih =>
      rw [largeLeaf]
      by_cases hdeep : maxDepth < r.depth
      · rw [if_pos hdeep]
        rcases hsize with hallowed | ⟨hle, _⟩
        · exact hallowed
        · omega
      · rw [if_neg hdeep]
        by_cases hleaf : r.size ≤ leafSize r.type
        · rw [if_pos hleaf]
          exact ⟨by omega, hr.size_pos, hleaf, ty, htype, hr.type_eq ty htype⟩
        · rw [if_neg hleaf]
          intro i
          have hchosen := largeLeafChildren_chosen hr
          have hmem := List.get_mem (largeLeafChildren prims r).2 i
          have hchild := hchosen.depth_eq (Nat.lt_of_not_le hleaf) _ hmem
          have hsame := largeLeafChildren_type _ hmem
          refine ih (hchosen.cover.describes _ hmem) (hsame.trans htype) (by omega) (by omega) ?_
          refine hsize.imp id (fun hlevels => ?_)
          obtain ⟨hle, hn⟩ := hlevels
          have hquarter : ((largeLeafChildren prims r).2.get i).size ≤
              max (leafSize r.type) ((r.size + 3) / 4) :=
            fallbackSplits_size _ hmem
          rw [hsame, hchild]
          -- a record at the last level is a leaf already
          have hlevel : maxDepth - r.depth = maxDepth - (r.depth + 1) + 1 := by
            by_contra hlast
            have hzero : maxDepth - r.depth = 0 := by omega
            rw [hzero, pow_zero, Nat.mul_one] at hn
            exact hleaf hn
          rw [hlevel, pow_succ, ← Nat.mul_assoc] at hn
          have hleafSize : leafSize r.type ≤ leafSize r.type * 4 ^ (maxDepth - (r.depth + 1)) :=
            Nat.le_mul_of_pos_right _ (by positivity)
          exact ⟨by omega, by omega⟩

def depthBound : Option PrimType → Nat
  | none => 19
  | some _ => 20

/-- The fuel that a record without a type needs, at depth 0. -/
def fuelBound : Option PrimType → Nat
  | none => 31
  | some _ => 30

/-- The levels that are kept for large leaves are enough for this many primitives. -/
theorem largeLeaf_safe_of_le (fuel : Nat) {ty : PrimType} (hr : r.Describes b.getType prims)
    (htype : r.type = some ty) (hdepth : r.depth ≤ 20) (hfuel : maxDepth + 2 ≤ r.depth + fuel)
    (hsize : allowed .tooDeep ∨ r.size ≤ 6 * 4 ^ 7) :
    (largeLeaf fuel prims r).Safe b.getType allowed := by
  have hmax : maxDepth = 27 := rfl
  refine largeLeaf_safe fuel hr htype (by omega) hfuel (hsize.imp id (fun hn => ⟨by omega, hn.trans ?_⟩))
  have hleaf : 6 ≤ leafSize r.type := by
    rw [htype]
    cases ty <;> decide
  exact Nat.mul_le_mul hleaf (Nat.pow_le_pow_right (by decide) (by omega))

theorem size_le_of_cover {r' : BuildRecord} {prims' : Nat → PrimRef} {children : List BuildRecord}
    {getType : Fin maxGeometries → PrimType} (hcover : Cover getType r prims prims' children)
    (hmem : r' ∈ children) : r'.size ≤ r.size := by
  rw [← hcover.sum_size]
  exact List.le_sum_of_mem (List.mem_map_of_mem hmem)

theorem internalNode_safe (fuel : Nat) (hr : r.Describes b.getType prims)
    (hdepth : r.depth ≤ depthBound r.type) (hfuel : fuelBound r.type ≤ r.depth + fuel)
    (hsize : allowed .tooDeep ∨ r.size ≤ 6 * 4 ^ 7) :
    (internalNode b fuel prims r).Safe b.getType allowed := by
  induction fuel generalizing prims r with
  | zero =>
      obtain ⟨depth, range, type⟩ := r
      cases type <;> simp only [depthBound, fuelBound] at hdepth hfuel <;> omega
  | succ fuel ih =>
      have hmax : maxDepth = 27 := rfl
      have hlevels : minLargeLeafLevels = 8 := rfl
      have hkind := nodeKind_kind hr
      -- no child has more primitives, so only its depth and its type matter
      have hnode : ∀ (r' : BuildRecord) (split : Bool), r'.prims = r.prims →
          r'.Describes b.getType prims →
          (split = true → r'.type = none ∧ Mixed b.getType prims r') →
          (∀ c ∈ (internalChildren b.getType b.heuristic split prims r').2,
            c.depth ≤ depthBound c.type ∧ fuelBound c.type ≤ c.depth + fuel) →
          ∀ i, (internalNode b fuel (internalChildren b.getType b.heuristic split prims r').1
            ((internalChildren b.getType b.heuristic split prims r').2.get i)).Safe
              b.getType allowed := by
        intro r' split hprims hr' hmixed hchildren i
        have hchosen := internalChildren_chosen (h := b.heuristic) hr' hmixed
        have hmem := List.get_mem (internalChildren b.getType b.heuristic split prims r').2 i
        refine ih (hchosen.cover.describes _ hmem) (hchildren _ hmem).1 (hchildren _ hmem).2
          (hsize.imp id (fun hn => ?_))
        refine (size_le_of_cover hchosen.cover hmem).trans ?_
        rwa [BuildRecord.size, BuildRecord.begin_, BuildRecord.end_, hprims]
      have hinner : createsLeaf r = false → leafSize r.type < r.size ∧ r.depth ≤ 18 := by
        intro hleaf
        rw [createsLeaf, Bool.or_eq_false_iff, decide_eq_false_iff_not, decide_eq_false_iff_not] at hleaf
        omega
      rw [internalNode]
      generalize nodeKind b prims r = kind at hkind ⊢
      cases hkind with
      | keep h =>
          cases hleaf : createsLeaf r with
          | true =>
              rcases h with htype | ⟨hfalse, _⟩
              · obtain ⟨ty, hty⟩ := Option.ne_none_iff_exists'.1 htype
                rw [hty] at hdepth hfuel
                simp only [fuelBound] at hfuel
                have hfuel' : maxDepth + 2 ≤ r.depth + fuel := by omega
                exact largeLeaf_safe_of_le fuel hr hty hdepth hfuel' hsize
              · rw [hleaf] at hfalse
                cases hfalse
          | false =>
              obtain ⟨hlarge, hdeep⟩ := hinner hleaf
              refine hnode r false rfl hr (fun h => Bool.noConfusion h) (fun c hc => ?_)
              have hchosen : Chosen b.getType r (leafSize r.type) prims
                  (internalChildren b.getType b.heuristic false prims r) :=
                internalChildren_chosen hr (fun h => Bool.noConfusion h)
              rw [internalChildren_type c hc, hchosen.depth_eq hlarge c hc]
              refine ⟨?_, by omega⟩
              cases r.type <;> simp only [depthBound] <;> omega
      | typed ty hnone htry hall =>
          rw [hnone] at hdepth hfuel
          simp only [depthBound, fuelBound] at hdepth hfuel
          have hr' : BuildRecord.Describes b.getType { r with type := some ty } prims :=
            ⟨hr.nonempty, hr.bounds_eq, fun ty' hty' prim hprim =>
              (hall prim hprim).trans (Option.some.inj hty')⟩
          cases hleaf : createsLeaf r with
          | true =>
              have hdepth' : r.depth ≤ 20 := by omega
              have hfuel' : maxDepth + 2 ≤ r.depth + fuel := by omega
              exact largeLeaf_safe_of_le fuel hr' rfl hdepth' hfuel' hsize
          | false =>
              obtain ⟨_, hdeep⟩ := hinner hleaf
              refine hnode { r with
                type := some ty } false rfl hr' (fun h => Bool.noConfusion h) (fun c hc => ?_)
              have hchosen : Chosen b.getType { r with type := some ty } (leafSize (some ty)) prims
                  (internalChildren b.getType b.heuristic false prims { r with type := some ty }) :=
                internalChildren_chosen hr' (fun h => Bool.noConfusion h)
              -- the record may have become its own single child
              have hchild : r.depth ≤ c.depth ∧ c.depth ≤ r.depth + 1 := by
                rcases hchosen.depth with hsingle | hdepth
                · rw [hsingle, List.mem_singleton] at hc
                  rw [hc]
                  exact ⟨le_rfl, Nat.le_succ _⟩
                · have heq : c.depth = r.depth + 1 := hdepth c hc
                  omega
              rw [internalChildren_type c hc]
              simp only [depthBound, fuelBound]
              omega
      | mixed hnone htry hmixed =>
          rw [hnone] at hdepth hfuel
          simp only [depthBound, fuelBound] at hdepth hfuel
          refine hnode r true rfl hr (fun _ => ⟨hnone, hmixed⟩) (fun c hc => ?_)
          obtain ⟨ty, hty⟩ := Option.ne_none_iff_exists'.1 (internalChildren_typed hr hmixed c hc)
          rw [hty, internalChildren_depth hnone c hc]
          simp only [depthBound, fuelBound]
          omega

end Plan

/-- Up to 98304 primitives the recursion ends in time, and reaches its leaves as
createFatLeaf asserts. Large leaves go as deep as a factor of four for each level allows. -/
theorem createInternalNode_depth (b : BuilderT) :
    (∀ (fuel : Nat) (prims : Nat → PrimRef) (pinfo : PrimInfoRange) (root : Option Nat)
      (t : List BuildEvent)
      (o : BuildOutcome), 30 ≤ fuel → (rootRecord pinfo).Describes b.getType prims →
        (rootRecord pinfo).size ≤ 98304 →
      BuildRun (createInternalNode b fuel prims (rootRecord pinfo) root) t o →
      (∃ v, o = .ret v) ∧ ∀ prims r, .emit (.fatLeaf prims r) ∈ t → FatLeafOk b.getType prims r) ∧
    (∀ (fuel : Nat) (prims : Nat → PrimRef) (r : BuildRecord) (ty : PrimType) (curAddr : Option Nat)
      (t : List BuildEvent) (o : BuildOutcome), maxDepth + 2 ≤ r.depth + fuel →
        r.Describes b.getType prims →
      r.type = some ty → r.depth ≤ maxDepth → r.size ≤ leafSize r.type * 4 ^ (maxDepth - r.depth) →
      BuildRun (createLargeLeaf b fuel prims r curAddr) t o → ∃ v, o = .ret v) ∧
    ∀ (prims : Nat → PrimRef) (r : BuildRecord), ∀ c ∈ (largeLeafChildren prims r).2,
      c.size ≤ max (leafSize r.type) ((r.size + 3) / 4) := by
  have hreturns : ∀ {o : BuildOutcome}, (∀ x, o = .throw x → False) → ∃ v, o = .ret v := by
    intro o hnever
    cases o with
    | ret v => exact ⟨v, rfl⟩
    | throw x => exact (hnever x rfl).elim
  refine ⟨?_, ?_, fun prims r c hc => fallbackSplits_size c hc⟩
  · intro fuel prims pinfo root t o hfuel hr hsize hrun
    rw [createInternalNode_eq] at hrun
    have hdepth : (rootRecord pinfo).depth ≤ Plan.depthBound (rootRecord pinfo).type :=
      show 1 ≤ 19 by decide
    have hfuel' : Plan.fuelBound (rootRecord pinfo).type ≤ (rootRecord pinfo).depth + fuel := by
      simp only [rootRecord, Plan.fuelBound]
      omega
    have hsafe : (Plan.internalNode b fuel prims (rootRecord pinfo)).Safe b.getType (fun _ => False) :=
      Plan.internalNode_safe fuel hr hdepth hfuel' (Or.inr hsize)
    exact ⟨hreturns (hsafe.run hrun).1, (hsafe.run hrun).2⟩
  · intro fuel prims r ty curAddr t o hfuel hr htype hdepth hsize hrun
    rw [createLargeLeaf_eq] at hrun
    have hsafe : (Plan.largeLeaf fuel prims r).Safe b.getType (fun _ => False) :=
      Plan.largeLeaf_safe fuel hr htype (Nat.le_succ_of_le hdepth) hfuel (Or.inr ⟨hdepth, hsize⟩)
    exact hreturns (hsafe.run hrun).1

def Heuristic.median : Heuristic where
  threadCount := 1
  threadCount_pos := Nat.one_pos
  findBlockSize _ _ _ := none
  findBlockSize_valid _ _ _ _ h := nomatch h
  halfArea _ := 0
  sortBySize := id
  sortBySize_perm _ := List.Perm.refl _
  sortByArea := id
  sortByArea_perm _ := List.Perm.refl _

def BuilderT.point (type : PrimType) : BuilderT where
  getType _ := type
  getTriangle _ _ := ⟨⟨0, 1, 2⟩, (0, 0, 0), (0, 0, 0), (0, 0, 0), .none, 1⟩
  getQuad _ _ := ⟨(0, 0, 0), (0, 0, 0), (0, 0, 0), (0, 0, 0), .none, 1⟩
  getProcedural _ := 1
  getInstance _ := ⟨.one, 0, 1, 0⟩
  quadification _ _ := 0
  rtasFormat := .version1
  heuristic := .median

def pointPrims (i : Nat) : PrimRef := ⟨.pure (0, 0, 0), 0, Fin.ofNat _ i⟩

def pointInfo (n : Nat) : PrimInfoRange := ⟨.ofList (Library.Segment.slice pointPrims 0 n), 0, n⟩

theorem pointInfo_describes {n : Nat} (h : 0 < n) (type : PrimType) :
    (rootRecord (pointInfo n)).Describes (BuilderT.point type).getType pointPrims :=
  ⟨h, CentGeomBBox.geomBounds_ofList _, fun _ hty => nomatch hty⟩

/-- A plane through the middle of the box, where it has primitives on both sides. -/
def middlePlane (prims : Nat → PrimRef) (set : PrimInfoRange) : Option (PrimRef → Bool) :=
  match set.geomBounds with
  | ⊥ => none
  | (box : NonemptyInterval Vec3f) =>
      let isLeft (prim : PrimRef) : Bool := decide (prim.center2.1 < box.fst.1 + box.snd.1)
      let list := Library.Segment.slice prims set.begin_ set.end_
      if list.any isLeft = true ∧ list.any (fun prim => !isLeft prim) = true then some isLeft else none

theorem middlePlane_valid {prims : Nat → PrimRef} {set : PrimInfoRange} {isLeft : PrimRef → Bool}
    (h : middlePlane prims set = some isLeft) :
    (∃ i, set.begin_ ≤ i ∧ i < set.end_ ∧ isLeft (prims i) = true) ∧
      ∃ i, set.begin_ ≤ i ∧ i < set.end_ ∧ isLeft (prims i) = false := by
  rw [middlePlane] at h
  split at h
  · cases h
  · simp only at h
    split_ifs at h with hsides
    cases h
    rw [List.any_eq_true, List.any_eq_true] at hsides
    obtain ⟨⟨left, hl, hleft⟩, right, hr, hright⟩ := hsides
    obtain ⟨i, hi, rfl⟩ := List.mem_map.1 hl
    obtain ⟨j, hj, rfl⟩ := List.mem_map.1 hr
    rw [List.mem_range'_1] at hi hj
    exact ⟨⟨i, hi.1, by omega, hleft⟩, j, hj.1, by omega, by simpa using hright⟩

def Heuristic.middle : Heuristic where
  threadCount := 1
  threadCount_pos := Nat.one_pos
  findBlockSize _ := middlePlane
  findBlockSize_valid _ _ _ _ := middlePlane_valid
  halfArea box := match box with
    | ⊥ => 0
    | (box : NonemptyInterval Vec3f) => box.snd.1 - box.fst.1
  sortBySize := id
  sortBySize_perm _ := List.Perm.refl _
  sortByArea := id
  sortByArea_perm _ := List.Perm.refl _

/-- Geometries of any types, split by planes. -/
def BuilderT.line (getType : Fin maxGeometries → PrimType) : BuilderT :=
  { BuilderT.point .quad with
    getType
    heuristic := .middle }

/-- Primitives along a line, that take turns in belonging to some geometries. -/
def linePrims (numGeometries i : Nat) : PrimRef :=
  ⟨.pure (i, 0, 0), Fin.ofNat _ (i % numGeometries), Fin.ofNat _ (i / numGeometries)⟩

def lineInfo (numGeometries n : Nat) : PrimInfoRange :=
  ⟨.ofList (Library.Segment.slice (linePrims numGeometries) 0 n), 0, n⟩

theorem lineInfo_describes {numGeometries n : Nat} (h : 0 < n) (getType : Fin maxGeometries → PrimType) :
    (rootRecord (lineInfo numGeometries n)).Describes (BuilderT.line getType).getType
      (linePrims numGeometries) :=
  ⟨h, CentGeomBBox.geomBounds_ofList _, fun _ hty => nomatch hty⟩

/-- Quads, procedurals, instances and triangles. -/
def mixedTypes (geomID : Fin maxGeometries) : PrimType :=
  if geomID = 0 then .quad else if geomID = 1 then .procedural else if geomID = 2 then .inst
  else .triangle

theorem createInternalNode_depth_point :
    ∃ t o cur', BufferRun 8192
      (createInternalNode (.point .quad) 30 pointPrims (rootRecord (pointInfo 100)) (some 128))
      192 t o cur' ∧ ∃ v, o = .ret v := by
  obtain ⟨t, o, cur', hrun⟩ := exists_bufferRun 8192
    (createInternalNode (.point .quad) 30 pointPrims (rootRecord (pointInfo 100)) (some 128)) 192
  exact ⟨t, o, cur', hrun,
    ((createInternalNode_depth (.point .quad)).1 30 pointPrims (pointInfo 100) (some 128) t o le_rfl
    (pointInfo_describes (by decide) .quad) (by decide) hrun.1).1⟩

end RTBuild
