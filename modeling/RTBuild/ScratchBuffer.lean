import RTBuild.Depth
import RTBuild.Presplit
import RTBuild.PrimRefGen
import RTBuild.SizeEstimate

namespace RTBuild

open Library
open Library.Chunk (store)
open Library.ParallelFor (Runs slots)
open Library.Segment (slice Rearranges)
open SizeEstimate (estimateSize estimateStats sizeofPrimRef)

structure ScratchBuffer where
  ptr : Nat
  bytes : Nat
  ptr_pos : 0 < ptr

def align (alignment size ptr space : Nat) : Option (Nat × Nat) :=
  let aligned := (ptr + alignment - 1) / alignment * alignment
  let diff := aligned - ptr
  if space < size ∨ space - size < diff then none else some (aligned, space - diff)

structure EVector where
  sizeActive : Nat
  sizeAlloced : Nat
  items : Nat
  deriving DecidableEq

namespace EVector

def ofData (data bytes : Nat) : EVector := ⟨0, bytes / sizeofPrimRef, data⟩

def allocate (_ : Nat) : Except String Nat := throw "no allocation supported"

def growLoop (newAlloced newSizeAlloced : Nat) : Nat :=
  if newSizeAlloced < newAlloced then growLoop newAlloced (max 1 (2 * newSizeAlloced))
    else newSizeAlloced
termination_by newAlloced - newSizeAlloced
decreasing_by omega

def internalGrowSize (v : EVector) (newAlloced : Nat) : Nat :=
  if newAlloced ≤ v.sizeAlloced then v.sizeAlloced
  else if v.sizeAlloced = 0 then newAlloced
  else growLoop newAlloced v.sizeAlloced

def internalResize (v : EVector) (newActive newAlloced : Nat) : Except String EVector :=
  let v := if newActive < v.sizeActive then { v with sizeActive := newActive } else v
  if newAlloced = v.sizeAlloced then .ok { v with sizeActive := newActive }
  else do
    let items ← allocate newAlloced
    return ⟨newActive, newAlloced, items⟩

def resize (v : EVector) (newSize : Nat) : Except String EVector :=
  v.internalResize newSize (v.internalGrowSize newSize)

theorem le_growLoop (newAlloced newSizeAlloced : Nat) :
    newAlloced ≤ growLoop newAlloced newSizeAlloced := by
  induction newSizeAlloced using growLoop.induct newAlloced with
  | case1 newSizeAlloced hlt ih =>
      rw [growLoop, if_pos hlt]
      exact ih
  | case2 newSizeAlloced hge =>
      rw [growLoop, if_neg hge]
      exact Nat.le_of_not_lt hge

/-- The items stay where they are if they have room, and otherwise there is an exception. -/
theorem resize_ofData (data bytes newSize : Nat) :
    (ofData data bytes).resize newSize =
      if newSize ≤ bytes / sizeofPrimRef then .ok ⟨newSize, bytes / sizeofPrimRef, data⟩
      else .error "no allocation supported" := by
  have hactive : ¬ newSize < (ofData data bytes).sizeActive := Nat.not_lt_zero _
  rw [resize, internalResize]
  simp only [if_neg hactive]
  by_cases hroom : newSize ≤ bytes / sizeofPrimRef
  · have hgrow : (ofData data bytes).internalGrowSize newSize = (ofData data bytes).sizeAlloced :=
      if_pos hroom
    rw [if_pos hgrow, if_pos hroom]
    rfl
  · have hlarger : ¬ newSize ≤ (ofData data bytes).sizeAlloced := hroom
    have hgrow : newSize ≤ (ofData data bytes).internalGrowSize newSize := by
      rw [internalGrowSize, if_neg hlarger]
      split
      · exact le_rfl
      · exact le_growLoop _ _
    have hne : (ofData data bytes).internalGrowSize newSize ≠ (ofData data bytes).sizeAlloced := by omega
    rw [if_neg hne, if_neg hroom]
    rfl

end EVector

def openScratch (scene : Scene) (scratch : ScratchBuffer) : Except String EVector :=
  match align 64 0 scratch.ptr scratch.bytes with
  | none => throw "scratch buffer cannot get aligned"
  | some (ptr, bytes) => (EVector.ofData ptr bytes).resize (numPrimitives scene)

/-- Which primitives the geometries of a scene yield, and how the tasks that create them are
scheduled. -/
structure Generation (scene : Scene) where
  numThreads : Nat
  state : ForFor.State
  tasks : List (List ForFor.Segment)
  init_eq : ForFor.init (scene.map getSize) PrimRefGen.minStepSize numThreads = some state
  tasks_eq : state.tasks = some tasks
  outcome : PrimRefGen.Outcome tasks
  generated : PrimRefGen.Generated
  generated_eq : PrimRefGen.generatePrimRefs state outcome.count outcome.accept = some generated
  before : Nat → PrimRef
  prims : Nat → PrimRef
  runs : PrimRefGen.RunsTo generated.passes before prims

namespace Presplitting

variable (c : Presplitting)

def Asserts (j : PresplitItem × BitVec 32) (prims : Nat → PrimRef) : Prop :=
  let splitprims := (j.1.data &&& 0xFFFF).toNat
  let numSubPrims := (c.func.split (prims j.1.index.toNat) splitprims).length
  1 ≤ splitprims ∧ splitprims ≤ maxPresplitsPerPrimitive ∧
    numSubPrims - 1 = (j.1.data >>> 16).toNat ∧
    c.numPrimitives + j.2.toNat + numSubPrims - 1 ≤ c.numPrimitivesExt

instance (j : PresplitItem × BitVec 32) (prims : Nat → PrimRef) : Decidable (c.Asserts j prims) :=
  inferInstanceAs (Decidable (_ ∧ _ ∧ _ ∧ _))

def assertedStores (j : PresplitItem × BitVec 32) (prims : Nat → PrimRef) : List (PrimRef × Nat) :=
  if c.Asserts j prims then c.storeSubPrims j prims else []

/-- What the loop has stored when it ends, be it at an assertion, wherever its range begins. -/
def AssertedTrace (stored : List (PrimRef × Nat)) : Prop :=
  ∃ (t : c.Trial) (newCenter : Nat) (trace : List (PrimRef × Nat)),
    Runs c.assertedStores c.prims ((((t.items.map c.trialSplit).drop (newCenter - c.center)).zip
      (t.primOffset1 newCenter).1).map .todo) trace ∧ stored <+: trace

end Presplitting

def presplits (quality : BuildQuality) (flags : BuildFlags) (pinfo : PrimInfo) : Bool :=
  useSpatialSplits quality flags && pinfo.size ≠ 0

namespace Generation

variable {scene : Scene} (gen : Generation scene)

def pinfo : PrimInfo := gen.generated.pinfo

def stored : List Nat := slots gen.generated.passes.flatten.flatten

structure CallsPresplit (size : Nat) (c : Presplitting) : Prop where
  prims_eq : c.prims = gen.prims
  size_eq : c.numPrimitivesExt = size
  pinfo_eq : c.pinfo = gen.pinfo

inductive Created (quality : BuildQuality) (flags : BuildFlags) (ndebug : Bool) (size : Nat) :
    (Nat → PrimRef) → PrimInfo → Prop
  | generated (h : presplits quality flags gen.pinfo = false) :
      Created quality flags ndebug size gen.prims gen.pinfo
  | presplit (h : presplits quality flags gen.pinfo = true) (c : Presplitting)
      (hcall : gen.CallsPresplit size c) (r : PresplitResult) (hrun : c.Run (some r))
      (hoffset : ndebug = false → r.pinfo.size ≤ c.numPrimitivesExt) :
      Created quality flags ndebug size (store c.prims r.trace) r.pinfo

end Generation

def PrimInfo.toRange (pinfo : PrimInfo) : PrimInfoRange :=
  ⟨⟨pinfo.geomBounds, pinfo.centBounds⟩, pinfo.begin_, pinfo.end_⟩

/-- No pass over the primitives that a scene has yielded leaves an array of a given size. Without NDEBUG,
pre-splitting may end at an assertion. -/
structure StoresInside {scene : Scene} (gen : Generation scene) (quality : BuildQuality)
    (flags : BuildFlags) (ndebug : Bool) (size : Nat) : Prop where
  presplitting : presplits quality flags gen.pinfo = true → ∀ c, gen.CallsPresplit size c →
    ndebug = true → ∀ r, c.Run r →
    ∃ r', r = some r' ∧ r'.pinfo.size ≤ size ∧ ∀ i ∈ slots r'.trace, i < size
  asserted : presplits quality flags gen.pinfo = true → ∀ c, gen.CallsPresplit size c →
    ndebug = false → ∀ stored, c.AssertedTrace stored → ∀ i ∈ slots stored, i < size
  splitting : ∀ prims pinfo, gen.Created quality flags ndebug size prims pinfo → pinfo.size ≤ size ∧
    ∀ b fuel root t o, BuildRun (buildBvh b fuel prims pinfo.toRange root) t o →
      ∀ prims' r, .emit (.fatLeaf prims' r) ∈ t → Rearranges 0 pinfo.size prims prims' ∧
        Rearranges 0 pinfo.size prims (Children.fatLeafChildren b.heuristic prims' r).1

/-- The vector that a build opens on a scratch buffer, and what it stores there, for some of what the
scene may yield. -/
structure Suffices (scene : Scene) (quality : BuildQuality) (flags : BuildFlags) (ndebug : Bool)
    (among : Generation scene → Prop) (scratch : ScratchBuffer) (prims : EVector) : Prop where
  aligned : ∃ bytes, align 64 0 scratch.ptr scratch.bytes = some (prims.items, bytes) ∧
    prims.sizeAlloced = bytes / sizeofPrimRef
  items_aligned : 64 ∣ prims.items
  opened : openScratch scene scratch = .ok prims
  size_eq : prims.sizeActive = numPrimitives scene
  size_le : prims.sizeActive ≤ prims.sizeAlloced
  inside : ∀ i < prims.sizeActive, scratch.ptr ≤ prims.items + i * sizeofPrimRef ∧
    prims.items + (i + 1) * sizeofPrimRef ≤ scratch.ptr + scratch.bytes
  generates : ∀ gen : Generation scene, gen.pinfo.size ≤ prims.sizeActive ∧
    ∀ i ∈ gen.stored, i < prims.sizeActive
  stores : ∀ gen : Generation scene, among gen →
    StoresInside gen quality flags ndebug prims.sizeActive

def Indexed (quality : BuildQuality) (flags : BuildFlags) {scene : Scene} (gen : Generation scene) :
    Prop :=
  useSpatialSplits quality flags = true → gen.pinfo.size ≤ 2 ^ 32

def HasRoom (scene : Scene) (scratch : ScratchBuffer) : Prop :=
  ∃ ptr bytes, align 64 0 scratch.ptr scratch.bytes = some (ptr, bytes) ∧
    numPrimitives scene ≤ bytes / sizeofPrimRef

inductive ZeResult
  | success
  | buildRetry
  | errorUnknown
  deriving DecidableEq

/-- How zeRTASBuilderBuildBody ends, and the primitives that are stored to until then, for anything
that follows once the scratch buffer is open. -/
def buildBody (scene : Scene) (scratch : ScratchBuffer)
    (rest : EVector → Except String Bool × List Nat) : ZeResult × List Nat :=
  match openScratch scene scratch with
  | .error _ => (.errorUnknown, [])
  | .ok prims =>
      match rest prims with
      | (.error _, stored) => (.errorUnknown, stored)
      | (.ok false, stored) => (.buildRetry, stored)
      | (.ok true, stored) => (.success, stored)

/-- Aligning takes less than 64 bytes. -/
theorem align_spec (ptr space : Nat) :
    ∃ aligned, ptr ≤ aligned ∧ aligned < ptr + 64 ∧ 64 ∣ aligned ∧
      align 64 0 ptr space = if aligned ≤ ptr + space then some (aligned, ptr + space - aligned)
        else none := by
  refine ⟨(ptr + 64 - 1) / 64 * 64, by omega, by omega, Nat.dvd_mul_left _ _, ?_⟩
  rw [align]
  by_cases hroom : (ptr + 64 - 1) / 64 * 64 ≤ ptr + space
  · rw [if_pos hroom, if_neg (by omega)]
    congr 2
    omega
  · rw [if_neg hroom, if_pos (by omega)]

/-- The size query counts each primitive at least once. -/
theorem le_scratchBytes (scene : Scene) (quality : BuildQuality) (flags : BuildFlags) :
    numPrimitives scene * sizeofPrimRef + 64 ≤ (estimateSize scene quality flags).scratchBytes := by
  have hsize : (estimateStats {} scene).size = numPrimitives scene := by
    rw [SizeEstimate.estimateStats_eq, numPrimitives_eq_sum]
    simp only [SizeEstimate.Stats.size, Nat.zero_add]
  have hpresplits : (estimateStats {} scene).size ≤ (estimateStats {} scene).estimatePresplits.size := by
    simp only [SizeEstimate.Stats.size, SizeEstimate.Stats.estimatePresplits]
    omega
  rw [estimateSize]
  simp only [SizeEstimate.Stats.scratchSpaceBytes]
  split
  · rw [← hsize]
    exact Nat.add_le_add_right (Nat.mul_le_mul_right _ hpresplits) _
  · rw [hsize]

theorem openScratch_eq (scene : Scene) (scratch : ScratchBuffer) {ptr bytes : Nat}
    (h : align 64 0 scratch.ptr scratch.bytes = some (ptr, bytes))
    (hroom : numPrimitives scene ≤ bytes / sizeofPrimRef) :
    openScratch scene scratch = .ok ⟨numPrimitives scene, bytes / sizeofPrimRef, ptr⟩ := by
  rw [openScratch, h]
  exact (EVector.resize_ofData ptr bytes _).trans (if_pos hroom)

/-- A buffer that is too small is noticed before anything is stored. -/
theorem buildBody_of_not_hasRoom {scene : Scene} {scratch : ScratchBuffer}
    (h : ¬ HasRoom scene scratch) (rest : EVector → Except String Bool × List Nat) :
    buildBody scene scratch rest = (.errorUnknown, []) := by
  have herror : ∃ e, openScratch scene scratch = .error e := by
    rw [openScratch]
    cases halign : align 64 0 scratch.ptr scratch.bytes with
    | none => exact ⟨_, rfl⟩
    | some p =>
        refine ⟨_, (EVector.resize_ofData p.1 p.2 _).trans (if_neg (fun hle => h ?_))⟩
        exact ⟨p.1, p.2, halign, hle⟩
  obtain ⟨e, herror⟩ := herror
  rw [buildBody, herror]

namespace Generation

variable {scene : Scene} (gen : Generation scene)

/-- The primitives that all geometries yield. -/
def accepted : List PrimRef :=
  PrimRefGen.accepted gen.outcome.accept (ForFor.items 0 (scene.map getSize))

theorem spec : (∀ i ∈ gen.stored, i < numPrimitives scene) ∧ gen.pinfo = .ofList gen.accepted ∧
    slice gen.prims 0 gen.pinfo.size = gen.accepted := by
  obtain ⟨state, hinit, hsizes, -, hwf⟩ :=
    ForFor.init_spec (scene.map getSize) (by decide : 0 < PrimRefGen.minStepSize) gen.numThreads
  obtain rfl : gen.state = state := Option.some.inj (gen.init_eq.symm.trans hinit)
  obtain ⟨segs, htasks, hitems⟩ := hwf.tasks_spec
  have hvisits := hwf.visits hitems
  rw [← Option.some.inj (gen.tasks_eq.symm.trans htasks), hsizes] at hvisits
  obtain ⟨g, hgen, hinfo, ⟨passes, pass, hpasses, hlast⟩, hbound⟩ :=
    PrimRefGen.generate_spec gen.tasks_eq gen.outcome
  obtain rfl : gen.generated = g := Option.some.inj (gen.generated_eq.symm.trans hgen)
  rw [hvisits] at hinfo hlast hbound
  refine ⟨?_, hinfo, ?_⟩
  · intro i hi
    obtain ⟨w, hw, rfl⟩ := List.mem_map.1 hi
    obtain ⟨writes, hwrites, hw⟩ := List.mem_flatten.1 hw
    obtain ⟨pass', hpass', hwrites⟩ := List.mem_flatten.1 hwrites
    have hlt := hbound pass' hpass' writes hwrites w hw
    rwa [ForFor.length_items] at hlt
  · apply List.ext_getElem
    · rw [Segment.length_slice, pinfo, hinfo, PrimInfo.size_ofList]
      rfl
    · intro k hk hk'
      have hruns := gen.runs
      rw [hpasses] at hruns
      have hget : (slice gen.prims 0 gen.pinfo.size)[k] = gen.prims k := by simp [slice]
      exact hget.trans (PrimRefGen.runsTo_last hlast hruns hk')

theorem size_pinfo : gen.pinfo.size = gen.accepted.length := by
  rw [gen.spec.2.1, PrimInfo.size_ofList]

theorem size_le : gen.pinfo.size ≤ numPrimitives scene := by
  have hlength : (ForFor.items 0 (scene.map getSize)).length = numPrimitives scene :=
    ForFor.length_items _ _
  rw [size_pinfo, ← hlength]
  exact List.length_filterMap_le _ _

theorem pinfo_eq : gen.pinfo = .ofList (slice gen.prims 0 gen.pinfo.size) := by
  rw [gen.spec.2.2]
  exact gen.spec.2.1

theorem exists_runsTo (passes : List (List (List (PrimRef × Nat)))) (prims : Nat → PrimRef) :
    ∃ prims', PrimRefGen.RunsTo passes prims prims' := by
  induction passes generalizing prims with
  | nil => exact ⟨prims, rfl⟩
  | cons pass passes ih =>
      obtain ⟨prims', h⟩ := ih (store prims pass.flatten)
      exact ⟨prims', pass.flatten, List.Perm.refl _, h⟩

theorem exists_accepting (scene : Scene) (accept : Nat → Nat → Option PrimRef)
    (before : Nat → PrimRef) : ∃ gen : Generation scene, gen.outcome.accept = accept := by
  obtain ⟨state, hinit, -, -, hwf⟩ :=
    ForFor.init_spec (scene.map getSize) (by decide : 0 < PrimRefGen.minStepSize) 1
  obtain ⟨segs, htasks, -⟩ := hwf.tasks_spec
  let outcome : PrimRefGen.Outcome ((List.range state.taskCount).map segs) :=
    ⟨fun seg => seg.items.length, accept, fun _ _ _ _ => List.length_filterMap_le _ _,
      fun _ _ _ _ => le_rfl⟩
  obtain ⟨g, hgen, -⟩ := PrimRefGen.generate_spec htasks outcome
  obtain ⟨prims, hruns⟩ := exists_runsTo g.passes before
  exact ⟨⟨1, state, _, hinit, htasks, outcome, g, hgen, before, prims, hruns⟩, rfl⟩

end Generation

theorem PrimInfo.ofList_fields (prims : List PrimRef) :
    (PrimInfo.ofList prims).geomBounds = unionBounds prims ∧ (PrimInfo.ofList prims).begin_ = 0 ∧
      (PrimInfo.ofList prims).end_ = prims.length := by
  have hfold : ∀ (prims : List PrimRef) (info : PrimInfo),
      (prims.foldl PrimInfo.addCenter2 info).geomBounds = info.geomBounds ⊔ unionBounds prims ∧
        (prims.foldl PrimInfo.addCenter2 info).begin_ = info.begin_ ∧
        (prims.foldl PrimInfo.addCenter2 info).end_ = info.end_ + prims.length := by
    intro prims
    induction prims with
    | nil => exact fun info => ⟨(sup_bot_eq _).symm, rfl, rfl⟩
    | cons prim prims ih =>
        intro info
        obtain ⟨hbounds, hbegin, hend⟩ := ih (info.addCenter2 prim)
        refine ⟨hbounds.trans (sup_assoc _ _ _), hbegin, hend.trans ?_⟩
        exact (Nat.succ_add_eq_add_succ _ _)
  obtain ⟨hbounds, hbegin, hend⟩ := hfold prims .empty
  exact ⟨hbounds.trans (bot_sup_eq _), hbegin, hend.trans (Nat.zero_add _)⟩

/-- A valid plan rearranges the primitives of its record only. -/
theorem Plan.Valid.rearranges {b : BuilderT} {prims : Nat → PrimRef} {r : BuildRecord} {p : Plan}
    (h : Plan.Valid b.getType prims r p) {lo hi : Nat} {prims₀ : Nat → PrimRef}
    (hlo : lo ≤ r.begin_) (hhi : r.end_ ≤ hi) (hprims₀ : Rearranges lo hi prims₀ prims) :
    p.Leaves (fun prims' r' => Rearranges lo hi prims₀ prims' ∧
      Rearranges lo hi prims₀ (Children.fatLeafChildren b.heuristic prims' r').1) := by
  induction h with
  | throw => trivial
  | fat prims r ty r' hprims hr htype hsize =>
      have hnine : r'.size ≤ 9 := hsize.trans (by rw [htype]; cases ty <;> decide)
      have hlo' : lo ≤ r'.begin_ := hlo.trans_eq (congrArg PrimInfoRange.begin_ hprims).symm
      have hhi' : r'.end_ ≤ hi := (congrArg PrimInfoRange.end_ hprims).trans_le hhi
      exact ⟨hprims₀,
        hprims₀.trans ((Children.fatLeafChildren_chosen hr hnine).cover.rearranges.mono hlo' hhi')⟩
  | node prims prims' r r' parallel children sub hprims hr hcover hlength hsub ih =>
      have hlo' : lo ≤ r'.begin_ := hlo.trans_eq (congrArg PrimInfoRange.begin_ hprims).symm
      have hhi' : r'.end_ ≤ hi := (congrArg PrimInfoRange.end_ hprims).trans_le hhi
      intro i
      obtain ⟨hbegin, hend⟩ := hcover.bounds (List.get_mem children i)
      exact ih i (hlo'.trans hbegin) (hend.trans hhi') (hprims₀.trans (hcover.rearranges.mono hlo' hhi'))

theorem buildBvh_rearranges {b : BuilderT} {fuel : Nat} {prims prims' : Nat → PrimRef}
    {pinfo : PrimInfo} {root : Option Nat} {t : List BuildEvent} {o : BuildOutcome}
    {r : BuildRecord} (hpinfo : pinfo = .ofList (slice prims 0 pinfo.size))
    (h : BuildRun (buildBvh b fuel prims pinfo.toRange root) t o)
    (hmem : .emit (.fatLeaf prims' r) ∈ t) :
    Rearranges 0 pinfo.size prims prims' ∧
      Rearranges 0 pinfo.size prims (Children.fatLeafChildren b.heuristic prims' r).1 := by
  rcases buildBvh_run h with ⟨_, rfl, _⟩ | ⟨hpos, h⟩
  · cases List.mem_singleton.1 hmem
  · obtain ⟨hbounds, hbegin, hend⟩ := PrimInfo.ofList_fields (slice prims 0 pinfo.size)
    rw [← hpinfo] at hbounds hbegin hend
    rw [Segment.length_slice, Nat.sub_zero] at hend
    have hr : (rootRecord pinfo.toRange).Describes b.getType prims := by
      refine ⟨Nat.lt_of_sub_pos hpos, ?_, fun ty hty => nomatch hty⟩
      change pinfo.geomBounds = unionBounds (slice prims pinfo.begin_ pinfo.end_)
      rw [hbounds, hbegin, hend]
    exact ((Plan.internalNode_valid fuel hr).rearranges (Nat.zero_le _) hend.le (.refl _ _ _)).run h hmem

theorem Generation.Created.pinfo_eq {scene : Scene} {gen : Generation scene} {quality : BuildQuality}
    {flags : BuildFlags} {ndebug : Bool} {size : Nat} {prims : Nat → PrimRef} {pinfo : PrimInfo}
    (h : gen.Created quality flags ndebug size prims pinfo) :
    pinfo = .ofList (slice prims 0 pinfo.size) := by
  cases h with
  | generated h => exact gen.pinfo_eq
  | presplit h c hcall r hrun hoffset =>
      apply hrun.pinfo_eq
      rw [hcall.prims_eq, hcall.pinfo_eq]
      exact gen.pinfo_eq

/-- Assertions keep the loop inside, whatever it splits. -/
theorem Presplitting.AssertedTrace.inside {c : Presplitting} {stored : List (PrimRef × Nat)}
    (h : c.AssertedTrace stored) {s : Nat} (hs : s ∈ slots stored) : s < c.numPrimitivesExt := by
  have hroom : c.numPrimitives ≤ c.numPrimitivesExt := c.room
  obtain ⟨t, newCenter, trace, hruns, hstored⟩ := h
  have hindex : ∀ item ∈ t.items, item.index.toNat < c.numPrimitives := by
    intro item hitem
    rcases le_or_gt c.numPrimitives (2 ^ 32) with hle | hlt
    · have hlength : c.candidates.length ≤ 2 ^ 32 := by
        rw [Presplitting.length_candidates]
        omega
      obtain ⟨ids, hids, hitems⟩ := t.exists_ids hlength
      rw [hitems] at hitem
      obtain ⟨i, hi, rfl⟩ := List.mem_map.1 hitem
      rw [Presplitting.index_preSplitItem0 (Presplitting.index_lt hle hids.subperm hi)]
      exact (Presplitting.mem_candidates.1 (hids.subset hi)).1
    · exact item.index.isLt.trans hlt
  obtain ⟨w, hw, rfl⟩ := List.mem_map.1 hs
  obtain ⟨it, hit, prims, hw⟩ := hruns.exists_pending (hstored.subset hw)
  obtain ⟨⟨item, o⟩, hj, rfl⟩ := List.mem_map.1 hit
  obtain ⟨item, hitem, rfl⟩ := List.mem_map.1 (List.mem_of_mem_drop (List.of_mem_zip hj).1)
  have hlt : item.index.toNat < c.numPrimitives := hindex item hitem
  change w ∈ c.assertedStores (c.trialSplit item, o) prims at hw
  rw [Presplitting.assertedStores] at hw
  split at hw
  · next hasserts =>
      obtain ⟨-, -, -, hle⟩ := hasserts
      rw [Presplitting.storeSubPrims] at hw
      split at hw
      · cases hw
      · next prim subPrims hsplit =>
          rw [hsplit, List.length_cons] at hle
          rcases List.mem_cons.1 hw with rfl | hw
          · exact hlt.trans_le hroom
          · have hslot := List.mem_map_of_mem (f := Prod.snd) hw
            rw [List.zipIdx_map_snd, List.mem_range'_1] at hslot
            change c.numPrimitives + o.toNat + (subPrims.length + 1) - 1 ≤ _ at hle
            change c.numPrimitives + o.toNat ≤ w.2 ∧ w.2 < c.numPrimitives + o.toNat + _ at hslot
            omega
  · cases hw

/-- With all indices in a word, or with assertions, pre-splitting stays inside as well. -/
theorem storesInside {scene : Scene} {gen : Generation scene} {quality : BuildQuality}
    {flags : BuildFlags} {ndebug : Bool} (hindex : ndebug = true → Indexed quality flags gen) :
    StoresInside gen quality flags ndebug (numPrimitives scene) := by
  have hpresplit : presplits quality flags gen.pinfo = true →
      ∀ c, gen.CallsPresplit (numPrimitives scene) c → ndebug = true → ∀ r, c.Run r →
        ∃ r', r = some r' ∧ r'.pinfo.size ≤ numPrimitives scene ∧
          ∀ i ∈ slots r'.trace, i < numPrimitives scene := by
    intro hsplit c hcall hndebug r hrun
    rw [presplits, Bool.and_eq_true] at hsplit
    rw [← hcall.size_eq]
    apply hrun.inside
    rw [Presplitting.numPrimitives, hcall.pinfo_eq]
    exact hindex hndebug hsplit.1
  refine ⟨hpresplit, fun _ c hcall _ stored h i hi => ?_, fun prims pinfo h => ⟨?_, ?_⟩⟩
  · rw [← hcall.size_eq]
    exact h.inside hi
  · cases h with
    | generated h => exact gen.size_le
    | presplit h c hcall r hrun hoffset =>
        cases ndebug with
        | false => exact hcall.size_eq ▸ hoffset rfl
        | true =>
            obtain ⟨r', hr', hle, -⟩ := hpresplit h c hcall rfl _ hrun
            exact Option.some.inj hr' ▸ hle
  · intro b fuel root t o hrun prims' r hmem
    exact buildBvh_rearranges h.pinfo_eq hrun hmem

/-- The reported scratch size suffices wherever the buffer lies, and a buffer without room ends the
build before anything is stored. -/
theorem scratch_suffices (scene : Scene) (quality : BuildQuality) (flags : BuildFlags) (ndebug : Bool)
    (scratch : ScratchBuffer) :
    ((estimateSize scene quality flags).scratchBytes ≤ scratch.bytes →
      ∃ prims, Suffices scene quality flags ndebug (fun gen => ndebug = true → Indexed quality flags gen)
        scratch prims) ∧
      (¬ HasRoom scene scratch → ∀ rest, buildBody scene scratch rest = (.errorUnknown, [])) := by
  refine ⟨fun hbytes => ?_, buildBody_of_not_hasRoom⟩
  obtain ⟨aligned, hle, hlt, hdvd, halign⟩ := align_spec scratch.ptr scratch.bytes
  have hscratch := (le_scratchBytes scene quality flags).trans hbytes
  have h32 : sizeofPrimRef = 32 := rfl
  rw [if_pos (by omega)] at halign
  have hroom : numPrimitives scene ≤ (scratch.ptr + scratch.bytes - aligned) / sizeofPrimRef := by
    rw [Nat.le_div_iff_mul_le (by decide)]
    omega
  have hopen := openScratch_eq scene scratch halign hroom
  refine ⟨_, ⟨_, halign, rfl⟩, hdvd, hopen, rfl, hroom, fun i hi => ?_,
    fun gen => ⟨gen.size_le, gen.spec.1⟩, fun gen => storesInside⟩
  have hi' : i < numPrimitives scene := hi
  have hmul : (i + 1) * sizeofPrimRef ≤ numPrimitives scene * sizeofPrimRef := Nat.mul_le_mul_right _ hi'
  constructor
  · exact hle.trans (Nat.le_add_right _ _)
  · change aligned + (i + 1) * sizeofPrimRef ≤ _
    omega

def smallScene : Scene := [some ⟨.triangle, 3⟩, none, some ⟨.quad, 2⟩]

/-- At an odd address, 300 bytes are enough for them, and 100 bytes are not. -/
theorem scratch_suffices_small :
    (∃ prims, ∀ gen : Generation smallScene,
      StoresInside gen .high ⟨false, false⟩ true prims.sizeActive ∧
        openScratch smallScene ⟨17, 300, by decide⟩ = .ok prims) ∧
      buildBody smallScene ⟨17, 100, by decide⟩ (fun _ => (.ok true, [0])) = (.errorUnknown, []) := by
  constructor
  · obtain ⟨prims, h⟩ :=
      (scratch_suffices smallScene .high ⟨false, false⟩ true ⟨17, 300, by decide⟩).1 (by decide)
    refine ⟨prims, fun gen => ⟨h.stores gen (fun _ _ => ?_), h.opened⟩⟩
    exact gen.size_le.trans (by decide)
  · apply (scratch_suffices smallScene .high ⟨false, false⟩ true ⟨17, 100, by decide⟩).2
    rintro ⟨ptr, bytes, halign, hroom⟩
    have haligned : align 64 0 17 100 = some (64, 53) := by decide
    obtain ⟨rfl, rfl⟩ := Prod.mk.inj (Option.some.inj (haligned.symm.trans halign))
    exact absurd hroom (by decide)

end RTBuild
