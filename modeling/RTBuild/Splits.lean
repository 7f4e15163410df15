import RTBuild.BuildRecord
import RTBuild.Partition

namespace RTBuild

open Library.Segment RTBuild.Partition

def bvhWidth : Nat := 6

def Settings.maxDepth : Nat := 27

def Settings.sahBlockSize : Nat := 6

def Settings.leafSize : Option PrimType → Nat
  | some .triangle | some .quad => 9
  | some .procedural | some .inst | none => 6

def Settings.typeSplitSize : Nat := 128

/-- What float arithmetic, the number of threads and std::sort decide. A split
that find_block_size returns as valid sends primitives to both sides. Areas are
compared only, and of the order of the children only that it is one is used. -/
structure Heuristic where
  threadCount : Nat
  threadCount_pos : 0 < threadCount
  findBlockSize : Nat → (Nat → PrimRef) → PrimInfoRange → Option (PrimRef → Bool)
  findBlockSize_valid : ∀ blockSize prims set isLeft, findBlockSize blockSize prims set = some isLeft →
    (∃ i, set.begin_ ≤ i ∧ i < set.end_ ∧ isLeft (prims i) = true) ∧
      ∃ i, set.begin_ ≤ i ∧ i < set.end_ ∧ isLeft (prims i) = false
  halfArea : BBox3f → ℚ
  sortBySize : List BuildRecord → List BuildRecord
  sortBySize_perm : ∀ children, (sortBySize children).Perm children
  sortByArea : List BuildRecord → List BuildRecord
  sortByArea_perm : ∀ children, (sortByArea children).Perm children

namespace Splits

structure RangeSplit where
  prims : Nat → PrimRef
  linfo : PrimInfoRange
  rinfo : PrimInfoRange

def RangeSplit.ofPartition (begin_ end_ : Nat) (r : Partition.Result PrimRef CentGeomBBox) :
    RangeSplit where
  prims := r.array
  linfo := ⟨r.left, begin_, r.center⟩
  rinfo := ⟨r.right, r.center, end_⟩

def performFallbackSplit (prims : Nat → PrimRef) (pinfo : PrimInfoRange) : RangeSplit :=
  let center := (pinfo.begin_ + pinfo.end_) / 2
  { prims
    linfo := ⟨.ofList (slice prims pinfo.begin_ center), pinfo.begin_, center⟩
    rinfo := ⟨.ofList (slice prims center pinfo.end_), center, pinfo.end_⟩ }

variable (getType : Fin maxGeometries → PrimType) (h : Heuristic)

def performTypeSplit (type : PrimType) (prims : Nat → PrimRef) (begin_ end_ : Nat) : RangeSplit :=
  .ofPartition begin_ end_ (serialPartitioning (fun ref => type = getType ref.geomID)
    CentGeomBBox.extendCenter2 prims begin_ end_ .empty .empty)

def parallelThreshold : Nat := 3 * 1024

def parallelPartitionBlockSize : Nat := 128

def binnedSplit (isLeft : PrimRef → Bool) (prims : Nat → PrimRef) (set : PrimInfoRange) : RangeSplit :=
  .ofPartition set.begin_ set.end_
    (if set.end_ - set.begin_ < parallelThreshold then
      serialPartitioning isLeft CentGeomBBox.extendCenter2 prims set.begin_ set.end_ .empty .empty
    else
      parallelPartitioning isLeft CentGeomBBox.extendCenter2 CentGeomBBox.merge .empty
        parallelPartitionBlockSize h.threadCount prims set.begin_ set.end_ .empty .empty)

structure Split where
  prims : Nat → PrimRef
  left : BuildRecord
  right : BuildRecord

def sahSplit (depth sahBlockSize : Nat) (prims : Nat → PrimRef) (brecord : BuildRecord) : Split :=
  let s := match h.findBlockSize sahBlockSize prims brecord.prims with
    | some isLeft => binnedSplit h isLeft prims brecord.prims
    | none => performFallbackSplit prims brecord.prims
  ⟨s.prims, ⟨depth + 1, s.linfo, brecord.type⟩, ⟨depth + 1, s.rinfo, brecord.type⟩⟩

def equalTypes (prims : Nat → PrimRef) (begin_ end_ : Nat) : Bool :=
  (slice prims (begin_ + 1) end_).all (fun ref => getType ref.geomID = getType (prims begin_).geomID)

def typeSplit (depth : Nat) (prims : Nat → PrimRef) (brecord : BuildRecord) : Split :=
  let type := getType (prims brecord.begin_).geomID
  let s := performTypeSplit getType type prims brecord.begin_ brecord.end_
  let rtype := getType (s.prims s.rinfo.begin_).geomID
  let equalTy := equalTypes getType s.prims s.rinfo.begin_ s.rinfo.end_
  ⟨s.prims, ⟨depth + 1, s.linfo, some type⟩, ⟨depth + 1, s.rinfo, if equalTy then some rtype else none⟩⟩

def fallbackSplit (depth : Nat) (prims : Nat → PrimRef) (brecord : BuildRecord) : Split :=
  let s := performFallbackSplit prims brecord.prims
  ⟨s.prims, ⟨depth + 1, s.linfo, brecord.type⟩, ⟨depth + 1, s.rinfo, brecord.type⟩⟩

section find

variable {K : Type} [LinearOrder K] (key : BuildRecord → K) (leafThreshold : Nat)

def findLargest : List BuildRecord → Nat → Option (K × Nat) → Option (K × Nat)
  | [], _, best => best
  | child :: children, i, best =>
      if child.size ≤ leafThreshold then findLargest children (i + 1) best
      else match best with
        | none => findLargest children (i + 1) (some (key child, i))
        | some (bestKey, bestChild) =>
            if bestKey < key child then findLargest children (i + 1) (some (key child, i))
            else findLargest children (i + 1) (some (bestKey, bestChild))

end find

def findChildWithLargestArea (leafThreshold : Nat) (children : List BuildRecord) : Option Nat :=
  (findLargest (fun child => h.halfArea child.bounds) leafThreshold children 0 none).map Prod.snd

def findChildWithMostPrimitives (leafThreshold : Nat) (children : List BuildRecord) : Option Nat :=
  (findLargest BuildRecord.size leafThreshold children 0 none).map Prod.snd

def findChildWithNonEqualTypes (children : List BuildRecord) : Option Nat :=
  children.findIdx? (fun child => !child.equalType)

/-- The loops that split the child that find selects until the node is full or
there is none left to split. The first argument is how many children still fit. -/
def splitUntilFull (find : List BuildRecord → Option Nat)
    (split : (Nat → PrimRef) → BuildRecord → Split) :
    Nat → (Nat → PrimRef) → List BuildRecord → (Nat → PrimRef) × List BuildRecord
  | 0, prims, children => (prims, children)
  | room + 1, prims, children =>
      match find children with
      | none => (prims, children)
      | some bestChild =>
          match children[bestChild]? with
          | none => (prims, children)
          | some brecord =>
              let s := split prims brecord
              splitUntilFull find split room s.prims (children.set bestChild s.left ++ [s.right])

structure Divides (prims : Nat → PrimRef) (begin_ end_ : Nat) (s : RangeSplit) : Prop where
  rearranges : Rearranges begin_ end_ prims s.prims
  lbegin : s.linfo.begin_ = begin_
  meet : s.rinfo.begin_ = s.linfo.end_
  rend : s.rinfo.end_ = end_
  lnonempty : begin_ < s.linfo.end_
  rnonempty : s.linfo.end_ < end_
  lbounds : s.linfo.geomBounds = unionBounds (slice s.prims begin_ s.linfo.end_)
  rbounds : s.rinfo.geomBounds = unionBounds (slice s.prims s.linfo.end_ end_)

variable {getType h} {prims : Nat → PrimRef}

theorem performFallbackSplit_divides {pinfo : PrimInfoRange} (hsize : pinfo.begin_ + 1 < pinfo.end_) :
    Divides prims pinfo.begin_ pinfo.end_ (performFallbackSplit prims pinfo) where
  rearranges := .refl _ _ _
  lbegin := rfl
  meet := rfl
  rend := rfl
  lnonempty := by
    simp only [performFallbackSplit]
    omega
  rnonempty := by
    simp only [performFallbackSplit]
    omega
  lbounds := CentGeomBBox.geomBounds_ofList _
  rbounds := CentGeomBBox.geomBounds_ofList _

theorem ofPartition_divides {isLeft : PrimRef → Bool} {begin_ end_ : Nat}
    {r : Partition.Result PrimRef CentGeomBBox}
    (hr : Partitioned isLeft CentGeomBBox.extendCenter2 prims begin_ end_ .empty .empty r)
    (hleft : ∃ i, begin_ ≤ i ∧ i < end_ ∧ isLeft (prims i) = true)
    (hright : ∃ i, begin_ ≤ i ∧ i < end_ ∧ isLeft (prims i) = false) :
    Divides prims begin_ end_ (.ofPartition begin_ end_ r) := by
  have hbegin := hr.begin_le
  have hend := hr.le_end
  -- a side without primitives would put every primitive of the range on the other side
  have hlnonempty : begin_ < r.center := by
    by_contra hempty
    obtain ⟨i, hi, hi', hleft⟩ := hleft
    have hnone := hr.rearranges.symm.forall_mem (P := fun x => isLeft x = false)
      (fun i hi hi' => hr.on_right i (by omega) hi') i hi hi'
    exact Bool.noConfusion (hleft.symm.trans hnone)
  have hrnonempty : r.center < end_ := by
    by_contra hempty
    obtain ⟨i, hi, hi', hright⟩ := hright
    have hall := hr.rearranges.symm.forall_mem (P := fun x => isLeft x = true)
      (fun i hi hi' => hr.on_left i hi (by omega)) i hi hi'
    exact Bool.noConfusion (hright.symm.trans hall)
  obtain ⟨L, hL, hLeq⟩ := hr.left_eq
  obtain ⟨R, hR, hReq⟩ := hr.right_eq
  refine ⟨hr.rearranges, rfl, rfl, rfl, hlnonempty, hrnonempty, ?_, ?_⟩
  · have hbounds := CentGeomBBox.geomBounds_ofList L
    rw [CentGeomBBox.ofList, ← hLeq, unionBounds_perm hL] at hbounds
    exact hbounds
  · have hbounds := CentGeomBBox.geomBounds_ofList R
    rw [CentGeomBBox.ofList, ← hReq, unionBounds_perm hR] at hbounds
    exact hbounds

theorem binnedSplit_divides {isLeft : PrimRef → Bool} {set : PrimInfoRange}
    (hleft : ∃ i, set.begin_ ≤ i ∧ i < set.end_ ∧ isLeft (prims i) = true)
    (hright : ∃ i, set.begin_ ≤ i ∧ i < set.end_ ∧ isLeft (prims i) = false) :
    Divides prims set.begin_ set.end_ (binnedSplit h isLeft prims set) := by
  have hle : set.begin_ ≤ set.end_ := by
    obtain ⟨i, hi, hi', _⟩ := hleft
    omega
  rw [binnedSplit]
  by_cases hsize : set.end_ - set.begin_ < parallelThreshold
  · rw [if_pos hsize]
    exact ofPartition_divides (serialPartitioning_spec _ _ prims _ _ hle) hleft hright
  · rw [if_neg hsize]
    exact ofPartition_divides
      (parallelPartitioning_spec CentGeomBBox.merge_foldl prims _ _ hle (by decide)
      h.threadCount_pos) hleft hright

structure Split.Good (getType : Fin maxGeometries → PrimType) (r : BuildRecord) (prims : Nat → PrimRef)
    (s : Split) : Prop where
  rearranges : Rearranges r.begin_ r.end_ prims s.prims
  lbegin : s.left.begin_ = r.begin_
  meet : s.right.begin_ = s.left.end_
  rend : s.right.end_ = r.end_
  left : s.left.Describes getType s.prims
  right : s.right.Describes getType s.prims

theorem Split.Good.indices {b : BuildRecord} {s : Split} (hs : Split.Good getType b prims s) :
    s.left.indices ++ s.right.indices = b.indices := by
  have hl := hs.left.nonempty
  have hr := hs.right.nonempty
  rw [hs.meet] at hr
  have hend := hs.rend
  have hmeet := hs.meet
  have hbegin := hs.lbegin
  have hlength : s.left.size + s.right.size = b.size := by
    simp only [BuildRecord.size]
    omega
  have hstart : s.right.begin_ = s.left.begin_ + s.left.size := by
    simp only [BuildRecord.size]
    omega
  rw [BuildRecord.indices, BuildRecord.indices, BuildRecord.indices, hstart, List.range'_append_1,
    hlength, hbegin]

/-- A split that keeps the type of the record. -/
theorem Divides.good {r : BuildRecord} {depth : Nat} {s : RangeSplit}
    (hs : Divides prims r.begin_ r.end_ s) (hr : r.Describes getType prims) :
    Split.Good getType r prims ⟨s.prims, ⟨depth, s.linfo, r.type⟩, ⟨depth, s.rinfo, r.type⟩⟩ := by
  have htype : ∀ ty, r.type = some ty → ∀ prim ∈ r.list s.prims, getType prim.geomID = ty :=
    fun ty hty prim hprim =>
    hr.type_eq ty hty prim (hs.rearranges.slice_perm.mem_iff.1 hprim)
  have happend := slice_append s.prims hs.lnonempty.le hs.rnonempty.le
  refine ⟨hs.rearranges, hs.lbegin, hs.meet, hs.rend, ⟨?_, ?_, fun ty hty prim hprim => ?_⟩,
    ⟨?_, ?_, fun ty hty prim hprim => ?_⟩⟩
  · show s.linfo.begin_ < s.linfo.end_
    rw [hs.lbegin]
    exact hs.lnonempty
  · have hbounds := hs.lbounds
    rw [← hs.lbegin] at hbounds
    exact hbounds
  · refine htype ty hty prim ?_
    rw [BuildRecord.list, ← happend, ← hs.lbegin]
    exact List.mem_append_left _ hprim
  · show s.rinfo.begin_ < s.rinfo.end_
    rw [hs.meet, hs.rend]
    exact hs.rnonempty
  · have hbounds := hs.rbounds
    rw [← hs.meet, ← hs.rend] at hbounds
    exact hbounds
  · refine htype ty hty prim ?_
    rw [BuildRecord.list, ← happend, ← hs.meet, ← hs.rend]
    exact List.mem_append_right _ hprim

theorem sahSplit_good {r : BuildRecord} (hr : r.Describes getType prims) (hsize : 1 < r.size)
    (depth sahBlockSize : Nat) : Split.Good getType r prims (sahSplit h depth sahBlockSize prims r) := by
  rw [sahSplit]
  cases hsplit : h.findBlockSize sahBlockSize prims r.prims with
  | none =>
      refine Divides.good (performFallbackSplit_divides ?_) hr
      have := hsize
      simp only [BuildRecord.size, BuildRecord.begin_, BuildRecord.end_] at this
      omega
  | some isLeft =>
      obtain ⟨hleft, hright⟩ := h.findBlockSize_valid _ _ _ _ hsplit
      exact Divides.good (binnedSplit_divides hleft hright) hr

theorem fallbackSplit_good {r : BuildRecord} (hr : r.Describes getType prims) (hsize : 1 < r.size)
    (depth : Nat) :
    Split.Good getType r prims (fallbackSplit depth prims r) := by
  refine Divides.good (performFallbackSplit_divides ?_) hr
  have := hsize
  simp only [BuildRecord.size, BuildRecord.begin_, BuildRecord.end_] at this
  omega

def Mixed (getType : Fin maxGeometries → PrimType) (prims : Nat → PrimRef) (r : BuildRecord) : Prop :=
  ∃ prim ∈ r.list prims, ∃ prim' ∈ r.list prims, getType prim.geomID ≠ getType prim'.geomID

theorem equalTypes_iff {begin_ end_ : Nat} (hlt : begin_ < end_) :
    equalTypes getType prims begin_ end_ = true ↔
      ∀ prim ∈ slice prims begin_ end_, getType prim.geomID = getType (prims begin_).geomID := by
  rw [equalTypes, List.all_eq_true, slice_cons prims hlt]
  simp only [decide_eq_true_eq, List.mem_cons, forall_eq_or_imp, true_and]

theorem mixed_of_equalTypes {r : BuildRecord} (hlt : r.begin_ < r.end_)
    (hequal : equalTypes getType prims r.begin_ r.end_ = false) : Mixed getType prims r := by
  by_contra hall
  simp only [Mixed, not_exists, not_and, not_not] at hall
  have hfirst : prims r.begin_ ∈ r.list prims := mem_slice.2 ⟨_, le_rfl, hlt, rfl⟩
  rw [(equalTypes_iff hlt).2 (fun prim hprim => hall prim hprim _ hfirst)] at hequal
  exact Bool.noConfusion hequal

theorem Mixed.ne_first {r : BuildRecord} (hmixed : Mixed getType prims r) :
    ∃ prim ∈ r.list prims, getType prim.geomID ≠ getType (prims r.begin_).geomID := by
  obtain ⟨prim, hprim, prim', hprim', hne⟩ := hmixed
  by_cases h : getType prim.geomID = getType (prims r.begin_).geomID
  · exact ⟨prim', hprim', fun h' => hne (h.trans h'.symm)⟩
  · exact ⟨prim, hprim, h⟩

theorem typeSplit_good {r : BuildRecord} (hr : r.Describes getType prims)
    (hmixed : Mixed getType prims r) (depth : Nat) :
    Split.Good getType r prims (typeSplit getType depth prims r) ∧
      ((typeSplit getType depth prims r).right.type = none →
        Mixed getType (typeSplit getType depth prims r).prims
          (typeSplit getType depth prims r).right) := by
  have hpart := serialPartitioning_spec
    (fun ref => decide (getType (prims r.begin_).geomID = getType ref.geomID))
    CentGeomBBox.extendCenter2 prims .empty .empty hr.nonempty.le
  have hdivides : Divides prims r.begin_ r.end_
      (performTypeSplit getType (getType (prims r.begin_).geomID) prims r.begin_ r.end_) := by
    obtain ⟨prim, hprim, hne⟩ := hmixed.ne_first
    obtain ⟨i, hi, hi', rfl⟩ := mem_slice.1 hprim
    refine ofPartition_divides hpart ⟨r.begin_, le_rfl, hr.nonempty, by simp⟩ ⟨i, hi, hi', ?_⟩
    simpa using Ne.symm hne
  have hleft : ∀ i, r.begin_ ≤ i →
      i < (performTypeSplit getType (getType (prims r.begin_).geomID) prims r.begin_ r.end_).linfo.end_ →
      getType ((performTypeSplit getType
        (getType (prims r.begin_).geomID) prims r.begin_ r.end_).prims i).geomID =
        getType (prims r.begin_).geomID := by
    intro i hi hi'
    exact (of_decide_eq_true (hpart.on_left i hi hi')).symm
  simp only [typeSplit]
  generalize performTypeSplit getType (getType (prims r.begin_).geomID) prims r.begin_ r.end_ = s at *
  have hrange : s.rinfo.begin_ < s.rinfo.end_ := by
    rw [hdivides.meet, hdivides.rend]
    exact hdivides.rnonempty
  have hrbounds : s.rinfo.geomBounds = unionBounds (slice s.prims s.rinfo.begin_ s.rinfo.end_) := by
    rw [hdivides.rbounds, hdivides.meet, hdivides.rend]
  refine ⟨⟨hdivides.rearranges, hdivides.lbegin, hdivides.meet, hdivides.rend, ⟨?_, ?_, ?_⟩,
    ⟨hrange, hrbounds, ?_⟩⟩, ?_⟩
  · show s.linfo.begin_ < s.linfo.end_
    rw [hdivides.lbegin]
    exact hdivides.lnonempty
  · have hbounds := hdivides.lbounds
    rw [← hdivides.lbegin] at hbounds
    exact hbounds
  · intro ty hty prim hprim
    obtain ⟨i, hi, hi', rfl⟩ := mem_slice.1 hprim
    exact (hleft i (hdivides.lbegin ▸ hi) hi').trans (Option.some.inj hty)
  · intro ty hty prim hprim
    by_cases hequal : equalTypes getType s.prims s.rinfo.begin_ s.rinfo.end_ = true
    · rw [if_pos hequal] at hty
      exact ((equalTypes_iff hrange).1 hequal prim hprim).trans (Option.some.inj hty)
    · rw [if_neg hequal] at hty
      cases hty
  · intro hnone
    by_cases hequal : equalTypes getType s.prims s.rinfo.begin_ s.rinfo.end_ = true
    · rw [if_pos hequal] at hnone
      cases hnone
    · have hfalse : equalTypes getType s.prims s.rinfo.begin_ s.rinfo.end_ = false := by
        simpa using hequal
      exact mixed_of_equalTypes hrange hfalse

structure Cover (getType : Fin maxGeometries → PrimType) (r : BuildRecord) (prims₀ prims : Nat → PrimRef)
    (children : List BuildRecord) : Prop where
  rearranges : Rearranges r.begin_ r.end_ prims₀ prims
  tiles : (children.flatMap BuildRecord.indices).Perm r.indices
  describes : ∀ child ∈ children, child.Describes getType prims

namespace Cover

variable {r : BuildRecord} {prims₀ : Nat → PrimRef} {children children' : List BuildRecord}

theorem refl (h : r.Describes getType prims) : Cover getType r prims prims [r] where
  rearranges := .refl _ _ _
  tiles := by simp
  describes child hchild := List.mem_singleton.1 hchild ▸ h

theorem perm (h : Cover getType r prims₀ prims children) (hperm : children'.Perm children) :
    Cover getType r prims₀ prims children' where
  rearranges := h.rearranges
  tiles := (hperm.flatMap_right _).trans h.tiles
  describes child hchild := h.describes child (hperm.mem_iff.1 hchild)

theorem list_perm (h : Cover getType r prims₀ prims children) :
    (children.flatMap (fun child => child.list prims)).Perm (r.list prims₀) := by
  have hmap : children.flatMap (fun child => child.list prims) =
      (children.flatMap BuildRecord.indices).map prims := by
    rw [List.map_flatMap]
    rfl
  rw [hmap]
  exact (h.tiles.map prims).trans h.rearranges.slice_perm

theorem sum_size (h : Cover getType r prims₀ prims children) :
    (children.map BuildRecord.size).sum = r.size := by
  have hlength := h.tiles.length_eq
  rw [List.length_flatMap] at hlength
  simpa [BuildRecord.indices] using hlength

theorem bounds (h : Cover getType r prims₀ prims children) {b : BuildRecord} (hb : b ∈ children) :
    r.begin_ ≤ b.begin_ ∧ b.end_ ≤ r.end_ := by
  have hnonempty := (h.describes b hb).nonempty
  have hsub : ∀ i ∈ b.indices, i ∈ r.indices := fun i hi =>
    h.tiles.mem_iff.1 (List.mem_flatMap.2 ⟨b, hb, hi⟩)
  have hfirst :=
    BuildRecord.mem_indices.1 (hsub b.begin_ (BuildRecord.mem_indices.2 ⟨le_rfl, hnonempty⟩))
  have hlast := BuildRecord.mem_indices.1
    (hsub (b.end_ - 1) (BuildRecord.mem_indices.2 ⟨by omega, by omega⟩))
  omega

theorem list_eq {before after : List BuildRecord} {b : BuildRecord} {s : Split}
    (h : Cover getType r prims₀ prims (before ++ b :: after)) (hs : Split.Good getType b prims s)
    {child : BuildRecord} (hchild : child ∈ before ++ after) :
    child.list s.prims = child.list prims := by
  have hnodup : ((before ++ b :: after).flatMap BuildRecord.indices).Nodup :=
    h.tiles.nodup_iff.2 List.nodup_range'
  rw [List.flatMap_append, List.flatMap_cons] at hnodup
  have hdisjoint := List.nodup_append.1 hnodup
  refine slice_congr (fun i hi hi' => hs.rearranges.outside ?_)
  -- an index of both ranges would be repeated
  by_contra hin
  have hmem : i ∈ b.indices := BuildRecord.mem_indices.2 (by omega)
  have hmem' : i ∈ child.indices := BuildRecord.mem_indices.2 ⟨hi, hi'⟩
  rcases List.mem_append.1 hchild with hc | hc
  · exact hdisjoint.2.2 i (List.mem_flatMap.2 ⟨child, hc, hmem'⟩) i (List.mem_append_left _ hmem) rfl
  · exact (List.nodup_append.1 hdisjoint.2.1).2.2 i hmem i (List.mem_flatMap.2 ⟨child, hc, hmem'⟩) rfl

theorem split {before after : List BuildRecord} {b : BuildRecord} {s : Split}
    (h : Cover getType r prims₀ prims (before ++ b :: after)) (hs : Split.Good getType b prims s) :
    Cover getType r prims₀ s.prims (before ++ s.left :: after ++ [s.right]) := by
  have hb : b ∈ before ++ b :: after := by simp
  have hother : ∀ child ∈ before ++ after, child.Describes getType s.prims := by
    intro child hchild
    refine (h.describes child ?_).of_perm (List.Perm.of_eq (h.list_eq hs hchild))
    rcases List.mem_append.1 hchild with hc | hc <;> simp [hc]
  refine ⟨h.rearranges.trans (hs.rearranges.mono (h.bounds hb).1 (h.bounds hb).2), ?_,
    fun child hchild => ?_⟩
  · have htiles := h.tiles
    rw [List.flatMap_append, List.flatMap_cons, ← hs.indices] at htiles
    refine List.Perm.trans ?_ htiles
    simp only [List.flatMap_append, List.flatMap_cons, List.flatMap_nil, List.append_nil,
      List.append_assoc]
    exact (List.perm_append_comm.append_left _).append_left _
  · simp only [List.mem_append, List.mem_cons, List.not_mem_nil, or_false] at hchild
    rcases hchild with (hc | rfl | hc) | rfl
    · exact hother child (List.mem_append_left _ hc)
    · exact hs.left
    · exact hother child (List.mem_append_right _ hc)
    · exact hs.right

end Cover

section find

variable {K : Type} [LinearOrder K] {key : BuildRecord → K} {leafThreshold : Nat}

def Best (key : BuildRecord → K) (leafThreshold : Nat) (children : List BuildRecord) :
    Option (K × Nat) → Prop
  | none => ∀ child ∈ children, child.size ≤ leafThreshold
  | some (bestKey, bestChild) => ∃ best, children[bestChild]? = some best ∧ leafThreshold < best.size ∧
      bestKey = key best ∧ ∀ child ∈ children, leafThreshold < child.size → key child ≤ bestKey

theorem findLargest_spec (children : List BuildRecord) {before : List BuildRecord}
    {best : Option (K × Nat)} (hbest : Best key leafThreshold before best) :
    Best key leafThreshold (before ++ children)
      (findLargest key leafThreshold children before.length best) := by
  induction children generalizing before best with
  | nil => simpa [findLargest] using hbest
  | cons child children ih =>
      have hnext : ∀ best', Best key leafThreshold (before ++ [child]) best' →
          Best key leafThreshold (before ++ child :: children)
            (findLargest key leafThreshold children (before.length + 1) best') := by
        intro best' hbest'
        have hrest := ih hbest'
        simpa using hrest
      have hself : leafThreshold < child.size →
          (∀ c ∈ before, leafThreshold < c.size → key c ≤ key child) →
          Best key leafThreshold (before ++ [child]) (some (key child, before.length)) := by
        intro hsize hle
        refine ⟨child, by simp, hsize, rfl, fun c hc hcsize => ?_⟩
        rcases List.mem_append.1 hc with hc | hc
        · exact hle c hc hcsize
        · exact (congrArg key (List.mem_singleton.1 hc)).le
      cases best with
      | none =>
          rw [findLargest]
          by_cases hsize : child.size ≤ leafThreshold
          · rw [if_pos hsize]
            refine hnext none (fun c hc => ?_)
            rcases List.mem_append.1 hc with hc | hc
            · exact hbest c hc
            · exact List.mem_singleton.1 hc ▸ hsize
          · rw [if_neg hsize]
            refine hnext _ (hself (by omega) (fun c hc hcsize => ?_))
            exact absurd (hbest c hc) (by omega)
      | some found =>
          obtain ⟨bestKey, bestChild⟩ := found
          obtain ⟨b, hb, hbsize, hkey, hle⟩ := hbest
          rw [findLargest]
          have hkeep : (leafThreshold < child.size → key child ≤ bestKey) →
              Best key leafThreshold (before ++ [child]) (some (bestKey, bestChild)) := by
            intro hchild
            refine ⟨b, ?_, hbsize, hkey, fun c hc hcsize => ?_⟩
            · rw [List.getElem?_append_left (List.getElem?_eq_some_iff.1 hb).1, hb]
            · rcases List.mem_append.1 hc with hc | hc
              · exact hle c hc hcsize
              · have heq := List.mem_singleton.1 hc
                exact heq ▸ hchild (heq ▸ hcsize)
          by_cases hsize : child.size ≤ leafThreshold
          · rw [if_pos hsize]
            exact hnext _ (hkeep (fun hlt => absurd hsize (by omega)))
          · rw [if_neg hsize]
            by_cases hlt : bestKey < key child
            · simp only [if_pos hlt]
              exact hnext _ (hself (by omega) (fun c hc hcsize => (hle c hc hcsize).trans hlt.le))
            · simp only [if_neg hlt]
              exact hnext _ (hkeep (fun _ => not_lt.1 hlt))

/-- A search that finds a child above the threshold whenever there is one. -/
structure Picks (leafThreshold : Nat) (find : List BuildRecord → Option Nat) : Prop where
  none_iff : ∀ children, find children = none → ∀ child ∈ children, child.size ≤ leafThreshold
  some_iff : ∀ children i, find children = some i →
    ∃ child, children[i]? = some child ∧ leafThreshold < child.size

variable (key leafThreshold) in
theorem findLargest_best (children : List BuildRecord) :
    Best key leafThreshold children (findLargest key leafThreshold children 0 none) := by
  have hnil : Best key leafThreshold [] none := fun child hchild => absurd hchild List.not_mem_nil
  exact findLargest_spec children hnil

theorem findLargest_picks :
    Picks leafThreshold
      (fun children => (findLargest key leafThreshold children 0 none).map Prod.snd) := by
  refine ⟨fun children hnone => ?_, fun children i hsome => ?_⟩
  · have hbest := findLargest_best key leafThreshold children
    rw [Option.map_eq_none_iff] at hnone
    rw [hnone] at hbest
    exact hbest
  · have hbest := findLargest_best key leafThreshold children
    obtain ⟨⟨bestKey, bestChild⟩, hfound, rfl⟩ := Option.map_eq_some_iff.1 hsome
    rw [hfound] at hbest
    obtain ⟨b, hb, hbsize, _⟩ := hbest
    exact ⟨b, hb, hbsize⟩

end find

theorem findChildWithLargestArea_picks (leafThreshold : Nat) :
    Picks leafThreshold (findChildWithLargestArea h leafThreshold) := findLargest_picks

theorem findChildWithMostPrimitives_picks (leafThreshold : Nat) :
    Picks leafThreshold (findChildWithMostPrimitives leafThreshold) := findLargest_picks

theorem findChildWithMostPrimitives_largest {leafThreshold i : Nat} {children : List BuildRecord}
    (hfind : findChildWithMostPrimitives leafThreshold children = some i) :
    ∃ best, children[i]? = some best ∧ leafThreshold < best.size ∧
      ∀ child ∈ children, child.size ≤ best.size := by
  have hbest := findLargest_best BuildRecord.size leafThreshold children
  obtain ⟨⟨bestKey, bestChild⟩, hfound, rfl⟩ := Option.map_eq_some_iff.1 hfind
  rw [hfound] at hbest
  obtain ⟨b, hb, hbsize, rfl, hle⟩ := hbest
  refine ⟨b, hb, hbsize, fun child hchild => ?_⟩
  by_cases hsize : leafThreshold < child.size
  · exact hle child hchild hsize
  · omega

theorem findChildWithNonEqualTypes_some {children : List BuildRecord} {i : Nat}
    (hfind : findChildWithNonEqualTypes children = some i) :
    ∃ child, children[i]? = some child ∧ child.type = none := by
  obtain ⟨hlt, htype, _⟩ := List.findIdx?_eq_some_iff_getElem.1 hfind
  refine ⟨children[i], List.getElem?_eq_getElem hlt, ?_⟩
  simpa [BuildRecord.equalType] using htype

section loop

variable {find : List BuildRecord → Option Nat} {split : (Nat → PrimRef) → BuildRecord → Split}

theorem exists_getElem?_split {l : List BuildRecord} {i : Nat} {b : BuildRecord} (hb : l[i]? = some b) :
    ∃ before after, l = before ++ b :: after ∧ before.length = i ∧
      ∀ x, l.set i x = before ++ x :: after := by
  obtain ⟨hlt, rfl⟩ := List.getElem?_eq_some_iff.1 hb
  refine ⟨l.take i, l.drop (i + 1), ?_, by simp; omega, fun x => ?_⟩
  · rw [← List.drop_eq_getElem_cons hlt, List.take_append_drop]
  · rw [List.set_eq_take_append_cons_drop, if_pos hlt]

variable (find split)

/-- What every split preserves holds after the loop. -/
theorem splitUntilFull_induct {P : (Nat → PrimRef) → List BuildRecord → Prop}
    (hstep : ∀ prims before b after, P prims (before ++ b :: after) →
      find (before ++ b :: after) = some before.length →
      P (split prims b).prims (before ++ (split prims b).left :: after ++ [(split prims b).right]))
    (room : Nat) {prims : Nat → PrimRef} {children : List BuildRecord} (hP : P prims children) :
    P (splitUntilFull find split room prims children).1
      (splitUntilFull find split room prims children).2 := by
  induction room generalizing prims children with
  | zero => exact hP
  | succ room ih =>
      rw [splitUntilFull]
      cases hfind : find children with
      | none => exact hP
      | some i =>
          cases hb : children[i]? with
          | none => simpa [hb] using hP
          | some b =>
              obtain ⟨before, after, rfl, rfl, hset⟩ := exists_getElem?_split hb
              simp only [hb, hset]
              exact ih (hstep prims before b after hP hfind)

/-- The loop ends with a full node or with nothing left to split. -/
theorem splitUntilFull_stop (hvalid : ∀ children i, find children = some i → i < children.length)
    (room : Nat) (prims : Nat → PrimRef) (children : List BuildRecord) :
    (splitUntilFull find split room prims children).2.length = children.length + room ∨
      ((splitUntilFull find split room prims children).2.length ≤ children.length + room ∧
        find (splitUntilFull find split room prims children).2 = none) := by
  induction room generalizing prims children with
  | zero => exact Or.inl rfl
  | succ room ih =>
      rw [splitUntilFull]
      cases hfind : find children with
      | none => exact Or.inr ⟨Nat.le_add_right _ _, hfind⟩
      | some i =>
          have hlt := hvalid children i hfind
          have hlength : ∀ (l r : BuildRecord), (children.set i l ++ [r]).length =
              children.length + 1 := by simp
          simp only [List.getElem?_eq_getElem hlt]
          rcases ih (split prims children[i]).prims
            (children.set i (split prims children[i]).left ++
              [(split prims children[i]).right]) with hfull | ⟨hle, hnone⟩
          · rw [hlength] at hfull
            exact Or.inl (by omega)
          · rw [hlength] at hle
            exact Or.inr ⟨by omega, hnone⟩

end loop

theorem Picks.lt_length {leafThreshold : Nat} {find : List BuildRecord → Option Nat}
    (hfind : Picks leafThreshold find) (children : List BuildRecord) (i : Nat)
    (hi : find children = some i) : i < children.length := by
  obtain ⟨child, hchild, _⟩ := hfind.some_iff children i hi
  exact (List.getElem?_eq_some_iff.1 hchild).1

end Splits

end RTBuild
