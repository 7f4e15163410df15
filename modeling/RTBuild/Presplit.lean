import RTBuild.OpenInstance
import RTBuild.PrimRef
import RTBuild.SwapPhase
import RTBuild.Library.ParallelFor
import RTBuild.Library.PrefixSum
import RTBuild.Library.RadixSort
import RTBuild.Library.Reduce

namespace RTBuild

open Library
open Library.Segment (slice)
open Library.Chunk (store)
open Library.ParallelFor (Runs slots)

def maxPresplitsPerPrimitiveLog : Nat := 5

instance (priority := high) neZero_splitLog : NeZero (maxPresplitsPerPrimitiveLog + 1) :=
  ⟨Nat.succ_ne_zero _⟩

section split

variable (splitter : PrimRef → Fin 3 → ℚ → PrimRef × PrimRef) (splitPos : PrimRef → Option (Fin 3 × ℚ))

def splitPrimitive (prim : PrimRef) (splitprims : Nat) : List PrimRef :=
  if splitprims ≤ 1 then [prim]
  else
    match splitPos prim with
    | none => [prim]
    | some (dim, fsplit) =>
        let r := splitter prim dim fsplit
        let splitprimsLeft := splitprims / 2
        let splitprimsRight := splitprims - splitprimsLeft
        splitPrimitive r.1 splitprimsLeft ++ splitPrimitive r.2 splitprimsRight
termination_by splitprims
decreasing_by all_goals omega

variable {splitter splitPos}

theorem splitPrimitive_one (prim : PrimRef) : splitPrimitive splitter splitPos prim 1 = [prim] := by
  rw [splitPrimitive, if_pos le_rfl]

theorem splitPrimitive_of_none {prim : PrimRef} (hpos : splitPos prim = none) (splitprims : Nat) :
    splitPrimitive splitter splitPos prim splitprims = [prim] := by
  rw [splitPrimitive, hpos, ite_self]

theorem splitPrimitive_of_some {prim : PrimRef} {dim : Fin 3} {fsplit : ℚ}
    (hpos : splitPos prim = some (dim, fsplit)) {splitprims : Nat} (h : 1 < splitprims) :
    splitPrimitive splitter splitPos prim splitprims =
      splitPrimitive splitter splitPos (splitter prim dim fsplit).1 (splitprims / 2) ++
        splitPrimitive splitter splitPos (splitter prim dim fsplit).2 (splitprims - splitprims / 2) := by
  rw [splitPrimitive, if_neg (Nat.not_le_of_lt h), hpos]

theorem length_splitPrimitive (prim : PrimRef) {splitprims : Nat} (h : 0 < splitprims) :
    0 < (splitPrimitive splitter splitPos prim splitprims).length ∧
      (splitPrimitive splitter splitPos prim splitprims).length ≤ splitprims := by
  induction splitprims using Nat.strong_induction_on generalizing prim with
  | _ splitprims ih =>
      by_cases hone : splitprims = 1
      · subst hone
        rw [splitPrimitive_one]
        exact ⟨Nat.one_pos, le_rfl⟩
      · cases hpos : splitPos prim with
        | none =>
            rw [splitPrimitive_of_none hpos]
            exact ⟨Nat.one_pos, h⟩
        | some r =>
            obtain ⟨hleft, hleft'⟩ := ih (splitprims / 2) (by omega) (splitter prim r.1 r.2).1 (by omega)
            obtain ⟨hright, hright'⟩ :=
              ih (splitprims - splitprims / 2) (by omega) (splitter prim r.1 r.2).2 (by omega)
            rw [splitPrimitive_of_some hpos (by omega), List.length_append]
            omega

end split

structure SplitPrimitiveFunc where
  split : PrimRef → Nat → List PrimRef
  length_pos : ∀ prim splitprims, 0 < splitprims → splitprims ≤ maxPresplitsPerPrimitive →
    0 < (split prim splitprims).length
  length_le : ∀ prim splitprims, 0 < splitprims → splitprims ≤ maxPresplitsPerPrimitive →
    (split prim splitprims).length ≤ maxPresplitsPerPrimitive

def SplitPrimitiveFunc.ofSplitter (splitter : PrimRef → Fin 3 → ℚ → PrimRef × PrimRef)
    (splitPos : PrimRef → Option (Fin 3 × ℚ)) : SplitPrimitiveFunc where
  split := splitPrimitive splitter splitPos
  length_pos prim _ h _ := (length_splitPrimitive prim h).1
  length_le prim _ h h' := (length_splitPrimitive prim h).2.trans h'

/-- The priority of an item has been replaced by its data. -/
structure PresplitItem where
  data : BitVec 32
  index : BitVec 32
  deriving DecidableEq, Inhabited

/-- The arguments of createPrimRefArray_presplit, with the split counts that the priorities lead to
as logarithms. -/
structure Presplitting where
  func : SplitPrimitiveFunc
  stdSort : RadixSort.StdSort PresplitItem (fun x y => x.data < y.data)
  threadCount : Nat
  threadCount_pos : 0 < threadCount
  prims : Nat → PrimRef
  numPrimitivesExt : Nat
  pinfo : PrimInfo
  room : pinfo.size ≤ numPrimitivesExt
  splitLog : Nat → Fin (maxPresplitsPerPrimitiveLog + 1)

/-- The primitives that are split, the stores to the primitives in the order in which they are made,
and what is returned. -/
structure PresplitResult where
  chosen : List PresplitItem
  trace : List (PrimRef × Nat)
  pinfo : PrimInfo

namespace Presplitting

variable (c : Presplitting)

def numPrimitives : Nat := c.pinfo.size

def numSplitPrimitivesBudget : Nat := c.numPrimitivesExt - c.numPrimitives

def splitprims (i : Nat) : BitVec 32 := 1#32 <<< (c.splitLog i).val

def preSplitItem0 (i : Nat) : PresplitItem := ⟨c.splitprims i, BitVec.ofNat 32 i⟩

def isLeft (ref : PresplitItem) : Bool := ref.data ≤ 1

def partitioned : Partition.Result PresplitItem Nat :=
  Partition.parallelPartitioning isLeft (fun t _ => t)
    (fun t _ => t) 0 1024 c.threadCount c.preSplitItem0 0 c.numPrimitives 0 0

def center : Nat := c.partitioned.center

def numSubPrims (item : PresplitItem) : BitVec 32 :=
  BitVec.ofNat 32 (c.func.split (c.prims item.index.toNat) item.data.toNat).length - 1

def trialSplit (item : PresplitItem) : PresplitItem :=
  { item with data := c.numSubPrims item <<< 16 ||| item.data }

structure Trial where
  items : List PresplitItem
  sorts : RadixSort.Sorts PresplitItem.data c.stdSort 1024 c.threadCount
    (slice c.partitioned.array c.center c.numPrimitives) items
  cut : Reduce.Tree PresplitItem
  cut_items : cut.items = items

variable {c} in
def Trial.totalNumSubPrims (t : c.Trial) : Nat :=
  t.cut.eval 0 (fun items => (items.map (fun item => (c.numSubPrims item).toNat)).sum) (· + ·)

/-- The loop that shrinks the range, over the items from new_center down to center. It has to find
one to stop at, before new_center drops below center. -/
def shrinkLoop (budget : Nat) : List PresplitItem → Nat → Nat → Option Nat
  | [], _, _ => none
  | item :: items, newCenter, sum =>
      let numSubPrims := (item.data >>> 16).toNat
      if budget ≤ sum + numSubPrims then some newCenter
        else shrinkLoop budget items (newCenter - 1) (sum + numSubPrims)

variable {c} in
def Trial.newCenter (t : c.Trial) : Option Nat :=
  if c.numSplitPrimitivesBudget < t.totalNumSubPrims then
    (shrinkLoop c.numSplitPrimitivesBudget (t.items.map c.trialSplit).reverse
      (c.numPrimitives - 1) 0).map (· + 1)
  else some c.center

variable {c} in
def Trial.primOffset1 (t : c.Trial) (newCenter : Nat) : List (BitVec 32) × BitVec 32 :=
  PrefixSum.parallelPrefixSum 4096 1024 64 c.threadCount
    ((t.items.map c.numSubPrims).drop (newCenter - c.center))

def storeSubPrims (j : PresplitItem × BitVec 32) (prims : Nat → PrimRef) : List (PrimRef × Nat) :=
  let primrefID := j.1.index.toNat
  match c.func.split (prims primrefID) (j.1.data &&& 0xFFFF).toNat with
  | [] => []
  | prim :: subPrims => (prim, primrefID) :: subPrims.zipIdx (c.numPrimitives + j.2.toNat)

inductive Run : Option PresplitResult → Prop
  | nothingToSplit (h : c.numPrimitives ≤ c.center) : Run (some ⟨[], [], c.pinfo⟩)
  | underflow (h : c.center < c.numPrimitives) (t : c.Trial) (hshrink : t.newCenter = none) : Run none
  | split (h : c.center < c.numPrimitives) (t : c.Trial) (newCenter : Nat)
      (hshrink : t.newCenter = some newCenter)
      (chosen : List PresplitItem)
        (hchosen : chosen = (t.items.map c.trialSplit).drop (newCenter - c.center))
      (trace : List (PrimRef × Nat))
      (hruns : Runs c.storeSubPrims c.prims ((chosen.zip (t.primOffset1 newCenter).1).map .todo) trace)
      (cut : Reduce.Tree PrimRef)
      (hcut : cut.items =
        slice (store c.prims trace) 0 (c.numPrimitives + (t.primOffset1 newCenter).2.toNat)) :
      Run (some ⟨chosen, trace, cut.eval PrimInfo.empty PrimInfo.ofList PrimInfo.merge⟩)

def pieces (i : Nat) : List PrimRef := c.func.split (c.prims i) (c.splitprims i).toNat

def further (i : Nat) : Nat := (c.pieces i).length - 1

def offset (ids : List Nat) : Nat := (ids.map c.further).sum

structure Splits (ids : List Nat) (r : PresplitResult) : Prop where
  nodup : ids.Nodup
  chosen : ∀ i ∈ ids, i < c.numPrimitives ∧ 1 < (c.splitprims i).toNat
  inBudget : c.numPrimitives + c.offset ids ≤ c.numPrimitivesExt
  stores : (slots r.trace).Perm (ids ++ List.range' c.numPrimitives (c.offset ids))
  first : ∀ i ∈ ids, (c.pieces i).head? = some (store c.prims r.trace i)
  further : slice (store c.prims r.trace) c.numPrimitives (c.numPrimitives + c.offset ids) =
    ids.flatMap (fun i => (c.pieces i).tail)
  unchanged : ∀ i, i ∉ ids → (i < c.numPrimitives ∨ c.numPrimitives + c.offset ids ≤ i) →
    store c.prims r.trace i = c.prims i
  multiset : (slice (store c.prims r.trace) 0 (c.numPrimitives + c.offset ids)).Perm
    (((List.range c.numPrimitives).filter (· ∉ ids)).map c.prims ++ ids.flatMap c.pieces)
  size_pinfo : r.pinfo.size = c.numPrimitives + c.offset ids

/-- Every run ends, and what it ends with is split as it has to be. -/
def Preserves : Prop := ∀ r, c.Run r → ∃ r' ids, r = some r' ∧ c.Splits ids r'

variable {c}

theorem toNat_splitprims (i : Nat) : (c.splitprims i).toNat = 2 ^ (c.splitLog i).val := by
  have hall : ∀ log : Fin (maxPresplitsPerPrimitiveLog + 1), (1#32 <<< log.val).toNat =
      2 ^ log.val := by decide
  exact hall _

theorem splitprims_pos (i : Nat) : 0 < (c.splitprims i).toNat := by
  rw [toNat_splitprims]
  exact Nat.two_pow_pos _

theorem splitprims_le (i : Nat) : (c.splitprims i).toNat ≤ maxPresplitsPerPrimitive := by
  rw [toNat_splitprims]
  exact Nat.pow_le_pow_right (n := 2) Nat.two_pos (Nat.le_of_lt_succ (c.splitLog i).isLt)

theorem length_pieces (i : Nat) : (c.pieces i).length = c.further i + 1 := by
  have h := c.func.length_pos (c.prims i) _ (c.splitprims_pos i) (c.splitprims_le i)
  rw [further, pieces]
  omega

theorem further_lt (i : Nat) : c.further i < 2 ^ 16 := by
  have h : (c.pieces i).length ≤ 32 :=
    c.func.length_le (c.prims i) _ (c.splitprims_pos i) (c.splitprims_le i)
  rw [length_pieces] at h
  omega

theorem isLeft_preSplitItem0 (i : Nat) :
    isLeft (c.preSplitItem0 i) = false ↔ 1 < (c.splitprims i).toNat := by
  rw [isLeft, decide_eq_false_iff_not, BitVec.not_le]
  rfl

theorem partitioned_spec :
    Partition.Partitioned isLeft (fun t _ => t) c.preSplitItem0 0 c.numPrimitives 0 0 c.partitioned :=
  Partition.parallelPartitioning_spec (fun v _ => (List.foldl_fixed _).symm) c.preSplitItem0 0 0
    (Nat.zero_le _) (by decide) c.threadCount_pos

theorem center_le : c.center ≤ c.numPrimitives := partitioned_spec.le_end

theorem getLsbD_high {b : BitVec 32} (hb : b.toNat < 2 ^ 16) {i : Nat} (hi : 16 ≤ i) :
    b.getLsbD i = false :=
  Nat.testBit_lt_two_pow (hb.trans_le (Nat.pow_le_pow_right Nat.two_pos hi))

theorem pack_ushiftRight {a b : BitVec 32} (ha : a.toNat < 2 ^ 16) (hb : b.toNat < 2 ^ 16) :
    (a <<< 16 ||| b) >>> 16 = a := by
  apply BitVec.eq_of_getLsbD_eq
  intro i _
  rw [BitVec.getLsbD_ushiftRight, BitVec.getLsbD_or, BitVec.getLsbD_shiftLeft,
    getLsbD_high hb (Nat.le_add_right _ _), Bool.or_false, Nat.add_sub_cancel_left]
  by_cases hi : i < 16
  · simp
    omega
  · simp [getLsbD_high ha (Nat.le_of_not_lt hi)]

theorem pack_and {a b : BitVec 32} (hb : b.toNat < 2 ^ 16) : (a <<< 16 ||| b) &&& 0xFFFF = b := by
  have hmask : (0xFFFF : BitVec 32) = BitVec.ofNat 32 (2 ^ 16 - 1) := rfl
  apply BitVec.eq_of_getLsbD_eq
  intro i hi
  rw [hmask, BitVec.getLsbD_and, BitVec.getLsbD_or, BitVec.getLsbD_shiftLeft, BitVec.getLsbD_ofNat,
    Nat.testBit_two_pow_sub_one]
  by_cases hi' : i < 16
  · simp [hi, hi']
  · simp [hi', getLsbD_high hb (Nat.le_of_not_lt hi')]

theorem toNat_further (i : Nat) : (BitVec.ofNat 32 (c.further i)).toNat = c.further i := by
  have h := c.further_lt i
  rw [BitVec.toNat_ofNat]
  exact Nat.mod_eq_of_lt (by omega)

theorem splitprims_lt (i : Nat) : (c.splitprims i).toNat < 2 ^ 16 := by
  have h : (c.splitprims i).toNat ≤ 32 := c.splitprims_le i
  omega

section item

variable {i : Nat} (hi : i < 2 ^ 32)
include hi

theorem index_preSplitItem0 : (c.preSplitItem0 i).index.toNat = i := by
  rw [preSplitItem0, BitVec.toNat_ofNat]
  exact Nat.mod_eq_of_lt hi

theorem numSubPrims_preSplitItem0 :
    c.numSubPrims (c.preSplitItem0 i) = BitVec.ofNat 32 (c.further i) := by
  rw [numSubPrims, index_preSplitItem0 hi]
  change BitVec.ofNat 32 (c.pieces i).length - 1 = _
  rw [length_pieces, BitVec.ofNat_add]
  exact add_sub_cancel_right _ _

theorem trialSplit_ushiftRight :
    ((c.trialSplit (c.preSplitItem0 i)).data >>> 16).toNat = c.further i := by
  rw [trialSplit, numSubPrims_preSplitItem0 hi, preSplitItem0, pack_ushiftRight _ (splitprims_lt i),
    toNat_further]
  rw [toNat_further]
  exact c.further_lt i

end item

theorem trialSplit_and (i : Nat) :
    ((c.trialSplit (c.preSplitItem0 i)).data &&& 0xFFFF).toNat = (c.splitprims i).toNat := by
  rw [trialSplit, preSplitItem0, pack_and (splitprims_lt i)]

theorem exists_map_eq_of_perm {α β : Type} {f : α → β} {l : List β} {m : List α} (h : l.Perm (m.map f)) :
    ∃ m' : List α, m'.Perm m ∧ l = m'.map f := by
  have hmap : List.Forall₂ (fun b a => b = f a) (m.map f) m :=
    List.forall₂_map_right_iff.1 (List.forall₂_eq_eq_eq ▸ rfl)
  obtain ⟨m', hm', hperm⟩ := List.perm_comp_forall₂ h hmap
  exact ⟨m', hperm, List.forall₂_eq_eq_eq ▸ List.forall₂_map_right_iff.2 hm'⟩

def candidates (c : Presplitting) : List Nat :=
  (List.range c.numPrimitives).filter (fun i => !isLeft (c.preSplitItem0 i))

theorem mem_candidates {i : Nat} :
    i ∈ c.candidates ↔ i < c.numPrimitives ∧ 1 < (c.splitprims i).toNat := by
  rw [candidates, List.mem_filter, List.mem_range, Bool.not_eq_true', isLeft_preSplitItem0]

theorem nodup_candidates : c.candidates.Nodup := List.nodup_range.filter _

theorem slice_perm_candidates :
    (slice c.partitioned.array c.center c.numPrimitives).Perm (c.candidates.map c.preSplitItem0) := by
  have hperm := (c.partitioned_spec.sides_perm).2
  have hslice : slice c.preSplitItem0 0 c.numPrimitives =
      (List.range c.numPrimitives).map c.preSplitItem0 := by
    rw [slice, Nat.sub_zero, List.range_eq_range']
  rw [hslice, List.filter_map] at hperm
  exact hperm

theorem length_candidates : c.candidates.length = c.numPrimitives - c.center := by
  have h := c.slice_perm_candidates.length_eq
  rw [Segment.length_slice, List.length_map] at h
  exact h.symm

/-- The items to split are those of the candidates, in some order. -/
theorem Trial.exists_ids (t : c.Trial) (h : c.candidates.length ≤ 2 ^ 32) :
    ∃ ids : List Nat, ids.Perm c.candidates ∧ t.items = ids.map c.preSplitItem0 := by
  apply exists_map_eq_of_perm
  refine (t.sorts.perm (by decide) c.threadCount_pos ?_).trans slice_perm_candidates
  rwa [Segment.length_slice, ← length_candidates]

theorem Trial.total_sum (t : c.Trial) :
    t.totalNumSubPrims = (t.items.map (fun item => (c.numSubPrims item).toNat)).sum := by
  rw [← t.cut_items]
  apply Reduce.Tree.eval_induct
    (P := fun items v => v = (items.map (fun item => (c.numSubPrims item).toNat)).sum)
  · rfl
  · exact fun _ => rfl
  · rintro l l' _ _ rfl rfl
    rw [List.map_append, List.sum_append]

section run

variable (hindex : c.numPrimitives ≤ 2 ^ 32) (t : c.Trial)
include hindex

theorem index_lt {ids : List Nat} (hids : ids.Subperm c.candidates) {i : Nat} (hi : i ∈ ids) :
    i < 2 ^ 32 :=
  ((mem_candidates.1 (hids.subset hi)).1).trans_le hindex

theorem Trial.total_eq {ids : List Nat} (hids : ids.Perm c.candidates)
    (hitems : t.items = ids.map c.preSplitItem0) : t.totalNumSubPrims = c.offset ids := by
  rw [t.total_sum, hitems, List.map_map, offset]
  congr 1
  apply List.map_congr_left
  intro i hi
  rw [Function.comp_apply, numSubPrims_preSplitItem0 (index_lt hindex hids.subperm hi), toNat_further]

end run

/-- Where the loop stops, what it has passed is within the budget, and something is left. -/
theorem shrinkLoop_spec {budget : Nat} (items : List PresplitItem) (newCenter sum : Nat)
    (hsum : sum ≤ budget)
    (h : budget < sum + (items.map (fun item : PresplitItem => (item.data >>> 16).toNat)).sum) :
    ∃ passed < items.length, shrinkLoop budget items newCenter sum = some (newCenter - passed) ∧
      sum + ((items.take passed).map (fun item : PresplitItem => (item.data >>> 16).toNat)).sum ≤
        budget := by
  induction items generalizing newCenter sum with
  | nil =>
      rw [List.map_nil, List.sum_nil] at h
      omega
  | cons item items ih =>
      rw [shrinkLoop]
      by_cases hstop : budget ≤ sum + (item.data >>> 16).toNat
      · exact ⟨0, Nat.zero_lt_succ _, if_pos hstop, hsum⟩
      · rw [List.map_cons, List.sum_cons, ← Nat.add_assoc] at h
        obtain ⟨passed, hlt, heq, hle⟩ :=
          ih (newCenter - 1) (sum + (item.data >>> 16).toNat) (by omega) h
        refine ⟨passed + 1, Nat.succ_lt_succ hlt, ?_, ?_⟩
        · rw [if_neg hstop, heq, Nat.sub_sub, Nat.add_comm 1]
        · rwa [List.take_succ_cons, List.map_cons, List.sum_cons, ← Nat.add_assoc]

theorem Trial.newCenter_spec (hindex : c.numPrimitives ≤ 2 ^ 32) (t : c.Trial) {ids : List Nat}
    (hids : ids.Perm c.candidates) (hitems : t.items = ids.map c.preSplitItem0) :
    ∃ newCenter, t.newCenter = some newCenter ∧ c.center ≤ newCenter ∧
      c.offset (ids.drop (newCenter - c.center)) ≤ c.numSplitPrimitivesBudget := by
  rw [newCenter, t.total_eq hindex hids hitems]
  by_cases hover : c.numSplitPrimitivesBudget < c.offset ids
  · have hfurther : ∀ l : List Nat, l.Subperm c.candidates →
        (l.map (c.trialSplit ∘ c.preSplitItem0)).map
          (fun item : PresplitItem => (item.data >>> 16).toNat) = l.map c.further := by
      intro l hl
      rw [List.map_map]
      exact List.map_congr_left (fun i hi => trialSplit_ushiftRight (index_lt hindex hl hi))
    have hlength : ids.length = c.numPrimitives - c.center := hids.length_eq.trans length_candidates
    have hle := c.center_le
    rw [if_pos hover, hitems, List.map_map, ← List.map_reverse]
    have hrev : ids.reverse.Subperm c.candidates := (ids.reverse_perm.trans hids).subperm
    obtain ⟨passed, hlt, heq, hsum⟩ := shrinkLoop_spec (ids.reverse.map (c.trialSplit ∘ c.preSplitItem0))
      (c.numPrimitives - 1) 0 (Nat.zero_le _) (by
        rw [hfurther _ hrev, Nat.zero_add, List.map_reverse, List.sum_reverse]
        exact hover)
    rw [List.length_map, List.length_reverse] at hlt
    refine ⟨c.numPrimitives - 1 - passed + 1, by rw [heq]; rfl, by omega, ?_⟩
    have hdrop : c.numPrimitives - 1 - passed + 1 - c.center = ids.length - passed := by omega
    rw [← List.map_take, hfurther _ ((List.take_sublist _ _).subperm.trans hrev), Nat.zero_add,
      List.take_reverse, List.map_reverse, List.sum_reverse] at hsum
    rwa [hdrop]
  · refine ⟨c.center, if_neg hover, le_rfl, ?_⟩
    rw [Nat.sub_self, List.drop_zero]
    exact Nat.le_of_not_lt hover

def first (c : Presplitting) (i : Nat) : PrimRef := (c.pieces i).headD (c.prims i)

theorem pieces_eq (i : Nat) : c.pieces i = c.first i :: (c.pieces i).tail := by
  have h := c.length_pieces i
  rw [first]
  cases hpieces : c.pieces i with
  | nil => rw [hpieces] at h; cases h
  | cons prim subPrims => rfl

/-- The iteration of an item goes by its index, whatever primitive that belongs to. -/
theorem storeSubPrims_cons {i : Nat} {prims : Nat → PrimRef} {prim : PrimRef}
    {subPrims : List PrimRef}
    (h : c.func.split (prims (BitVec.ofNat 32 i).toNat) (c.splitprims i).toNat = prim :: subPrims)
    (o : BitVec 32) :
    c.storeSubPrims (c.trialSplit (c.preSplitItem0 i), o) prims =
      (prim, (BitVec.ofNat 32 i).toNat) :: subPrims.zipIdx (c.numPrimitives + o.toNat) := by
  rw [← trialSplit_and] at h
  simp only [storeSubPrims]
  split
  · rename_i hnil
    cases hnil.symm.trans h
  · rename_i hcons
    obtain ⟨rfl, rfl⟩ := List.cons.inj (hcons.symm.trans h)
    rfl

theorem index_mem_slots (i : Nat) (o : BitVec 32) (prims : Nat → PrimRef) :
    (BitVec.ofNat 32 i).toNat ∈ slots (c.storeSubPrims (c.trialSplit (c.preSplitItem0 i), o) prims) := by
  have h := c.func.length_pos (prims (BitVec.ofNat 32 i).toNat) _ (c.splitprims_pos i)
    (c.splitprims_le i)
  obtain ⟨prim, subPrims, hsplit⟩ := List.exists_cons_of_length_pos h
  rw [storeSubPrims_cons hsplit]
  exact List.mem_cons_self

theorem slots_storeSubPrims {i : Nat} (hi : i < 2 ^ 32) (o : BitVec 32) :
    slots (c.storeSubPrims (c.trialSplit (c.preSplitItem0 i), o) c.prims) =
      i :: List.range' (c.numPrimitives + o.toNat) (c.further i) := by
  have hindex : (BitVec.ofNat 32 i).toNat = i := Nat.mod_eq_of_lt hi
  have hpieces : c.func.split (c.prims (BitVec.ofNat 32 i).toNat) (c.splitprims i).toNat =
      c.first i :: (c.pieces i).tail := by
    rw [hindex]
    exact c.pieces_eq i
  rw [storeSubPrims_cons hpieces, hindex, slots, List.map_cons, List.zipIdx_map_snd, List.length_tail]
  rfl

def stores (c : Presplitting) (j : Nat × Nat) (prims : Nat → PrimRef) : List (PrimRef × Nat) :=
  match c.func.split (prims j.1) (c.splitprims j.1).toNat with
  | [] => []
  | prim :: subPrims => (prim, j.1) :: subPrims.zipIdx (c.numPrimitives + j.2)

theorem storeSubPrims_eq {j : Nat × Nat} (hi : j.1 < 2 ^ 32) (ho : j.2 < 2 ^ 32) :
    c.storeSubPrims (c.trialSplit (c.preSplitItem0 j.1), (j.2 : BitVec 32)) = c.stores j := by
  funext prims
  have hindex : (c.trialSplit (c.preSplitItem0 j.1)).index.toNat = j.1 := c.index_preSplitItem0 hi
  have hoffset : ((j.2 : Nat) : BitVec 32).toNat = j.2 := by
    rw [BitVec.natCast_eq_ofNat, BitVec.toNat_ofNat, Nat.mod_eq_of_lt ho]
  rw [storeSubPrims, stores]
  simp only [hindex, hoffset, trialSplit_and]

theorem stores_prims (j : Nat × Nat) :
    c.stores j c.prims = (c.first j.1, j.1) :: (c.pieces j.1).tail.zipIdx (c.numPrimitives + j.2) := by
  have h := c.pieces_eq j.1
  rw [pieces] at h
  rw [stores, h]
  rfl

def offsets (c : Presplitting) (ids : List Nat) : List Nat :=
  (PrefixSum.serialScan 0 (ids.map c.further)).1

theorem length_offsets (ids : List Nat) : (c.offsets ids).length = ids.length :=
  (PrefixSum.length_serialScan _ _).trans (List.length_map _)

theorem Trial.primOffset1_eq (hindex : c.numPrimitives ≤ 2 ^ 32) (t : c.Trial) {ids : List Nat}
    (hids : ids.Perm c.candidates) (hitems : t.items = ids.map c.preSplitItem0) (newCenter : Nat) :
    t.primOffset1 newCenter = ((c.offsets (ids.drop (newCenter - c.center))).map Nat.cast,
      (c.offset (ids.drop (newCenter - c.center)) : BitVec 32)) := by
  have hvalues : t.items.map c.numSubPrims =
      (ids.map c.further).map (Nat.castAddMonoidHom (BitVec 32)) := by
    rw [hitems, List.map_map, List.map_map]
    exact List.map_congr_left (fun i hi => numSubPrims_preSplitItem0 (index_lt hindex hids.subperm hi))
  rw [primOffset1, PrefixSum.parallelPrefixSum_eq (by decide) (by decide)
    (by decide) c.threadCount_pos, hvalues, ← List.map_drop, ← List.map_drop]
  apply Prod.ext
  · have hscan := PrefixSum.serialScan_map (Nat.castAddMonoidHom (BitVec 32)) 0
      ((ids.drop (newCenter - c.center)).map c.further)
    rwa [map_zero] at hscan
  · rw [PrefixSum.serialScan_snd, zero_add, ← map_list_sum]
    rfl

def heads (c : Presplitting) (ids : List Nat) : List (PrimRef × Nat) := ids.map (fun i => (c.first i, i))

def tails (c : Presplitting) (ids : List Nat) : List (PrimRef × Nat) :=
  (ids.zip (c.offsets ids)).flatMap (fun j => (c.pieces j.1).tail.zipIdx (c.numPrimitives + j.2))

theorem slots_heads (ids : List Nat) : slots (c.heads ids) = ids := by
  rw [slots, heads, List.map_map]
  exact List.map_id _

theorem slots_tails (ids : List Nat) :
    slots (c.tails ids) = List.range' c.numPrimitives (c.offset ids) := by
  have htail : ∀ j : Nat × Nat, ((c.pieces j.1).tail.zipIdx (c.numPrimitives + j.2)).map Prod.snd =
      List.range' (c.numPrimitives + j.2) (c.further j.1) := by
    intro j
    rw [List.zipIdx_map_snd, List.length_tail]
    rfl
  rw [slots, tails, List.map_flatMap, List.flatMap_congr (fun j _ => htail j), offsets,
    PrefixSum.flatMap_range'_serialScan, Nat.add_zero]
  rfl

theorem map_fst_tails (ids : List Nat) :
    (c.tails ids).map Prod.fst = ids.flatMap (fun i => (c.pieces i).tail) := by
  have htail : ∀ j : Nat × Nat, ((c.pieces j.1).tail.zipIdx (c.numPrimitives + j.2)).map Prod.fst =
      (c.pieces j.1).tail := fun j => List.zipIdx_map_fst _ _
  have hfst : (ids.zip (c.offsets ids)).map Prod.fst = ids := List.map_fst_zip (length_offsets ids).ge
  conv_rhs => rw [← hfst, List.flatMap_map]
  rw [tails, List.map_flatMap, List.flatMap_congr (fun j _ => htail j)]

theorem stores_perm (ids : List Nat) :
    ((ids.zip (c.offsets ids)).flatMap (c.stores · c.prims)).Perm (c.heads ids ++ c.tails ids) := by
  have hfst : (ids.zip (c.offsets ids)).map Prod.fst = ids := List.map_fst_zip (length_offsets ids).ge
  have hheads : c.heads ids = (ids.zip (c.offsets ids)).flatMap (fun j => [(c.first j.1, j.1)]) := by
    rw [heads, ← List.map_eq_flatMap]
    conv_lhs => rw [← hfst, List.map_map]
    rfl
  rw [hheads, tails, List.flatMap_congr (fun j _ => stores_prims j)]
  exact (List.flatMap_append_perm _ (fun j : Nat × Nat => [(c.first j.1, j.1)]) _).symm

section chosen

variable {ids : List Nat} (hids : ids.Subperm c.candidates)
include hids

theorem nodup_chosen : ids.Nodup := by
  obtain ⟨l, hperm, hsub⟩ := hids
  exact hperm.nodup_iff.1 (hsub.nodup nodup_candidates)

theorem nodup_slots : (ids ++ List.range' c.numPrimitives (c.offset ids)).Nodup := by
  refine List.Nodup.append (nodup_chosen hids) List.nodup_range' ?_
  intro i hi hi'
  have hlt := (mem_candidates.1 (hids.subset hi)).1
  have hle := (List.mem_range'_1.1 hi').1
  omega

/-- Whatever the interleaving, and however the offsets wrap around, each iteration splits what its
primitive has been before the loop. -/
theorem trace_perm_of_index (hindex : c.numPrimitives ≤ 2 ^ 32) {offsets : List (BitVec 32)}
    {trace : List (PrimRef × Nat)}
    (h : Runs c.storeSubPrims c.prims
      (((ids.map (c.trialSplit ∘ c.preSplitItem0)).zip offsets).map .todo) trace)
    (hlength : ids.length ≤ offsets.length) :
    trace.Perm ((ids.zip offsets).flatMap (fun j =>
      c.storeSubPrims (c.trialSplit (c.preSplitItem0 j.1), j.2) c.prims)) := by
  have hslot : ∀ i ∈ ids, i < c.numPrimitives ∧ i < 2 ^ 32 := fun i hi =>
    ⟨(mem_candidates.1 (hids.subset hi)).1, index_lt hindex hids hi⟩
  have hzip : (ids.map (c.trialSplit ∘ c.preSplitItem0)).zip offsets =
      (ids.zip offsets).map (Prod.map (c.trialSplit ∘ c.preSplitItem0) id) := by
    rw [← List.zip_map, List.map_id]
  have hapart : (ids.zip offsets).Pairwise (fun j j' => j.1 ≠ j'.1) := by
    rw [← List.pairwise_map, List.map_fst_zip hlength]
    exact nodup_chosen hids
  rw [hzip] at h
  have hperm := h.perm_of_reads (fun j => [j.1.index.toNat]) ?_ ?_
  · rwa [List.flatMap_map] at hperm
  · intro j _ prims hprims
    rw [storeSubPrims, storeSubPrims, hprims _ (List.mem_singleton_self _)]
  · rw [List.pairwise_map]
    refine hapart.imp_of_mem (fun {j j'} hj hj' hne => ?_)
    obtain ⟨hlt, hword⟩ := hslot j.1 (List.of_mem_zip hj).1
    obtain ⟨hlt', hword'⟩ := hslot j'.1 (List.of_mem_zip hj').1
    have hfree : ∀ i i' : Nat, i < c.numPrimitives → i < 2 ^ 32 → i' < 2 ^ 32 → i ≠ i' → ∀ o,
        [(c.trialSplit (c.preSplitItem0 i)).index.toNat].Disjoint
          (slots (c.storeSubPrims (c.trialSplit (c.preSplitItem0 i'), o) c.prims)) := by
      intro i i' hlt hi hi' hne o
      have hread : (c.trialSplit (c.preSplitItem0 i)).index.toNat = i := c.index_preSplitItem0 hi
      rw [hread, slots_storeSubPrims hi', List.singleton_disjoint, List.mem_cons, List.mem_range'_1]
      omega
    exact ⟨hfree _ _ hlt hword hword' hne _, hfree _ _ hlt' hword' hword hne.symm _⟩

/-- Without a sum that wraps around, the loop makes the stores of the primitives. -/
theorem trace_perm (hindex : c.numPrimitives ≤ 2 ^ 32) (hoffset : c.offset ids < 2 ^ 32)
    {trace : List (PrimRef × Nat)}
    (h : Runs c.storeSubPrims c.prims
      (((ids.map (c.trialSplit ∘ c.preSplitItem0)).zip ((c.offsets ids).map Nat.cast)).map .todo)
        trace) : trace.Perm (c.heads ids ++ c.tails ids) := by
  have hstores : ∀ j ∈ ids.zip (c.offsets ids),
      c.storeSubPrims (c.trialSplit (c.preSplitItem0 j.1), (j.2 : BitVec 32)) c.prims =
        c.stores j c.prims := by
    intro j hj
    have hle : j.2 + c.further j.1 ≤ 0 + c.offset ids := PrefixSum.add_le_of_mem_zip_serialScan hj
    rw [storeSubPrims_eq (index_lt hindex hids (List.of_mem_zip hj).1) (by omega)]
  have hperm := trace_perm_of_index hids hindex h (by rw [List.length_map, length_offsets])
  rw [List.zip_map_right, List.flatMap_map] at hperm
  exact (hperm.trans (List.Perm.of_eq (List.flatMap_congr hstores))).trans (stores_perm ids)

/-- Even if an offset wraps around, nothing is stored behind the budget. -/
theorem trace_inside (hindex : c.numPrimitives ≤ 2 ^ 32)
    (hbudget : c.offset ids ≤ c.numSplitPrimitivesBudget) {trace : List (PrimRef × Nat)}
    (h : Runs c.storeSubPrims c.prims
      (((ids.map (c.trialSplit ∘ c.preSplitItem0)).zip ((c.offsets ids).map Nat.cast)).map .todo)
        trace) {s : Nat} (hs : s ∈ slots trace) : s < c.numPrimitivesExt := by
  have hroom : c.numPrimitives ≤ c.numPrimitivesExt := c.room
  have hperm := trace_perm_of_index hids hindex h (by rw [List.length_map, length_offsets])
  rw [List.zip_map_right, List.flatMap_map] at hperm
  simp only [Prod.map_fst, Prod.map_snd, id_eq] at hperm
  rw [slots, (hperm.map Prod.snd).mem_iff, List.map_flatMap, List.mem_flatMap] at hs
  obtain ⟨j, hj, hs⟩ := hs
  have hi := (List.of_mem_zip hj).1
  have hlt := (mem_candidates.1 (hids.subset hi)).1
  have hle : j.2 + c.further j.1 ≤ 0 + c.offset ids := PrefixSum.add_le_of_mem_zip_serialScan hj
  have hwrap : (j.2 : BitVec 32).toNat ≤ j.2 := Nat.mod_le _ _
  rw [numSplitPrimitivesBudget] at hbudget
  have hslots := c.slots_storeSubPrims (index_lt hindex hids hi) (j.2 : BitVec 32)
  rw [slots] at hslots
  rw [hslots, List.mem_cons, List.mem_range'_1] at hs
  rcases hs with rfl | hs
  · exact hlt.trans_le hroom
  · omega

theorem splits {chosen : List PresplitItem} {trace : List (PrimRef × Nat)} {pinfo : PrimInfo}
    (hbudget : c.offset ids ≤ c.numSplitPrimitivesBudget)
    (htrace : trace.Perm (c.heads ids ++ c.tails ids))
    (hsize : pinfo.size = c.numPrimitives + c.offset ids) :
    c.Splits ids ⟨chosen, trace, pinfo⟩ := by
  have hslots : (slots trace).Perm (ids ++ List.range' c.numPrimitives (c.offset ids)) := by
    have h := htrace.map Prod.snd
    rwa [List.map_append, ← slots, ← slots, ← slots, slots_heads, slots_tails] at h
  have hnodup : (slots trace).Nodup := hslots.nodup_iff.2 (nodup_slots hids)
  have hstored : ∀ w ∈ c.heads ids ++ c.tails ids, store c.prims trace w.2 = w.1 := fun w hw =>
    ParallelFor.store_of_nodup c.prims hnodup (htrace.mem_iff.2 hw)
  have hfirst : ∀ i ∈ ids, store c.prims trace i = c.first i := fun i hi =>
    hstored (c.first i, i) (List.mem_append_left _ (List.mem_map_of_mem hi))
  have hunchanged : ∀ i, i ∉ ids → (i < c.numPrimitives ∨ c.numPrimitives + c.offset ids ≤ i) →
      store c.prims trace i = c.prims i := by
    intro i hi hrange
    apply ParallelFor.store_of_notMem_slots
    rw [hslots.mem_iff, List.mem_append, List.mem_range'_1]
    rintro (h | h)
    · exact hi h
    · omega
  have hfurther : slice (store c.prims trace) c.numPrimitives (c.numPrimitives + c.offset ids) =
      ids.flatMap (fun i => (c.pieces i).tail) := by
    rw [slice, Nat.add_sub_cancel_left, ← slots_tails, ← map_fst_tails, slots, List.map_map]
    exact List.map_congr_left (fun w hw => hstored w (List.mem_append_right _ hw))
  refine ⟨nodup_chosen hids, fun i hi => mem_candidates.1 (hids.subset hi), ?_, hslots, ?_,
    hfurther, hunchanged, ?_, hsize⟩
  · have hroom : c.numPrimitives ≤ c.numPrimitivesExt := c.room
    rw [numSplitPrimitivesBudget] at hbudget
    omega
  · intro i hi
    rw [hfirst i hi, pieces_eq i]
    rfl
  · have hcover : (List.range c.numPrimitives).Perm
        ((List.range c.numPrimitives).filter (· ∉ ids) ++ ids) := by
      refine (List.filter_append_perm (· ∉ ids) _).symm.trans (List.Perm.append_left _ ?_)
      apply (List.perm_ext_iff_of_nodup (List.nodup_range.filter _) (nodup_chosen hids)).2
      intro i
      rw [List.mem_filter, List.mem_range]
      simp only [decide_not, Bool.not_not, decide_eq_true_eq, and_iff_right_iff_imp]
      exact fun hi => (mem_candidates.1 (hids.subset hi)).1
    have hothers : ((List.range c.numPrimitives).filter (· ∉ ids)).map (store c.prims trace) =
        ((List.range c.numPrimitives).filter (· ∉ ids)).map c.prims := by
      apply List.map_congr_left
      intro i hi
      rw [List.mem_filter, List.mem_range, decide_eq_true_eq] at hi
      exact hunchanged i hi.2 (Or.inl hi.1)
    have hpieces : (ids.map (store c.prims trace) ++ ids.flatMap (fun i => (c.pieces i).tail)).Perm
        (ids.flatMap c.pieces) := by
      rw [List.map_congr_left hfirst, List.map_eq_flatMap, List.flatMap_congr (fun i _ => pieces_eq i)]
      exact List.flatMap_append_perm _ (fun i => [c.first i]) _
    rw [← Segment.slice_append _ (Nat.zero_le c.numPrimitives) (Nat.le_add_right _ _), hfurther]
    have hslots' : (slice (store c.prims trace) 0 c.numPrimitives).Perm
        (((List.range c.numPrimitives).filter (· ∉ ids)).map c.prims ++
          ids.map (store c.prims trace)) := by
      rw [slice, Nat.sub_zero, ← List.range_eq_range', ← hothers, ← List.map_append]
      exact hcover.map _
    refine (hslots'.append_right _).trans ?_
    rw [List.append_assoc]
    exact hpieces.append_left _

end chosen

theorem eval_ofList (cut : Reduce.Tree PrimRef) :
    cut.eval PrimInfo.empty PrimInfo.ofList PrimInfo.merge = PrimInfo.ofList cut.items := by
  apply Reduce.Tree.eval_induct (P := fun items v => v = PrimInfo.ofList items)
  · rfl
  · exact fun _ => rfl
  · rintro l l' _ _ rfl rfl
    exact (PrimInfo.ofList_append l l').symm

/-- What a run returns counts the primitives of the slots that it regards as filled. -/
theorem size_eval {cut : Reduce.Tree PrimRef} {prims : Nat → PrimRef} {n : Nat}
    (hcut : cut.items = slice prims 0 n) :
    (cut.eval PrimInfo.empty PrimInfo.ofList PrimInfo.merge).size = n := by
  rw [eval_ofList, PrimInfo.size_ofList, hcut, Segment.length_slice, Nat.sub_zero]

/-- With all indices in a word every run ends, after the loop has split primitives whose further pieces
fit into the budget. -/
theorem Run.ends (hindex : c.numPrimitives ≤ 2 ^ 32) {r : Option PresplitResult} (h : c.Run r) :
    ∃ r' ids, r = some r' ∧ ids.Subperm c.candidates ∧ c.offset ids ≤ c.numSplitPrimitivesBudget ∧
      r'.pinfo.size = c.numPrimitives + (c.offset ids : BitVec 32).toNat ∧
      Runs c.storeSubPrims c.prims
        (((ids.map (c.trialSplit ∘ c.preSplitItem0)).zip ((c.offsets ids).map Nat.cast)).map .todo)
          r'.trace := by
  have hlength : c.candidates.length ≤ 2 ^ 32 := by
    rw [length_candidates]
    omega
  cases h with
  | nothingToSplit h =>
      refine ⟨_, [], rfl, List.nil_subperm, Nat.zero_le _, rfl, .done _ _ ?_⟩
      exact fun it hit => absurd hit List.not_mem_nil
  | underflow h t hshrink =>
      obtain ⟨ids, hids, hitems⟩ := t.exists_ids hlength
      obtain ⟨newCenter, hsome, -, -⟩ := t.newCenter_spec hindex hids hitems
      rw [hsome] at hshrink
      cases hshrink
  | split h t newCenter hshrink chosen hchosen trace hruns cut hcut =>
      obtain ⟨ids, hids, hitems⟩ := t.exists_ids hlength
      obtain ⟨newCenter', hsome, -, hle⟩ := t.newCenter_spec hindex hids hitems
      rw [hsome] at hshrink
      obtain rfl := Option.some.inj hshrink
      have hsub : (ids.drop (newCenter' - c.center)).Subperm c.candidates :=
        (List.drop_sublist _ _).subperm.trans hids.subperm
      rw [t.primOffset1_eq hindex hids hitems] at hruns hcut
      rw [hchosen, hitems, List.map_map, ← List.map_drop] at hruns
      exact ⟨_, ids.drop (newCenter' - c.center), rfl, hsub, hle, size_eval hcut, hruns⟩

theorem preserves_of_lt (hindex : c.numPrimitives ≤ 2 ^ 32)
    (hbudget : c.numSplitPrimitivesBudget < 2 ^ 32) :
    c.Preserves := by
  intro r hr
  obtain ⟨r', ids, rfl, hsub, hle, hsize, hruns⟩ := hr.ends hindex
  have htrace := trace_perm hsub hindex (hle.trans_lt hbudget) hruns
  refine ⟨r', ids, rfl, splits hsub hle htrace ?_⟩
  rw [hsize, BitVec.natCast_eq_ofNat, BitVec.toNat_ofNat, Nat.mod_eq_of_lt (hle.trans_lt hbudget)]

/-- Pre-splitting keeps the primitives and the budget, whenever its words hold the indices and the
offsets. -/
theorem presplit_preserves (c : Presplitting) (hindex : c.numPrimitives ≤ 2 ^ 32)
    (hbudget : c.numSplitPrimitivesBudget < 2 ^ 32) :
    c.Preserves ∧ ∀ splitter splitPos prim splitprims, 0 < splitprims →
      splitprims ≤ maxPresplitsPerPrimitive →
      1 ≤ (splitPrimitive splitter splitPos prim splitprims).length ∧
        (splitPrimitive splitter splitPos prim splitprims).length ≤ splitprims :=
  ⟨preserves_of_lt hindex hbudget, fun _ _ prim _ h _ => length_splitPrimitive prim h⟩

/-- With all indices in a word a run stays inside, even where its offsets wrap around. -/
theorem Run.inside (hindex : c.numPrimitives ≤ 2 ^ 32) {r : Option PresplitResult} (h : c.Run r) :
    ∃ r', r = some r' ∧ r'.pinfo.size ≤ c.numPrimitivesExt ∧
      ∀ i ∈ slots r'.trace, i < c.numPrimitivesExt := by
  obtain ⟨r', ids, rfl, hsub, hle, hsize, hruns⟩ := h.ends hindex
  refine ⟨r', rfl, ?_, fun i hi => trace_inside hsub hindex hle hruns hi⟩
  have hroom : c.numPrimitives ≤ c.numPrimitivesExt := c.room
  have hwrap : (c.offset ids : BitVec 32).toNat ≤ c.offset ids := Nat.mod_le _ _
  rw [numSplitPrimitivesBudget] at hle
  omega

theorem Run.pinfo_eq {r : PresplitResult} (h : c.Run (some r))
    (hpinfo : c.pinfo = PrimInfo.ofList (slice c.prims 0 c.pinfo.size)) :
    r.pinfo = PrimInfo.ofList (slice (store c.prims r.trace) 0 r.pinfo.size) := by
  cases h with
  | nothingToSplit h => exact hpinfo
  | split h t newCenter hshrink chosen hchosen trace hruns cut hcut =>
      simp only [size_eval hcut]
      rw [eval_ofList, hcut]

theorem nonempty_trial (c : Presplitting) : Nonempty c.Trial := by
  obtain ⟨items, hsorts⟩ := RadixSort.exists_sorts c.stdSort 1024 c.threadCount
    (slice c.partitioned.array c.center c.numPrimitives)
  exact ⟨⟨items, hsorts, .chunk items, rfl⟩⟩

theorem exists_run_of_newCenter (hlength : c.candidates.length ≤ 2 ^ 32)
    (hcenter : ∀ t : c.Trial, ∀ ids : List Nat, ids.Perm c.candidates →
      t.items = ids.map c.preSplitItem0 →
      t.newCenter = some c.center) {i : Nat} (hi : i ∈ c.candidates) :
    ∃ (r : PresplitResult) (ids : List Nat), c.Run (some r) ∧ ids.Perm c.candidates ∧
      (BitVec.ofNat 32 i).toNat ∈ slots r.trace ∧
      ∃ t : c.Trial, t.items = ids.map c.preSplitItem0 ∧
        r.pinfo.size = c.numPrimitives + (t.primOffset1 c.center).2.toNat := by
  obtain ⟨t⟩ := c.nonempty_trial
  obtain ⟨ids, hids, hitems⟩ := t.exists_ids hlength
  have hruns := @ParallelFor.runs_todo _ _ c.storeSubPrims c.prims
    (((t.items.map c.trialSplit).drop (c.center - c.center)).zip (t.primOffset1 c.center).1)
  have hlt : c.center < c.numPrimitives := by
    have hpos := List.length_pos_of_mem hi
    rw [length_candidates] at hpos
    omega
  refine ⟨_, ids, .split hlt t c.center (hcenter t ids hids hitems) _ rfl _ hruns (.chunk _) rfl,
    hids, ?_, t, hitems, size_eval rfl⟩
  apply hruns.mem_slots
  have hoffsets : (t.primOffset1 c.center).1.length =
      ((t.items.map c.trialSplit).drop (c.center - c.center)).length := by
    rw [Trial.primOffset1,
      PrefixSum.parallelPrefixSum_eq (by decide) (by decide) (by decide) c.threadCount_pos,
      PrefixSum.length_serialScan, List.length_drop, List.length_drop, List.length_map, List.length_map]
  have hmem : c.trialSplit (c.preSplitItem0 i) ∈
      (((t.items.map c.trialSplit).drop (c.center - c.center)).zip
        (t.primOffset1 c.center).1).map Prod.fst := by
    rw [List.map_fst_zip hoffsets.ge, Nat.sub_self, List.drop_zero, hitems]
    exact List.mem_map_of_mem (List.mem_map_of_mem (hids.mem_iff.2 hi))
  obtain ⟨j, hj, hji⟩ := List.mem_map.1 hmem
  refine ⟨.todo j, List.mem_map_of_mem hj, fun prims => ?_⟩
  obtain ⟨item, o⟩ := j
  obtain rfl : item = c.trialSplit (c.preSplitItem0 i) := hji
  exact index_mem_slots i o prims

theorem exists_run (c : Presplitting) : ∃ r, c.Run r := by
  by_cases h : c.center < c.numPrimitives
  · obtain ⟨t⟩ := c.nonempty_trial
    cases hshrink : t.newCenter with
    | none => exact ⟨none, .underflow h t hshrink⟩
    | some newCenter =>
        exact ⟨_, .split h t newCenter hshrink _ rfl _ (ParallelFor.runs_todo _ _) (.chunk _) rfl⟩
  · exact ⟨_, .nothingToSplit (Nat.le_of_not_lt h)⟩

def primAt (primID : Fin (2 ^ 32)) : PrimRef := ⟨NonemptyInterval.pure 0, 0, primID⟩

def doubling (n numPrimitivesExt : Nat) (room : n ≤ numPrimitivesExt)
    (splitLog : Nat → Fin (maxPresplitsPerPrimitiveLog + 1)) : Presplitting where
  func := .ofSplitter (fun _ _ _ => (primAt 1, primAt 1)) (fun _ => some (Fin.last 2, 0))
  stdSort := .mergeSort PresplitItem.data
  threadCount := 1
  threadCount_pos := Nat.one_pos
  prims _ := primAt 0
  numPrimitivesExt := numPrimitivesExt
  pinfo := .ofSize n
  room := room
  splitLog := splitLog

section doubling

variable {n numPrimitivesExt : Nat} {room : n ≤ numPrimitivesExt}
  {splitLog : Nat → Fin (maxPresplitsPerPrimitiveLog + 1)}

theorem length_split_doubling (prim : PrimRef) :
    ((doubling n numPrimitivesExt room splitLog).func.split prim 2).length = 2 := by
  change (splitPrimitive _ _ prim 2).length = 2
  rw [splitPrimitive_of_some rfl Nat.one_lt_two, splitPrimitive_one]
  rfl

theorem splitprims_doubling {i : Nat} (hi : splitLog i = 1) :
    (doubling n numPrimitivesExt room splitLog).splitprims i = 2 := by
  rw [splitprims]
  change 1#32 <<< (splitLog i).val = 2
  rw [hi]
  rfl

theorem numSubPrims_doubling {i : Nat} (hi : splitLog i = 1) :
    (doubling n numPrimitivesExt room splitLog).numSubPrims
      ((doubling n numPrimitivesExt room splitLog).preSplitItem0 i) = 1 := by
  rw [numSubPrims, preSplitItem0, splitprims_doubling hi]
  change BitVec.ofNat 32 ((doubling n numPrimitivesExt room splitLog).func.split _ 2).length - 1 = 1
  rw [length_split_doubling]
  rfl

theorem further_doubling {i : Nat} (hi : splitLog i = 1) :
    (doubling n numPrimitivesExt room splitLog).further i = 1 := by
  rw [further, pieces, splitprims_doubling hi]
  change ((doubling n numPrimitivesExt room splitLog).func.split _ 2).length - 1 = 1
  rw [length_split_doubling]

end doubling

def overBudget : Presplitting := doubling 4 6 (by decide) (fun i => if i = 0 then 0 else 1)

theorem presplit_preserves_doubling :
    overBudget.numSplitPrimitivesBudget < overBudget.offset overBudget.candidates ∧
      ∃ r ids, overBudget.Run (some r) ∧ overBudget.Splits ids r := by
  constructor
  · have hcandidates : overBudget.candidates = [1, 2, 3] := by decide
    have hone : ∀ i ∈ [1, 2, 3], overBudget.further i = 1 := by
      intro i hi
      apply further_doubling
      fin_cases hi <;> rfl
    rw [hcandidates, offset, List.map_congr_left hone]
    decide
  · obtain ⟨r, hr⟩ := overBudget.exists_run
    obtain ⟨r', ids, rfl, hsplits⟩ := (presplit_preserves overBudget (by decide) (by decide)).1 r hr
    exact ⟨r', ids, hr, hsplits⟩

def truncatedIndex : Presplitting :=
  doubling (2 ^ 32 + 1) (2 ^ 32 + 2) (by decide) (fun i => if i = 2 ^ 32 then 1 else 0)

def wrappedOffset : Presplitting := doubling (2 ^ 32) (2 ^ 33) (by decide) (fun _ => 1)

theorem splitLog_truncatedIndex {i : Nat} (hi : i ≠ 2 ^ 32) : truncatedIndex.splitLog i = 0 := if_neg hi

theorem candidates_truncatedIndex : truncatedIndex.candidates.Perm [2 ^ 32] := by
  apply (List.perm_ext_iff_of_nodup nodup_candidates (List.nodup_singleton _)).2
  intro i
  have hn : truncatedIndex.numPrimitives = 2 ^ 32 + 1 := rfl
  rw [mem_candidates, List.mem_singleton, hn]
  by_cases hi : i = 2 ^ 32
  · have htwo : truncatedIndex.splitprims i = 2 := splitprims_doubling (if_pos hi)
    rw [htwo, hi]
    decide
  · rw [toNat_splitprims, splitLog_truncatedIndex hi]
    exact iff_of_false (fun h => Nat.lt_irrefl 1 h.2) hi

/-- The last primitive's index is that of the first one, which gets split instead. -/
theorem not_preserves_truncatedIndex : ¬ truncatedIndex.Preserves := by
  intro h
  have hcandidates := candidates_truncatedIndex
  have hcenter : ∀ t : truncatedIndex.Trial, ∀ ids : List Nat, ids.Perm truncatedIndex.candidates →
      t.items = ids.map truncatedIndex.preSplitItem0 → t.newCenter = some truncatedIndex.center := by
    intro t ids hids hitems
    obtain rfl : ids = [2 ^ 32] := List.perm_singleton.1 (hids.trans hcandidates)
    have hone : truncatedIndex.numSubPrims (truncatedIndex.preSplitItem0 (2 ^ 32)) = 1 :=
      numSubPrims_doubling (if_pos rfl)
    have htotal : t.totalNumSubPrims = 1 := by
      rw [t.total_sum, hitems, List.map_map, List.map_singleton, Function.comp_apply, hone]
      rfl
    rw [Trial.newCenter, htotal]
    exact if_neg (by decide)
  obtain ⟨r, ids, hr, -, hzero, -⟩ :=
    exists_run_of_newCenter (by rw [hcandidates.length_eq]; decide) hcenter
    (hcandidates.mem_iff.2 (List.mem_singleton_self _))
  obtain ⟨r', ids', hr', hsplits⟩ := h (some r) hr
  obtain rfl := Option.some.inj hr'
  have hstored : 0 ∈ ids' ++ List.range' truncatedIndex.numPrimitives (truncatedIndex.offset ids') :=
    hsplits.stores.mem_iff.1 hzero
  rcases List.mem_append.1 hstored with hmem | hmem
  · have hsplit := (hsplits.chosen 0 hmem).2
    rw [toNat_splitprims, splitLog_truncatedIndex (by decide)] at hsplit
    exact Nat.lt_irrefl 1 hsplit
  · exact absurd (List.mem_range'_1.1 hmem).1 (by decide)

theorem mem_candidates_wrappedOffset {i : Nat} : i ∈ wrappedOffset.candidates ↔ i < 2 ^ 32 := by
  have htwo : wrappedOffset.splitprims i = 2 := splitprims_doubling rfl
  rw [mem_candidates, htwo]
  exact and_iff_left (by decide)

theorem offset_wrappedOffset (ids : List Nat) : wrappedOffset.offset ids = ids.length := by
  have hone : ids.map wrappedOffset.further = ids.map (fun _ => 1) :=
    List.map_congr_left (fun i _ => further_doubling rfl)
  rw [offset, hone, List.map_const', List.sum_replicate, Nat.nsmul_eq_mul, Nat.mul_one]

/-- The offset behind all sub-primitives wraps around to 0, so that the result does not count them. -/
theorem not_preserves_wrappedOffset : ¬ wrappedOffset.Preserves := by
  intro h
  have hlength : wrappedOffset.candidates.length = 2 ^ 32 := by
    have hperm : wrappedOffset.candidates.Perm (List.range (2 ^ 32)) := by
      apply (List.perm_ext_iff_of_nodup nodup_candidates List.nodup_range).2
      intro i
      rw [mem_candidates_wrappedOffset, List.mem_range]
    rw [hperm.length_eq, List.length_range]
  have hindex : wrappedOffset.numPrimitives ≤ 2 ^ 32 := le_rfl
  have hcenter : ∀ t : wrappedOffset.Trial, ∀ ids : List Nat, ids.Perm wrappedOffset.candidates →
      t.items = ids.map wrappedOffset.preSplitItem0 → t.newCenter = some wrappedOffset.center := by
    intro t ids hids hitems
    rw [Trial.newCenter, t.total_eq hindex hids hitems, offset_wrappedOffset, hids.length_eq, hlength]
    exact if_neg (by decide)
  obtain ⟨r, ids, hr, hids, hzero, t, hitems, hsize⟩ := exists_run_of_newCenter hlength.le hcenter
    (mem_candidates_wrappedOffset.2 (Nat.two_pow_pos 32))
  obtain ⟨r', ids', hr', hsplits⟩ := h (some r) hr
  obtain rfl := Option.some.inj hr'
  -- the offset that the prefix sum ends with
  have hwrap : (t.primOffset1 wrappedOffset.center).2 = 0 := by
    rw [t.primOffset1_eq hindex hids hitems, Nat.sub_self, List.drop_zero, offset_wrappedOffset,
      hids.length_eq, hlength]
    rfl
  rw [hwrap, hsplits.size_pinfo, offset_wrappedOffset] at hsize
  obtain rfl : ids' = [] := List.eq_nil_of_length_eq_zero (Nat.add_left_cancel hsize)
  exact absurd (hsplits.stores.mem_iff.1 hzero) (List.not_mem_nil)

/-- Neither the indices nor the offsets can be longer than a word. -/
theorem not_preserves : ¬ truncatedIndex.Preserves ∧ ¬ wrappedOffset.Preserves :=
  ⟨not_preserves_truncatedIndex, not_preserves_wrappedOffset⟩

end Presplitting

end RTBuild
