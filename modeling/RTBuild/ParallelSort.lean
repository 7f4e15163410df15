import RTBuild.Library.ParallelLoop
import RTBuild.Library.RadixSort

namespace RTBuild

open Library
open Library.Chunk (border border_zero border_last border_mono border_le store)
open Library.ParallelFor (slots)
open Library.ParallelLoop (Step Runs Tasks Outline)
open Library.RadixSort
  (StdSort digit digit_lt countItems copyItems bucketCount bucketOffset bucketSort places maxTasks)
open Library.Segment (slice)
open Relation

structure ParallelRadixSort (Ty : Type) where
  src : Nat → Ty
  tmp : Nat → Ty

namespace ParallelRadixSort

variable {Ty : Type}

def buckets : Nat := 1 <<< 8

abbrev RadixCount := Nat → Nat → BitVec 32

def setCount (threadIndex index : Nat) (count : BitVec 32) (radixCount : RadixCount) : RadixCount :=
  Function.update radixCount threadIndex (Function.update (radixCount threadIndex) index count)

structure Memory (Ty : Type) where
  dst : Nat → Ty
  radixCount : RadixCount

inductive Counting
  | clearing (i : Nat)
  | counting (i : Nat)

inductive Copying
  | starting
  | copying (i : Nat) (offset : Nat → BitVec 32)

section iteration

variable (key : Ty → BitVec 32) (shift : Nat) (src : Nat → Ty) (N threadCount : Nat)

def radixIteration0 : Tasks Counting RadixCount
  | threadIndex, .clearing i, radixCount =>
      if i < buckets then some (.clearing (i + 1), setCount threadIndex i 0 radixCount)
      else some (.counting (border N threadCount threadIndex), radixCount)
  | threadIndex, .counting i, radixCount =>
      if i < border N threadCount (threadIndex + 1) then
        let index := digit key shift (src i)
        some (.counting (i + 1),
          setCount threadIndex index (radixCount threadIndex index + 1) radixCount)
      else none

def addRows (radixCount : RadixCount) : Nat → (Nat → BitVec 32) → Nat → BitVec 32
  | 0, total => total
  | i + 1, total => fun j => addRows radixCount i total j + radixCount i j

def startOffset (radixCount : RadixCount) (threadIndex : Nat) : Nat → BitVec 32 :=
  addRows radixCount threadIndex (bucketOffset 32 (addRows radixCount threadCount (fun _ => 0)))

def radixIteration1 : Tasks Copying (Memory Ty)
  | threadIndex, .starting, m =>
      some (.copying (border N threadCount threadIndex)
        (startOffset threadCount m.radixCount threadIndex), m)
  | threadIndex, .copying i offset, m =>
      if i < border N threadCount (threadIndex + 1) then
        let elt := src i
        let index := digit key shift elt
        some (.copying (i + 1) (Function.update offset index (offset index + 1)),
          { m with dst := Function.update m.dst (offset index).toNat elt })
      else none

def RadixIteration (m m' : Memory Ty) : Prop :=
  ∃ radixCount, Runs (radixIteration0 key shift src N threadCount) threadCount
    (fun _ => .clearing 0) m.radixCount
      radixCount ∧
    Runs (radixIteration1 key shift src N threadCount) threadCount (fun _ => .starting)
      ⟨m.dst, radixCount⟩ m'

end iteration

/-- The runs of tbbRadixSort, whose counts are not initialized. -/
def TbbRadixSort (key : Ty → BitVec 32) (N numTasks : Nat) (b b' : ParallelRadixSort Ty) : Prop :=
  ∃ (radixCount : RadixCount) (m₁ m₂ m₃ m₄ : Memory Ty),
    RadixIteration key 0 b.src N numTasks ⟨b.tmp, radixCount⟩ m₁ ∧
    RadixIteration key 8 m₁.dst N numTasks ⟨b.src, m₁.radixCount⟩ m₂ ∧
    RadixIteration key 16 m₂.dst N numTasks ⟨m₁.dst, m₂.radixCount⟩ m₃ ∧
    RadixIteration key 24 m₃.dst N numTasks ⟨m₂.dst, m₃.radixCount⟩ m₄ ∧ b' = ⟨m₄.dst, m₃.dst⟩

def numTasks (N blockSize threadCount : Nat) : Nat :=
  min ((N + blockSize - 1) / blockSize) (min threadCount maxTasks)

inductive RadixSortU32 (key : Ty → BitVec 32) (stdSort : StdSort Ty (fun x y => key x < key y))
    (blockSize threadCount N : Nat) (b : ParallelRadixSort Ty) : ParallelRadixSort Ty → Prop
  | single (h : N ≤ blockSize) :
      RadixSortU32 key stdSort blockSize threadCount N b
        ⟨store b.src (stdSort.sort (slice b.src 0 N)).zipIdx, b.tmp⟩
  | parallel (h : blockSize < N) (b' : ParallelRadixSort Ty)
      (hsort : TbbRadixSort key N (numTasks N blockSize threadCount) b b') :
      RadixSortU32 key stdSort blockSize threadCount N b b'

section iteration

variable {key : Ty → BitVec 32} {shift : Nat} {src : Nat → Ty} {N n : Nat}

theorem radixIteration0_cases {t : Nat} {l l' : Counting} {radixCount radixCount' : RadixCount}
    (h : radixIteration0 key shift src N n t l radixCount = some (l', radixCount')) :
    (∃ i < buckets, l = .clearing i ∧ l' = .clearing (i + 1) ∧ radixCount' = setCount t i 0 radixCount) ∨
      (∃ i, buckets ≤ i ∧ l = .clearing i ∧ l' = .counting (border N n t) ∧ radixCount' = radixCount) ∨
      ∃ i < border N n (t + 1), l = .counting i ∧ l' = .counting (i + 1) ∧
        radixCount' = setCount t (digit key shift (src i))
          (radixCount t (digit key shift (src i)) + 1) radixCount := by
  cases l with
  | clearing i =>
      rw [radixIteration0] at h
      by_cases hi : i < buckets
      · rw [if_pos hi] at h
        obtain ⟨rfl, rfl⟩ := Prod.mk.inj (Option.some.inj h)
        exact Or.inl ⟨i, hi, rfl, rfl, rfl⟩
      · rw [if_neg hi] at h
        obtain ⟨rfl, rfl⟩ := Prod.mk.inj (Option.some.inj h)
        exact Or.inr (Or.inl ⟨i, Nat.le_of_not_lt hi, rfl, rfl, rfl⟩)
  | counting i =>
      rw [radixIteration0] at h
      by_cases hi : i < border N n (t + 1)
      · rw [if_pos hi] at h
        obtain ⟨rfl, rfl⟩ := Prod.mk.inj (Option.some.inj h)
        exact Or.inr (Or.inr ⟨i, hi, rfl, rfl, rfl⟩)
      · rw [if_neg hi] at h
        cases h

def rank0 (N n t : Nat) : Counting → Nat
  | .clearing i => buckets - i + 1 + (border N n (t + 1) - border N n t)
  | .counting i => border N n (t + 1) - i

theorem rank0_lt {t : Nat} {l l' : Counting} {radixCount radixCount' : RadixCount}
    (h : radixIteration0 key shift src N n t l radixCount = some (l', radixCount')) :
    rank0 N n t l' < rank0 N n t l := by
  rcases radixIteration0_cases h with ⟨i, hi, rfl, rfl, -⟩ | ⟨i, _, rfl, rfl, -⟩ | ⟨i, hi, rfl, rfl, -⟩
  · simp only [rank0]
    omega
  · simp only [rank0]
    omega
  · simp only [rank0]
    omega

theorem setCount_self (t index : Nat) (count : BitVec 32) (radixCount : RadixCount) :
    setCount t index count radixCount t = Function.update (radixCount t) index count :=
  Function.update_self ..

theorem setCount_of_ne {t u : Nat} (h : u ≠ t) (index : Nat) (count : BitVec 32)
    (radixCount : RadixCount) :
    setCount t index count radixCount u = radixCount u := Function.update_of_ne h ..

def Counted (key : Ty → BitVec 32) (shift : Nat) (src : Nat → Ty) (N n t : Nat) :
    Counting → RadixCount → Prop
  | .clearing i, radixCount => ∀ b < i, radixCount t b = 0
  | .counting i, radixCount =>
      border N n t ≤ i ∧ i ≤ border N n (t + 1) ∧
        ∀ b < buckets, radixCount t b =
          countItems (digit key shift) 32 (fun _ => 0) (slice src (border N n t) i) b

theorem countItems_succ (count : Nat → BitVec 32) {lo i : Nat} (h : lo ≤ i) :
    countItems (digit key shift) 32 count (slice src lo (i + 1)) =
      Function.update (countItems (digit key shift) 32 count (slice src lo i)) (digit key shift (src i))
        (countItems (digit key shift) 32 count (slice src lo i) (digit key shift (src i)) + 1) := by
  rw [Segment.slice_succ src h, RadixSort.countItems_append]
  rfl

theorem outline0 (key : Ty → BitVec 32) (shift : Nat) (src : Nat → Ty) (N n : Nat) :
    Outline (radixIteration0 key shift src N n) n (fun _ => True) (Counted key shift src N n) where
  shared := fun _ _ _ _ _ _ _ _ _ => trivial
  own := by
    intro t _ l radixCount l' radixCount' _ hown hnext
    rcases radixIteration0_cases hnext with
      ⟨i, _, rfl, rfl, rfl⟩ | ⟨i, hi, rfl, rfl, rfl⟩ | ⟨i, hi, rfl, rfl, rfl⟩
    · intro b hb
      rw [setCount_self]
      by_cases hbi : b = i
      · subst hbi
        exact Function.update_self ..
      · rw [Function.update_of_ne hbi]
        exact hown b (Nat.lt_of_le_of_ne (Nat.le_of_lt_succ hb) hbi)
    · refine ⟨le_rfl, border_mono N n (Nat.le_succ t), fun b hb => ?_⟩
      rw [Segment.slice_eq_nil src le_rfl]
      exact hown b (hb.trans_le hi)
    · obtain ⟨hlo, _, hcount⟩ := hown
      refine ⟨Nat.le_succ_of_le hlo, hi, fun b hb => ?_⟩
      rw [setCount_self, countItems_succ _ hlo]
      by_cases hbi : b = digit key shift (src i)
      · subst hbi
        rw [Function.update_self, Function.update_self, hcount _ hb]
      · rw [Function.update_of_ne hbi, Function.update_of_ne hbi, hcount b hb]
  other := by
    intro t _ l radixCount l' radixCount' _ _ hnext u _ hne k hother
    have hrow : radixCount' u = radixCount u := by
      rcases radixIteration0_cases hnext with
        ⟨i, _, _, _, rfl⟩ | ⟨i, _, _, _, rfl⟩ | ⟨i, _, _, _, rfl⟩
      · exact setCount_of_ne hne _ _ _
      · rfl
      · exact setCount_of_ne hne _ _ _
    cases k with
    | clearing i =>
        intro b hb
        rw [hrow]
        exact hother b hb
    | counting i =>
        obtain ⟨hlo, hhi, hcount⟩ := hother
        refine ⟨hlo, hhi, fun b hb => ?_⟩
        rw [hrow]
        exact hcount b hb

theorem radixCount_eq {radixCount radixCount' : RadixCount}
    (h : Runs (radixIteration0 key shift src N n) n (fun _ => .clearing 0) radixCount radixCount')
    {t : Nat} (ht : t < n) {b : Nat} (hb : b < buckets) :
    radixCount' t b =
      countItems (digit key shift) 32 (fun _ => 0)
      (slice src (border N n t) (border N n (t + 1))) b := by
  have hstart : ∀ t < n, Counted key shift src N n t (.clearing 0) radixCount :=
    fun _ _ _ hb => absurd hb (Nat.not_lt_zero _)
  obtain ⟨-, hended⟩ := (outline0 key shift src N n).runs trivial hstart h
  obtain ⟨l, hcounted, hnone⟩ := hended t ht
  cases l with
  | clearing i =>
      rw [radixIteration0] at hnone
      split at hnone <;> cases hnone
  | counting i =>
      obtain ⟨_, hhi, hcount⟩ := hcounted
      rw [radixIteration0] at hnone
      have hi : ¬ i < border N n (t + 1) := by
        intro hi
        rw [if_pos hi] at hnone
        cases hnone
      rw [hcount b hb, Nat.le_antisymm hhi (Nat.le_of_not_lt hi)]

def items (src : Nat → Ty) (N n t : Nat) : List Ty := slice src (border N n t) (border N n (t + 1))

theorem chunk_slice (src : Nat → Ty) {lo hi N : Nat} (hlo : lo ≤ hi) (hhi : hi ≤ N) :
    Chunk.slice (slice src 0 N) lo hi = slice src lo hi := by
  have hlength : (slice src 0 lo).length = lo := Segment.length_slice src 0 lo
  have hlength' : (slice src lo hi).length = hi - lo := Segment.length_slice src lo hi
  rw [Chunk.slice, ← Segment.slice_append src (Nat.zero_le lo) (hlo.trans hhi), List.drop_left' hlength,
    ← Segment.slice_append src hlo hhi, List.take_left' hlength']

theorem chunks_slice (src : Nat → Ty) (N n : Nat) :
    RadixSort.chunks (slice src 0 N) n = (List.range n).map (items src N n) := by
  rw [RadixSort.chunks, Segment.length_slice, Nat.sub_zero]
  apply List.map_congr_left
  intro t ht
  exact chunk_slice src (border_mono N n (Nat.le_succ t)) (border_le N (List.mem_range.1 ht))

theorem addRows_eq {radixCount : RadixCount} {chunks : List (List Ty)} {b : Nat}
    (h : ∀ t < chunks.length,
      radixCount t b = countItems (digit key shift) 32 (fun _ => 0) (chunks.getD t []) b)
    (total : Nat → BitVec 32) {t : Nat} (ht : t ≤ chunks.length) :
    addRows radixCount t total b = total b + bucketCount (digit key shift) 32 (chunks.take t) b := by
  induction t with
  | zero => exact (BitVec.add_zero _).symm
  | succ t ih =>
      have hlt : t < chunks.length := ht
      have htake : chunks.take (t + 1) = chunks.take t ++ [chunks.getD t []] := by
        rw [List.take_succ_eq_append_getElem hlt, List.getD_eq_getElem _ _ hlt]
      change addRows radixCount t total b + radixCount t b = _
      rw [ih hlt.le, h t hlt, htake, bucketCount, bucketCount, List.map_append, List.sum_append,
        List.map_singleton, List.sum_singleton, add_assoc]

def writes (key : Ty → BitVec 32) (shift : Nat) (src : Nat → Ty) (N n : Nat)
    (radixCount : RadixCount) (t : Nat) : List (Ty × Nat) :=
  copyItems (digit key shift) 32 (startOffset n radixCount t) (items src N n t)

/-- Which are those of the bucket sort, once all items have been counted. -/
theorem writes_eq {radixCount : RadixCount}
    (h : ∀ t < n, ∀ b < buckets,
      radixCount t b = countItems (digit key shift) 32 (fun _ => 0) (items src N n t) b) {t : Nat}
    (ht : t < n) :
    writes key shift src N n radixCount t =
      RadixSort.taskWrites (digit key shift) 32 (RadixSort.chunks (slice src 0 N) n) t := by
  have hlength : (RadixSort.chunks (slice src 0 N) n).length = n := RadixSort.length_chunks _ n
  have hget : ∀ u < n, (RadixSort.chunks (slice src 0 N) n).getD u [] = items src N n u := by
    intro u hu
    rw [chunks_slice, List.getD_eq_getElem?_getD, List.getElem?_map, List.getElem?_range hu]
    rfl
  have hrows : ∀ b < buckets, ∀ u < (RadixSort.chunks (slice src 0 N) n).length,
      radixCount u b =
        countItems (digit key shift) 32 (fun _ => 0)
          ((RadixSort.chunks (slice src 0 N) n).getD u []) b := by
    intro b hb u hu
    rw [hlength] at hu
    rw [hget u hu]
    exact h u hu b hb
  rw [writes, RadixSort.taskWrites, hget t ht]
  apply RadixSort.copyItems_congr (B := buckets) (fun x _ => digit_lt shift x)
  intro b hb
  rw [startOffset, addRows_eq (hrows b hb) _ (ht.le.trans hlength.ge)]
  congr 1
  apply RadixSort.bucketOffset_congr
  intro c hc
  rw [addRows_eq (hrows c (hc.trans hb)) _ hlength.ge, List.take_of_length_le hlength.le]
  exact BitVec.zero_add _

def positions (key : Ty → BitVec 32) (shift : Nat) (src : Nat → Ty) (N n : Nat)
    (radixCount : RadixCount) (t : Nat) : List Nat :=
  slots (writes key shift src N n radixCount t)

theorem radixIteration1_cases {t : Nat} {l l' : Copying} {m m' : Memory Ty}
    (h : radixIteration1 key shift src N n t l m = some (l', m')) :
    (l = .starting ∧ l' = .copying (border N n t) (startOffset n m.radixCount t) ∧ m' = m) ∨
      ∃ i offset, i < border N n (t + 1) ∧ l = .copying i offset ∧
        l' = .copying (i + 1)
          (Function.update offset (digit key shift (src i)) (offset (digit key shift (src i)) + 1)) ∧
        m' = { m with
          dst := Function.update m.dst (offset (digit key shift (src i))).toNat (src i) } := by
  cases l with
  | starting =>
      rw [radixIteration1] at h
      obtain ⟨rfl, rfl⟩ := Prod.mk.inj (Option.some.inj h)
      exact Or.inl ⟨rfl, rfl, rfl⟩
  | copying i offset =>
      rw [radixIteration1] at h
      by_cases hi : i < border N n (t + 1)
      · rw [if_pos hi] at h
        obtain ⟨rfl, rfl⟩ := Prod.mk.inj (Option.some.inj h)
        exact Or.inr ⟨i, offset, hi, rfl, rfl, rfl⟩
      · rw [if_neg hi] at h
        cases h

def rank1 (N n t : Nat) : Copying → Nat
  | .starting => border N n (t + 1) - border N n t + 1
  | .copying i _ => border N n (t + 1) - i

theorem rank1_lt {t : Nat} {l l' : Copying} {m m' : Memory Ty}
    (h : radixIteration1 key shift src N n t l m = some (l', m')) : rank1 N n t l' < rank1 N n t l := by
  rcases radixIteration1_cases h with ⟨rfl, rfl, -⟩ | ⟨i, offset, hi, rfl, rfl, -⟩
  · exact Nat.lt_succ_self _
  · simp only [rank1]
    omega

section positions

variable {radixCount : RadixCount}

def copied (key : Ty → BitVec 32) (shift : Nat) (src : Nat → Ty) (N n : Nat)
    (radixCount : RadixCount) (t i : Nat) : List (Ty × Nat) :=
  copyItems (digit key shift) 32 (startOffset n radixCount t) (slice src (border N n t) i)

def position (key : Ty → BitVec 32) (shift : Nat) (src : Nat → Ty) (N n : Nat)
    (radixCount : RadixCount) (t i : Nat) : Nat :=
  (countItems (digit key shift) 32 (startOffset n radixCount t) (slice src (border N n t) i)
    (digit key shift (src i))).toNat

theorem copied_succ {t i : Nat} (hlo : border N n t ≤ i) :
    copied key shift src N n radixCount t (i + 1) =
      copied key shift src N n radixCount t i ++
        [(src i, position key shift src N n radixCount t i)] := by
  rw [copied, Segment.slice_succ src hlo, RadixSort.copyItems_append]
  rfl

theorem copied_initial {t i : Nat} (hlo : border N n t ≤ i) (hhi : i ≤ border N n (t + 1)) :
    copied key shift src N n radixCount t i <+: writes key shift src N n radixCount t := by
  rw [writes, items, ← Segment.slice_append src hlo hhi, RadixSort.copyItems_append]
  exact List.prefix_append _ _

theorem length_copied (t i : Nat) :
    (copied key shift src N n radixCount t i).length = i - border N n t := by
  rw [copied, RadixSort.length_copyItems, Segment.length_slice]

section item

variable {t i : Nat} (hlo : border N n t ≤ i) (hi : i < border N n (t + 1))
include hlo hi

theorem mem_writes :
    (src i, position key shift src N n radixCount t i) ∈ writes key shift src N n radixCount t := by
  apply (copied_initial (Nat.le_succ_of_le hlo) hi).subset
  rw [copied_succ hlo]
  exact List.mem_append_right _ (List.mem_singleton_self _)

theorem getElem?_positions :
    (positions key shift src N n radixCount t)[i - border N n t]? =
      some (position key shift src N n radixCount t i) := by
  have hprefix :
      copied key shift src N n radixCount t (i + 1) <+: writes key shift src N n radixCount t :=
    copied_initial (Nat.le_succ_of_le hlo) hi
  obtain ⟨rest, hrest⟩ := hprefix
  rw [positions, slots, ← hrest, copied_succ hlo, List.append_assoc, List.getElem?_map,
    List.getElem?_append_right (length_copied t i).le, length_copied, Nat.sub_self]
  rfl

end item

structure Copies (radixCount : RadixCount) (N : Nat) (dst : Nat → Ty) (m : Memory Ty) : Prop where
  rows : m.radixCount = radixCount
  outside : ∀ i, N ≤ i → m.dst i = dst i

def Copied (key : Ty → BitVec 32) (shift : Nat) (src : Nat → Ty) (N n : Nat)
    (radixCount : RadixCount) (t : Nat) :
    Copying → Memory Ty → Prop
  | .starting, _ => True
  | .copying i offset, m =>
      border N n t ≤ i ∧ i ≤ border N n (t + 1) ∧
        offset = countItems (digit key shift) 32 (startOffset n radixCount t) (slice src
          (border N n t) i) ∧
        ∀ w ∈ copied key shift src N n radixCount t i, m.dst w.2 = w.1

variable (hcover : ((List.range n).flatMap (positions key shift src N n radixCount)).Perm (List.range N))
include hcover

theorem position_lt {t : Nat} (ht : t < n) {w : Ty × Nat}
    (hw : w ∈ writes key shift src N n radixCount t) : w.2 < N := by
  apply List.mem_range.1
  rw [← hcover.mem_iff]
  exact List.mem_flatMap.2 ⟨t, List.mem_range.2 ht, List.mem_map_of_mem hw⟩

theorem position_ne {t i : Nat} (ht : t < n) (hlo : border N n t ≤ i) (hi : i < border N n (t + 1))
    {w : Ty × Nat} (hw : w ∈ copied key shift src N n radixCount t i) :
    w.2 ≠ position key shift src N n radixCount t i := by
  have hnodup : (positions key shift src N n radixCount t).Nodup :=
    (List.nodup_flatMap.1 (hcover.nodup_iff.2 List.nodup_range)).1 t (List.mem_range.2 ht)
  have hprefix := ((copied_initial (Nat.le_succ_of_le hlo) hi).map Prod.snd).sublist.nodup hnodup
  rw [copied_succ hlo, List.map_append, List.nodup_append] at hprefix
  exact hprefix.2.2 _ (List.mem_map_of_mem hw) _ (List.mem_singleton_self _)

theorem position_ne_of_ne {t u : Nat} (ht : t < n) (hu : u < n) (hne : u ≠ t) {w w' : Ty × Nat}
    (hw : w ∈ writes key shift src N n radixCount t)
    (hw' : w' ∈ writes key shift src N n radixCount u) : w'.2 ≠ w.2 := by
  have hpairwise := (List.nodup_flatMap.1 (hcover.nodup_iff.2 List.nodup_range)).2
  have hsymm : Std.Symm (Function.onFun List.Disjoint (positions key shift src N n radixCount)) :=
    ⟨fun _ _ h => List.Disjoint.symm h⟩
  have hdisjoint := hpairwise.forall (List.mem_range.2 hu) (List.mem_range.2 ht) hne
  intro heq
  exact hdisjoint (List.mem_map_of_mem hw') (heq ▸ List.mem_map_of_mem hw)

theorem outline1 (dst : Nat → Ty) :
    Outline (radixIteration1 key shift src N n) n (Copies radixCount N dst)
      (Copied key shift src N n radixCount) where
  shared := by
    intro t ht l m l' m' hcopies hown hnext
    rcases radixIteration1_cases hnext with ⟨rfl, rfl, rfl⟩ | ⟨i, offset, hi, rfl, rfl, rfl⟩
    · exact hcopies
    · obtain ⟨hlo, _, rfl, _⟩ := hown
      refine ⟨hcopies.rows, fun j hj => ?_⟩
      have hne := ((position_lt hcover ht (mem_writes hlo hi)).trans_le hj).ne'
      exact (Function.update_of_ne hne _ _).trans (hcopies.outside j hj)
  own := by
    intro t ht l m l' m' hcopies hown hnext
    rcases radixIteration1_cases hnext with ⟨rfl, rfl, rfl⟩ | ⟨i, offset, hi, rfl, rfl, rfl⟩
    · refine ⟨le_rfl, border_mono N n (Nat.le_succ t), ?_, ?_⟩
      · rw [Segment.slice_eq_nil src le_rfl, hcopies.rows]
        rfl
      · rw [copied, Segment.slice_eq_nil src le_rfl]
        exact fun w hw => absurd hw List.not_mem_nil
    · obtain ⟨hlo, _, rfl, hcopied⟩ := hown
      refine ⟨Nat.le_succ_of_le hlo, hi, (countItems_succ _ hlo).symm, fun w hw => ?_⟩
      rw [copied_succ hlo, List.mem_append, List.mem_singleton] at hw
      rcases hw with hw | rfl
      · exact (Function.update_of_ne (position_ne hcover ht hlo hi hw) _ _).trans (hcopied w hw)
      · exact Function.update_self ..
  other := by
    intro t ht l m l' m' hcopies hown hnext u hu hne k hother
    rcases radixIteration1_cases hnext with ⟨rfl, rfl, rfl⟩ | ⟨i, offset, hi, rfl, rfl, rfl⟩
    · exact hother
    · obtain ⟨hlo, _, rfl, _⟩ := hown
      cases k with
      | starting => trivial
      | copying i' offset' =>
          obtain ⟨hlo', hhi', hoffset, hcopied⟩ := hother
          refine ⟨hlo', hhi', hoffset, fun w hw => ?_⟩
          have hw' := (copied_initial hlo' hhi').subset hw
          have hslot := position_ne_of_ne hcover ht hu hne (mem_writes hlo hi) hw'
          exact (Function.update_of_ne hslot _ _).trans (hcopied w hw)

end positions

section counted

variable {radixCount radixCount' : RadixCount}
  (h : Runs (radixIteration0 key shift src N n) n (fun _ => .clearing 0) radixCount radixCount')
  (hn : 0 < n) (hN : N ≤ 2 ^ 32)
include h hn hN

theorem flatMap_writes :
    (List.range n).flatMap (writes key shift src N n radixCount') =
      places (digit key shift) (RadixSort.start (digit key shift) (slice src 0 N)) (slice src 0 N) := by
  have hlength : (slice src 0 N).length ≤ 2 ^ 32 := by
    rw [Segment.length_slice]
    exact hN
  rw [← RadixSort.flatMap_taskWrites hn hlength]
  exact List.flatMap_congr
    (fun t ht => writes_eq (fun _ ht _ hb => radixCount_eq h ht hb) (List.mem_range.1 ht))

/-- The positions of the tasks are apart, and they are all positions. -/
theorem positions_cover :
    ((List.range n).flatMap (positions key shift src N n radixCount')).Perm (List.range N) := by
  have hslots : (List.range n).flatMap (positions key shift src N n radixCount') =
      slots ((List.range n).flatMap (writes key shift src N n radixCount')) := (List.map_flatMap ..).symm
  have hdigit : ∀ x ∈ slice src 0 N, digit key shift x < buckets := fun x _ => digit_lt shift x
  have hplaces := RadixSort.slots_places_start hdigit
  rw [Segment.length_slice, Nat.sub_zero] at hplaces
  rw [hslots, flatMap_writes h hn hN]
  exact hplaces

end counted

structure BucketSorted (key : Ty → BitVec 32) (shift : Nat) (src : Nat → Ty) (N : Nat)
    (m m' : Memory Ty) : Prop where
  sorted : slice m'.dst 0 N = bucketSort (digit key shift) buckets (slice src 0 N)
  outside : ∀ i, N ≤ i → m'.dst i = m.dst i

theorem RadixIteration.bucketSorted {m m' : Memory Ty} (h : RadixIteration key shift src N n m m')
    (hn : 0 < n) (hN : N ≤ 2 ^ 32) : BucketSorted key shift src N m m' := by
  obtain ⟨radixCount, hcount, hcopy⟩ := h
  have hcover := positions_cover hcount hn hN
  have hstart : ∀ t < n, Copied key shift src N n radixCount t .starting ⟨m.dst, radixCount⟩ :=
    fun _ _ => trivial
  have hmemory : Copies radixCount N m.dst ⟨m.dst, radixCount⟩ := ⟨rfl, fun _ _ => rfl⟩
  obtain ⟨hcopies, hended⟩ := (outline1 hcover m.dst).runs hmemory hstart hcopy
  refine ⟨?_, hcopies.outside⟩
  have hwrites : ∀ t < n, ∀ w ∈ writes key shift src N n radixCount t, m'.dst w.2 = w.1 := by
    intro t ht
    obtain ⟨l, hl, hnone⟩ := hended t ht
    cases l with
    | starting => cases hnone
    | copying i offset =>
        obtain ⟨_, hhi, _, hcopied⟩ := hl
        have hi : ¬ i < border N n (t + 1) := by
          intro hi
          rw [radixIteration1, if_pos hi] at hnone
          cases hnone
        obtain rfl : i = border N n (t + 1) := Nat.le_antisymm hhi (Nat.le_of_not_lt hi)
        exact hcopied
  have hdigit : ∀ x ∈ slice src 0 N, digit key shift x < buckets := fun x _ => digit_lt shift x
  have hplaces : ∀ w ∈ places (digit key shift) (RadixSort.start (digit key shift) (slice src 0 N))
      (slice src 0 N), m'.dst w.2 = w.1 := by
    intro w hw
    rw [← flatMap_writes hcount hn hN] at hw
    obtain ⟨t, ht, hw⟩ := List.mem_flatMap.1 hw
    exact hwrites t (List.mem_range.1 ht) w hw
  have hsorted := RadixSort.slice_eq_bucketSort hdigit hplaces
  rwa [Segment.length_slice, Nat.sub_zero] at hsorted

theorem exists_radixIteration (key : Ty → BitVec 32) (shift : Nat) (src : Nat → Ty) (N n : Nat)
    (m : Memory Ty) : ∃ m', RadixIteration key shift src N n m m' := by
  obtain ⟨radixCount, hcount⟩ :=
    @ParallelLoop.exists_runs _ _ (radixIteration0 key shift src N n) n (rank0 N n)
    (fun _ _ _ _ _ _ h => rank0_lt h) (fun _ => .clearing 0) m.radixCount
  obtain ⟨m', hcopy⟩ := @ParallelLoop.exists_runs _ _ (radixIteration1 key shift src N n) n (rank1 N n)
    (fun _ _ _ _ _ _ h => rank1_lt h) (fun _ => .starting) ⟨m.dst, radixCount⟩
  exact ⟨m', radixCount, hcount, hcopy⟩

/-- The tasks of an iteration share out all positions among them, and copy to these in order. -/
structure Positions (key : Ty → BitVec 32) (shift : Nat) (src : Nat → Ty) (N n : Nat)
    (radixCount : RadixCount) : Prop where
  cover : ((List.range n).flatMap (positions key shift src N n radixCount)).Perm (List.range N)
  taken : ∀ dst s,
    ReflTransGen (Step (radixIteration1 key shift src N n) n) (fun _ => .starting, ⟨dst, radixCount⟩) s →
    ∀ t < n, ∀ i offset, s.1 t = .copying i offset → i < border N n (t + 1) →
      (positions key shift src N n radixCount t)[i - border N n t]? =
        some (offset (digit key shift (src i))).toNat

theorem positions_of_counts {radixCount radixCount' : RadixCount}
    (h : Runs (radixIteration0 key shift src N n) n (fun _ => .clearing 0) radixCount radixCount')
    (hn : 0 < n) (hN : N ≤ 2 ^ 32) : Positions key shift src N n radixCount' := by
  have hcover := positions_cover h hn hN
  refine ⟨hcover, fun dst s hreach t ht i offset hs hi => ?_⟩
  have hstart : ∀ t < n, Copied key shift src N n radixCount' t .starting ⟨dst, radixCount'⟩ :=
    fun _ _ => trivial
  have hmemory : Copies radixCount' N dst ⟨dst, radixCount'⟩ := ⟨rfl, fun _ _ => rfl⟩
  have hcopied := ((outline1 hcover dst).reachable hmemory hstart hreach).2 t ht
  rw [hs] at hcopied
  obtain ⟨hlo, _, rfl, _⟩ := hcopied
  exact getElem?_positions hlo hi

end iteration

section sort

variable {key : Ty → BitVec 32} {N : Nat} {b b' : ParallelRadixSort Ty}

structure Sorted (key : Ty → BitVec 32) (N : Nat) (b b' : ParallelRadixSort Ty) : Prop where
  perm : (slice b'.src 0 N).Perm (slice b.src 0 N)
  ordered : (slice b'.src 0 N).Pairwise (fun x y => key x ≤ key y)
  outside : ∀ i, N ≤ i → b'.src i = b.src i ∧ b'.tmp i = b.tmp i

def Stable (key : Ty → BitVec 32) (N : Nat) (b b' : ParallelRadixSort Ty) : Prop :=
  ∀ k, (slice b'.src 0 N).filter (fun x => key x = k) = (slice b.src 0 N).filter (fun x => key x = k)

theorem TbbRadixSort.slice_eq {n : Nat} (h : TbbRadixSort key N n b b') (hn : 0 < n) (hN : N ≤ 2 ^ 32) :
    slice b'.src 0 N = RadixSort.radixSort key (slice b.src 0 N) ∧
      ∀ i, N ≤ i → b'.src i = b.src i ∧ b'.tmp i = b.tmp i := by
  obtain ⟨radixCount, m₁, m₂, m₃, m₄, h₁, h₂, h₃, h₄, rfl⟩ := h
  have s₁ := h₁.bucketSorted hn hN
  have s₂ := h₂.bucketSorted hn hN
  have s₃ := h₃.bucketSorted hn hN
  have s₄ := h₄.bucketSorted hn hN
  constructor
  · exact (s₄.sorted.trans
      (congrArg _ (s₃.sorted.trans (congrArg _ (s₂.sorted.trans (congrArg _ s₁.sorted))))))
  · intro i hi
    exact ⟨(s₄.outside i hi).trans (s₂.outside i hi), (s₃.outside i hi).trans (s₁.outside i hi)⟩

theorem exists_tbbRadixSort (key : Ty → BitVec 32) (N n : Nat) (b : ParallelRadixSort Ty) :
    ∃ b', TbbRadixSort key N n b b' := by
  obtain ⟨m₁, h₁⟩ := exists_radixIteration key 0 b.src N n ⟨b.tmp, fun _ _ => 0⟩
  obtain ⟨m₂, h₂⟩ := exists_radixIteration key 8 m₁.dst N n ⟨b.src, m₁.radixCount⟩
  obtain ⟨m₃, h₃⟩ := exists_radixIteration key 16 m₂.dst N n ⟨m₁.dst, m₂.radixCount⟩
  obtain ⟨m₄, h₄⟩ := exists_radixIteration key 24 m₃.dst N n ⟨m₂.dst, m₃.radixCount⟩
  exact ⟨_, _, m₁, m₂, m₃, m₄, h₁, h₂, h₃, h₄, rfl⟩

theorem numTasks_pos {blockSize threadCount : Nat} (hblock : 0 < blockSize) (hthreads : 0 < threadCount)
    (h : blockSize < N) : 0 < numTasks N blockSize threadCount := by
  have hblocks : 0 < (N + blockSize - 1) / blockSize := Nat.div_pos (by omega) hblock
  exact lt_min hblocks (lt_min hthreads (by decide))

theorem slice_store_zipIdx (a : Nat → Ty) {l : List Ty} (h : l.length = N) :
    slice (store a l.zipIdx) 0 N = l ∧ ∀ i, N ≤ i → store a l.zipIdx i = a i := by
  constructor
  · apply List.ext_getElem
    · rw [Segment.length_slice, h, Nat.sub_zero]
    · intro i hi hi'
      have hget : (slice (store a l.zipIdx) 0 N)[i] = store a l.zipIdx i := by simp [slice]
      have hstore := Chunk.store_zipIdx a (List.Perm.refl (l.zipIdx 0)) hi'
      rw [Nat.zero_add] at hstore
      exact hget.trans hstore
  · intro i hi
    apply Chunk.store_of_not_mem
    intro x hx
    have hlt := (List.mem_zipIdx hx).2.1
    omega

theorem RadixSortU32.single_spec (stdSort : StdSort Ty (fun x y => key x < key y))
    (b : ParallelRadixSort Ty) (N : Nat) :
    slice (store b.src (stdSort.sort (slice b.src 0 N)).zipIdx) 0 N = stdSort.sort (slice b.src 0 N) ∧
      ∀ i, N ≤ i → store b.src (stdSort.sort (slice b.src 0 N)).zipIdx i = b.src i := by
  apply slice_store_zipIdx
  rw [(stdSort.perm _).length_eq, Segment.length_slice, Nat.sub_zero]

theorem exists_radixSortU32 (key : Ty → BitVec 32) (stdSort : StdSort Ty (fun x y => key x < key y))
    (blockSize threadCount N : Nat) (b : ParallelRadixSort Ty) :
    ∃ b', RadixSortU32 key stdSort blockSize threadCount N b b' := by
  by_cases h : N ≤ blockSize
  · exact ⟨_, .single h⟩
  · obtain ⟨b', hsort⟩ := exists_tbbRadixSort key N (numTasks N blockSize threadCount) b
    exact ⟨b', .parallel (Nat.lt_of_not_le h) b' hsort⟩

/-- The sort ends, with the items in order in src, and what its iterations do to them. -/
theorem radixSortU32_sorts (key : Ty → BitVec 32) (stdSort : StdSort Ty (fun x y => key x < key y))
    {blockSize threadCount N : Nat} (hblock : 1 ≤ blockSize) (hthreads : 1 ≤ threadCount)
    (hN : N < 2 ^ 32) (b : ParallelRadixSort Ty) :
    (∃ b', RadixSortU32 key stdSort blockSize threadCount N b b') ∧
      (∀ b', RadixSortU32 key stdSort blockSize threadCount N b b' →
        Sorted key N b b' ∧ (blockSize < N → Stable key N b b')) ∧
      (∀ n shift src, (WellFounded fun s' s => Step (radixIteration0 key shift src N n) n s s') ∧
        WellFounded fun s' s => Step (radixIteration1 key shift src N n) n s s') ∧
      (blockSize < N → ∀ shift src,
        (∀ radixCount radixCount', Runs
          (radixIteration0 key shift src N (numTasks N blockSize threadCount))
            (numTasks N blockSize threadCount) (fun _ => .clearing 0) radixCount radixCount' →
          Positions key shift src N (numTasks N blockSize threadCount) radixCount') ∧
        ∀ m m', RadixIteration key shift src N (numTasks N blockSize threadCount) m m' →
          BucketSorted key shift src N m m') := by
  refine ⟨exists_radixSortU32 key stdSort blockSize threadCount N b, fun b' h => ?_,
    fun n shift src => ⟨?_, ?_⟩, fun h shift src => ⟨?_, ?_⟩⟩
  · cases h with
    | single h =>
        obtain ⟨hslice, houtside⟩ := RadixSortU32.single_spec stdSort b N
        refine ⟨⟨?_, ?_, fun i hi => ⟨houtside i hi, rfl⟩⟩, fun hlt => absurd hlt (Nat.not_lt.2 h)⟩
        · rw [hslice]
          exact stdSort.perm _
        · rw [hslice]
          exact (stdSort.ordered _).imp (fun hle => BitVec.not_lt.1 (of_decide_eq_false hle))
    | parallel h _ hsort =>
        obtain ⟨hslice, houtside⟩ := hsort.slice_eq (numTasks_pos hblock hthreads h) hN.le
        refine ⟨⟨?_, ?_, houtside⟩, fun _ k => ?_⟩
        · rw [hslice]
          exact RadixSort.radixSort_perm _
        · rw [hslice]
          exact RadixSort.pairwise_radixSort _
        · rw [hslice]
          exact RadixSort.filter_radixSort k _
  · exact ParallelLoop.wellFounded_step (rank0 N n) (fun _ _ _ _ _ _ h => rank0_lt h)
  · exact ParallelLoop.wellFounded_step (rank1 N n) (fun _ _ _ _ _ _ h => rank1_lt h)
  · exact fun _ _ hcount => positions_of_counts hcount (numTasks_pos hblock hthreads h) hN.le
  · exact fun _ _ hiteration => hiteration.bucketSorted (numTasks_pos hblock hthreads h) hN.le

/-- Numbers by their remainder, which two tasks sort. -/
theorem radixSortU32_sorts_remainders :
    ∃ b', RadixSortU32 (fun i : Nat => BitVec.ofNat 32 (i % 7)) (.mergeSort _) 1024 2 3000 ⟨id, id⟩ b' ∧
      Sorted (fun i : Nat => BitVec.ofNat 32 (i % 7)) 3000 ⟨id, id⟩ b' ∧
      Stable (fun i : Nat => BitVec.ofNat 32 (i % 7)) 3000 ⟨id, id⟩ b' := by
  obtain ⟨⟨b', hb'⟩, hsorts, -⟩ :=
    radixSortU32_sorts (fun i : Nat => BitVec.ofNat 32 (i % 7)) (.mergeSort _)
    (by decide : 1 ≤ 1024) (by decide : 1 ≤ 2) (by decide : 3000 < 2 ^ 32) ⟨id, id⟩
  exact ⟨b', hb', (hsorts b' hb').1, (hsorts b' hb').2 (by decide)⟩

/-- The sort of arrays is one of lists. -/
theorem RadixSortU32.sorts {stdSort : StdSort Ty (fun x y => key x < key y)}
    {blockSize threadCount : Nat} (h : RadixSortU32 key stdSort blockSize threadCount N b b')
    (hblock : 0 < blockSize) (hthreads : 0 < threadCount) (hN : N ≤ 2 ^ 32) :
    RadixSort.Sorts key stdSort blockSize threadCount (slice b.src 0 N) (slice b'.src 0 N) := by
  have hlength : (slice b.src 0 N).length = N := Segment.length_slice b.src 0 N
  cases h with
  | single h =>
      rw [RadixSort.Sorts, hlength, if_pos h]
      exact (RadixSortU32.single_spec stdSort b N).1
  | parallel h _ hsort =>
      have htasks := numTasks_pos hblock hthreads h
      have hnonempty : Nonempty Ty := ⟨b.src 0⟩
      obtain ⟨dst, hdst⟩ := RadixSort.exists_sorts stdSort blockSize threadCount (slice b.src 0 N)
      have hdst' := hdst
      rw [RadixSort.Sorts, hlength, if_neg (Nat.not_le.2 h)] at hdst'
      rw [(hsort.slice_eq htasks hN).1, ← hdst'.eq_radixSort htasks (hlength.trans_le hN)]
      exact hdst

end sort

end ParallelRadixSort

end RTBuild
