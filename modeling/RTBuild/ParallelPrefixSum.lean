import RTBuild.Library.ParallelLoop
import RTBuild.Library.PrefixSum
import RTBuild.Library.Segment

namespace RTBuild

open Library
open Library.Chunk (border border_zero border_last border_mono border_le)
open Library.ParallelLoop (Step Runs Tasks Outline)
open Library.Segment (slice slice_append length_slice)
open Relation

structure ParallelPrefixSumState (Value : Type) where
  counts : Nat → Value
  sums : Nat → Value

namespace ParallelPrefixSum

def maxTasks : Nat := 64

def minStepSize : Nat := 1024

structure Memory (Value : Type) where
  state : ParallelPrefixSumState Value
  dst : Nat → Value

inductive Variables (Value : Type)
  | looping (i : Nat) (s : Value)
  | ended

inductive Pass
  | initial
  | final

variable {Value : Type} [AddMonoid Value]

def storeSums (src : Nat → Value) : Nat → Nat → Value → (Nat → Value) → (Nat → Value) × Value
  | 0, _, sum, dst => (dst, sum)
  | n + 1, i, sum, dst => storeSums src n (i + 1) (sum + src i) (Function.update dst i sum)

def Pass.visit (pass : Pass) (taskIndex i : Nat) (s : Value) (m : Memory Value) : Memory Value :=
  match pass with
  | .initial => m
  | .final => { m with dst := Function.update m.dst i (m.state.sums taskIndex + s) }

def setCount (taskIndex : Nat) (s : Value) (m : Memory Value) : Memory Value :=
  { m with state := { m.state with counts := Function.update m.state.counts taskIndex s } }

section loop

variable (pass : Pass) (src : Nat → Value) (N taskCount : Nat)

def tasks : Tasks (Variables Value) (Memory Value)
  | taskIndex, .looping i s, m =>
      if i < border N taskCount (taskIndex + 1) then some (.looping (i + 1) (s + src i),
        pass.visit taskIndex i s m)
      else some (.ended, setCount taskIndex s m)
  | _, .ended, _ => none

def start (taskIndex : Nat) : Variables Value := .looping (border N taskCount taskIndex) 0

end loop

def taskCount (N threadCount : Nat) : Nat :=
  min threadCount (min ((N + minStepSize - 1) / minStepSize) maxTasks)

def finish (taskCount : Nat) (m : Memory Value) : Memory Value × Value :=
  let sums := storeSums m.state.counts taskCount 0 0 m.state.sums
  ({ m with state := { m.state with sums := sums.1 } }, sums.2)

def PassRuns (pass : Pass) (src : Nat → Value) (N count : Nat) (m : Memory Value)
    (r : Memory Value × Value) : Prop :=
  ∃ m', Runs (tasks pass src N count) count (start N count) m m' ∧ r = finish count m'

end ParallelPrefixSum

open ParallelPrefixSum

/-- The runs of parallel_prefix_sum, with the array that they leave and the value that they return.
Nothing initializes the state of the parallel path. -/
inductive ParallelPrefixSum {Value : Type} [AddMonoid Value] (src dst : Nat → Value)
    (N singleThreadThreshold threadCount : Nat) : (Nat → Value) × Value → Prop
  | single (h : N < singleThreadThreshold) :
      ParallelPrefixSum src dst N singleThreadThreshold threadCount (storeSums src N 0 0 dst)
  | parallel (h : singleThreadThreshold ≤ N) (state : ParallelPrefixSumState Value)
      (r₁ r₂ : Memory Value × Value)
      (hinitial : PassRuns .initial src N (taskCount N threadCount) ⟨state, dst⟩ r₁)
      (hfinal : PassRuns .final src N (taskCount N threadCount) r₁.1 r₂) :
      ParallelPrefixSum src dst N singleThreadThreshold threadCount (r₂.1.dst, r₂.2)

namespace ParallelPrefixSum

variable {Value : Type} [AddMonoid Value]

theorem sum_slice_append (src : Nat → Value) {lo mid hi : Nat} (hlo : lo ≤ mid) (hhi : mid ≤ hi) :
    (slice src lo mid).sum + (slice src mid hi).sum = (slice src lo hi).sum := by
  rw [← List.sum_append, slice_append src hlo hhi]

theorem sum_slice_succ (src : Nat → Value) {lo i : Nat} (h : lo ≤ i) :
    (slice src lo (i + 1)).sum = (slice src lo i).sum + src i := by
  rw [Segment.slice_succ src h, List.sum_append, List.sum_singleton]

theorem sum_slice_self (src : Nat → Value) (i : Nat) : (slice src i i).sum = 0 := by
  rw [Segment.slice_eq_nil src le_rfl, List.sum_nil]

theorem storeSums_snd (src : Nat → Value) (n i : Nat) (sum : Value) (dst : Nat → Value) :
    (storeSums src n i sum dst).2 = sum + (slice src i (i + n)).sum := by
  induction n generalizing i sum dst with
  | zero => exact (add_zero sum).symm.trans (congrArg (sum + ·) (sum_slice_self src i).symm)
  | succ n ih =>
      have hlt : i < i + (n + 1) := Nat.lt_add_of_pos_right n.succ_pos
      rw [storeSums, ih, Segment.slice_cons src hlt, List.sum_cons, add_assoc, Nat.add_right_comm]
      rfl

theorem storeSums_of_lt (src : Nat → Value) (n i : Nat) (sum : Value) (dst : Nat → Value) {j : Nat}
    (h : j < i) : (storeSums src n i sum dst).1 j = dst j := by
  induction n generalizing i sum dst with
  | zero => rfl
  | succ n ih => rw [storeSums, ih _ _ _ (Nat.lt_succ_of_lt h), Function.update_of_ne h.ne]

theorem storeSums_of_le (src : Nat → Value) (n i : Nat) (sum : Value) (dst : Nat → Value) {j : Nat}
    (h : i + n ≤ j) : (storeSums src n i sum dst).1 j = dst j := by
  induction n generalizing i sum dst with
  | zero => rfl
  | succ n ih =>
      have hne : j ≠ i := by omega
      rw [storeSums, ih _ _ _ (by omega), Function.update_of_ne hne]

theorem storeSums_fst (src : Nat → Value) (n i : Nat) (sum : Value) (dst : Nat → Value) {j : Nat}
    (hi : i ≤ j) (hj : j < i + n) :
    (storeSums src n i sum dst).1 j = sum + (slice src i j).sum := by
  induction n generalizing i sum dst with
  | zero => omega
  | succ n ih =>
      rw [storeSums]
      by_cases hij : i = j
      · subst hij
        rw [storeSums_of_lt _ _ _ _ _ (Nat.lt_succ_self i), Function.update_self,
          sum_slice_self, add_zero]
      · have hlt : i < j := Nat.lt_of_le_of_ne hi hij
        rw [ih _ _ _ hlt (by omega), Segment.slice_cons src hlt, List.sum_cons, add_assoc]

section loop

variable {pass : Pass} {src : Nat → Value} {N count : Nat}

theorem tasks_cases {t : Nat} {l l' : Variables Value} {m m' : Memory Value}
    (h : tasks pass src N count t l m = some (l', m')) :
    ∃ i s, l = .looping i s ∧
      ((i < border N count (t + 1) ∧ l' = .looping (i + 1) (s + src i) ∧ m' = pass.visit t i s m) ∨
        (border N count (t + 1) ≤ i ∧ l' = .ended ∧ m' = setCount t s m)) := by
  cases l with
  | looping i s =>
      refine ⟨i, s, rfl, ?_⟩
      rw [tasks] at h
      by_cases hi : i < border N count (t + 1)
      · rw [if_pos hi] at h
        obtain ⟨rfl, rfl⟩ := Prod.mk.inj (Option.some.inj h)
        exact Or.inl ⟨hi, rfl, rfl⟩
      · rw [if_neg hi] at h
        obtain ⟨rfl, rfl⟩ := Prod.mk.inj (Option.some.inj h)
        exact Or.inr ⟨Nat.le_of_not_lt hi, rfl, rfl⟩
  | ended => cases h

def rank (N count t : Nat) : Variables Value → Nat
  | .looping i _ => border N count (t + 1) - i + 1
  | .ended => 0

theorem rank_lt {t : Nat} {l l' : Variables Value} {m m' : Memory Value}
    (h : tasks pass src N count t l m = some (l', m')) : rank N count t l' < rank N count t l := by
  obtain ⟨i, s, rfl, ⟨hi, rfl, _⟩ | ⟨_, rfl, _⟩⟩ := tasks_cases h
  · simp only [rank]
    omega
  · exact Nat.succ_pos _

def Stored (pass : Pass) (src : Nat → Value) (sum : Value) (lo hi : Nat) (dst : Nat → Value) : Prop :=
  pass = .final → ∀ j, lo ≤ j → j < hi → dst j = sum + (slice src lo j).sum

/-- No task replaces the start sums, and only the final run stores to the destination. -/
structure Shared (pass : Pass) (N : Nat) (m₀ m : Memory Value) : Prop where
  sums : m.state.sums = m₀.state.sums
  outside : ∀ i, N ≤ i → m.dst i = m₀.dst i

def Own (pass : Pass) (src : Nat → Value) (N count : Nat) (m₀ : Memory Value) (t : Nat) :
    Variables Value → Memory Value → Prop
  | .looping i s, m =>
      border N count t ≤ i ∧ i ≤ border N count (t + 1) ∧ s = (slice src (border N count t) i).sum ∧
        Stored pass src (m₀.state.sums t) (border N count t) i m.dst
  | .ended, m =>
      m.state.counts t = (slice src (border N count t) (border N count (t + 1))).sum ∧
        Stored pass src (m₀.state.sums t) (border N count t) (border N count (t + 1)) m.dst

theorem visit_state (pass : Pass) (t i : Nat) (s : Value) (m : Memory Value) :
    (pass.visit t i s m).state = m.state := by
  cases pass <;> rfl

theorem visit_dst_of_ne (pass : Pass) (t : Nat) {i j : Nat} (h : j ≠ i) (s : Value) (m : Memory Value) :
    (pass.visit t i s m).dst j = m.dst j := by
  cases pass with
  | initial => rfl
  | final => exact Function.update_of_ne h _ _

theorem Stored.congr {sum : Value} {lo hi : Nat} {dst dst' : Nat → Value}
    (h : Stored pass src sum lo hi dst) (heq : ∀ j, lo ≤ j → j < hi → dst' j = dst j) :
    Stored pass src sum lo hi dst' :=
  fun hpass j hlo hhi => (heq j hlo hhi).trans (h hpass j hlo hhi)

theorem ne_of_border {t u i j : Nat} (hne : u ≠ t) (hi : border N count t ≤ i)
    (hi' : i < border N count (t + 1)) (hj : border N count u ≤ j)
    (hj' : j < border N count (u + 1)) : j ≠ i := by
  rintro rfl
  rcases Nat.lt_or_gt_of_ne hne with hlt | hlt
  · have hle : border N count (u + 1) ≤ border N count t := border_mono N count hlt
    exact (hj'.trans_le (hle.trans hi)).false
  · have hle : border N count (t + 1) ≤ border N count u := border_mono N count hlt
    exact (hi'.trans_le (hle.trans hj)).false

theorem border_succ_le {t : Nat} (ht : t < count) : border N count (t + 1) ≤ N := border_le N ht

theorem outline (pass : Pass) (src : Nat → Value) (N count : Nat) (m₀ : Memory Value) :
    Outline (tasks pass src N count) count (Shared pass N m₀) (Own pass src N count m₀) where
  shared := by
    intro t ht l m l' m' hshared hown hnext
    obtain ⟨i, s, rfl, ⟨hi, rfl, rfl⟩ | ⟨_, rfl, rfl⟩⟩ := tasks_cases hnext
    · constructor
      · rw [visit_state]
        exact hshared.sums
      · intro j hj
        have hne : j ≠ i := (hi.trans_le ((border_succ_le ht).trans hj)).ne'
        rw [visit_dst_of_ne pass t hne]
        exact hshared.outside j hj
    · exact ⟨hshared.sums, hshared.outside⟩
  own := by
    intro t ht l m l' m' hshared hown hnext
    obtain ⟨i, s, rfl, ⟨hi, rfl, rfl⟩ | ⟨hi, rfl, rfl⟩⟩ := tasks_cases hnext
    · obtain ⟨hlo, _, rfl, hstored⟩ := hown
      refine ⟨Nat.le_succ_of_le hlo, hi, (sum_slice_succ src hlo).symm, fun hpass j hj hj' => ?_⟩
      by_cases hji : j = i
      · subst hji hpass
        rw [← hshared.sums]
        exact Function.update_self _ _ _
      · rw [visit_dst_of_ne pass t hji]
        exact hstored hpass j hj (Nat.lt_of_le_of_ne (Nat.le_of_lt_succ hj') hji)
    · obtain ⟨_, hhi, rfl, hstored⟩ := hown
      obtain rfl : i = border N count (t + 1) := Nat.le_antisymm hhi hi
      exact ⟨Function.update_self _ _ _, hstored⟩
  other := by
    intro t ht l m l' m' hshared hown hnext u hu hne k hother
    obtain ⟨i, s, rfl, ⟨hi, rfl, rfl⟩ | ⟨_, rfl, rfl⟩⟩ := tasks_cases hnext
    · have hkeep : ∀ j, border N count u ≤ j → j < border N count (u + 1) →
          (pass.visit t i s m).dst j = m.dst j := fun j hj hj' =>
        visit_dst_of_ne pass t (ne_of_border hne hown.1 hi hj hj') s m
      cases k with
      | looping i' s' =>
          obtain ⟨hlo, hhi, hs, hstored⟩ := hother
          exact ⟨hlo, hhi, hs, hstored.congr (fun j hj hj' => hkeep j hj (hj'.trans_le hhi))⟩
      | ended =>
          obtain ⟨hcount, hstored⟩ := hother
          refine ⟨?_, hstored.congr hkeep⟩
          rw [visit_state]
          exact hcount
    · cases k with
      | looping i' s' => exact hother
      | ended => exact ⟨(Function.update_of_ne hne _ _).trans hother.1, hother.2⟩

theorem own_start (m₀ : Memory Value) (t : Nat) : Own pass src N count m₀ t (start N count t) m₀ := by
  refine ⟨le_rfl, border_mono N count (Nat.le_succ t), (sum_slice_self src _).symm, ?_⟩
  exact fun _ j hj hj' => absurd hj' (Nat.not_lt.2 hj)

/-- The sum of what the tasks before one count is the sum of everything before its range. -/
theorem sum_counts {counts : Nat → Value}
    (h : ∀ t < count, counts t = (slice src (border N count t) (border N count (t + 1))).sum)
    {t : Nat} (ht : t ≤ count) : (slice counts 0 t).sum = (slice src 0 (border N count t)).sum := by
  induction t with
  | zero => rw [border_zero, sum_slice_self, sum_slice_self]
  | succ t ih =>
      rw [sum_slice_succ counts (Nat.zero_le t), ih (Nat.le_of_succ_le ht), h t ht,
        sum_slice_append src (Nat.zero_le _) (border_mono N count (Nat.le_succ t))]

/-- What a run leaves: start sums that are those of the ranges, and the sum of everything. -/
theorem PassRuns.spec {m : Memory Value} {r : Memory Value × Value} (h : PassRuns pass src N count m r)
    (hcount : 0 < count) :
    r.2 = (slice src 0 N).sum ∧ (∀ t < count, r.1.state.sums t = (slice src 0 (border N count t)).sum) ∧
      (∀ i, N ≤ i → r.1.dst i = m.dst i) ∧
      ∀ t < count, Stored pass src (m.state.sums t) (border N count t) (border N count
        (t + 1)) r.1.dst := by
  obtain ⟨m', hruns, rfl⟩ := h
  obtain ⟨hshared, hended⟩ :=
    (outline pass src N count m).runs ⟨rfl, fun _ _ => rfl⟩ (fun t _ => own_start m t) hruns
  have hown : ∀ t < count, Own pass src N count m t .ended m' := by
    intro t ht
    obtain ⟨l, hl, hnone⟩ := hended t ht
    cases l with
    | looping i s =>
        rw [tasks] at hnone
        split at hnone <;> cases hnone
    | ended => exact hl
  have hcounts : ∀ t < count, m'.state.counts t =
      (slice src (border N count t) (border N count (t + 1))).sum :=
    fun t ht => (hown t ht).1
  refine ⟨?_, fun t ht => ?_, hshared.outside, fun t ht => (hown t ht).2⟩
  · rw [finish, storeSums_snd, zero_add, Nat.zero_add, sum_counts hcounts le_rfl, border_last N hcount]
  · change (storeSums m'.state.counts count 0 0 m'.state.sums).1 t = _
    rw [storeSums_fst _ _ _ _ _ (Nat.zero_le t) (by omega), zero_add, sum_counts hcounts ht.le]

theorem PassRuns.exists (pass : Pass) (src : Nat → Value) (N count : Nat) (m : Memory Value) :
    ∃ r, PassRuns pass src N count m r := by
  obtain ⟨m', hruns⟩ :=
    ParallelLoop.exists_runs (rank N count) (fun _ _ _ _ _ _ h => rank_lt h) (start N count) m
  exact ⟨_, m', hruns, rfl⟩

end loop

theorem taskCount_pos {N threadCount : Nat} (hN : 0 < N) (hthreads : 0 < threadCount) :
    0 < taskCount N threadCount := by
  have hblocks : 0 < (N + minStepSize - 1) / minStepSize := Nat.div_pos (by omega) (by decide)
  exact lt_min hthreads (lt_min hblocks (by decide))

structure PrefixSums (src dst : Nat → Value) (N : Nat) (r : (Nat → Value) × Value) : Prop where
  sums : ∀ i < N, r.1 i = (slice src 0 i).sum
  total : r.2 = (slice src 0 N).sum
  outside : ∀ i, N ≤ i → r.1 i = dst i

theorem storeSums_prefixSums (src dst : Nat → Value) (N : Nat) :
    PrefixSums src dst N (storeSums src N 0 0 dst) where
  sums i hi := by rw [storeSums_fst src N 0 0 dst (Nat.zero_le i) (by omega), zero_add]
  total := by rw [storeSums_snd, zero_add, Nat.zero_add]
  outside i hi := storeSums_of_le src N 0 0 dst (by omega)

theorem PrefixSums.unique {src dst : Nat → Value} {N : Nat} {r r' : (Nat → Value) × Value}
    (h : PrefixSums src dst N r) (h' : PrefixSums src dst N r') : r = r' := by
  apply Prod.ext
  · funext i
    by_cases hi : i < N
    · rw [h.sums i hi, h'.sums i hi]
    · rw [h.outside i (Nat.le_of_not_lt hi), h'.outside i (Nat.le_of_not_lt hi)]
  · rw [h.total, h'.total]

structure StartSums (src : Nat → Value) (N count : Nat) (m : Memory Value)
    (s : (Nat → Variables Value) × Memory Value) : Prop where
  kept : s.2.state.sums = m.state.sums
  start : ∀ t < count, s.2.state.sums t = (slice src 0 (border N count t)).sum

theorem prefixSums_of_run {src dst : Nat → Value} {N singleThreadThreshold threadCount : Nat}
    (hthreshold : 0 < singleThreadThreshold) (hthreads : 0 < threadCount) {r : (Nat → Value) × Value}
    (h : ParallelPrefixSum src dst N singleThreadThreshold threadCount r) : PrefixSums src dst N r := by
  cases h with
  | single h => exact storeSums_prefixSums src dst N
  | parallel h state r₁ r₂ hinitial hfinal =>
      have hcount := taskCount_pos (hthreshold.trans_le h) hthreads
      obtain ⟨_, hsums, houtside, _⟩ := hinitial.spec hcount
      obtain ⟨htotal, _, houtside', hstored⟩ := hfinal.spec hcount
      refine ⟨fun i hi => ?_, htotal, fun i hi => (houtside' i hi).trans (houtside i hi)⟩
      obtain ⟨t, ht, hlo, hhi⟩ := Chunk.exists_border hcount hi
      rw [← sum_slice_append src (Nat.zero_le _) hlo, ← hsums t ht]
      exact hstored t ht rfl i hlo hhi

theorem exists_run (src dst : Nat → Value) (N singleThreadThreshold threadCount : Nat) :
    ∃ r, ParallelPrefixSum src dst N singleThreadThreshold threadCount r := by
  by_cases h : N < singleThreadThreshold
  · exact ⟨_, .single h⟩
  · obtain ⟨r₁, h₁⟩ := PassRuns.exists .initial src N (taskCount N threadCount) ⟨⟨dst, dst⟩, dst⟩
    obtain ⟨r₂, h₂⟩ := PassRuns.exists .final src N (taskCount N threadCount) r₁.1
    exact ⟨_, .parallel (Nat.le_of_not_lt h) ⟨dst, dst⟩ r₁ r₂ h₁ h₂⟩

/-- Both paths end with the sums in order, and the tasks of the final run find their start sums. -/
theorem parallelPrefixSum_spec (src dst : Nat → Value) (N : Nat)
    {singleThreadThreshold threadCount : Nat} (hthreshold : 1 ≤ singleThreadThreshold)
    (hthreads : 1 ≤ threadCount) :
    (∃ r, ParallelPrefixSum src dst N singleThreadThreshold threadCount r) ∧
      (∀ r, ParallelPrefixSum src dst N singleThreadThreshold threadCount r →
        PrefixSums src dst N r ∧ r = storeSums src N 0 0 dst) ∧
      (∀ pass count, WellFounded (fun s' s => Step (tasks pass src N count) count s s')) ∧
      ∀ state r₁, singleThreadThreshold ≤ N →
        PassRuns .initial src N (taskCount N threadCount) ⟨state, dst⟩ r₁ →
        ∀ s, ReflTransGen (Step (tasks .final src N (taskCount N threadCount)) (taskCount N threadCount))
            (start N (taskCount N threadCount), r₁.1) s →
          StartSums src N (taskCount N threadCount) r₁.1 s := by
  refine ⟨exists_run src dst N singleThreadThreshold threadCount, fun r h => ?_,
    fun pass count => ?_, ?_⟩
  · have hsums := prefixSums_of_run hthreshold hthreads h
    exact ⟨hsums, hsums.unique (storeSums_prefixSums src dst N)⟩
  · exact ParallelLoop.wellFounded_step (rank N count) (fun _ _ _ _ _ _ h => rank_lt h)
  · intro state r₁ hN hinitial s hreach
    have hcount := taskCount_pos (lt_of_lt_of_le hthreshold hN) hthreads
    have hshared :=
      ((outline .final src N _ r₁.1).reachable ⟨rfl, fun _ _ => rfl⟩ (fun t _ => own_start r₁.1 t)
      hreach).1
    refine ⟨hshared.sums, fun t ht => ?_⟩
    rw [hshared.sums]
    exact (hinitial.spec hcount).2.1 t ht

/-- Letters that do not commute, over two tasks. -/
theorem parallelPrefixSum_spec_letters :
    ∃ r, ParallelPrefixSum FreeAddMonoid.of (fun _ => 0) 3000 1024 2 r ∧
      r.1 2 = FreeAddMonoid.of 0 + FreeAddMonoid.of 1 := by
  obtain ⟨⟨r, hr⟩, hsums, -⟩ :=
    parallelPrefixSum_spec FreeAddMonoid.of (fun _ => 0) 3000 (by decide : 1 ≤ 1024)
    (by decide : 1 ≤ 2)
  refine ⟨r, hr, ((hsums r hr).1.sums 2 (by decide)).trans ?_⟩
  exact congrArg (FreeAddMonoid.of 0 + ·) (add_zero _)

theorem slice_storeSums (src : Nat → Value) (n i : Nat) (sum : Value) (dst : Nat → Value) :
    slice (storeSums src n i sum dst).1 i (i + n) =
      (PrefixSum.serialScan sum (slice src i (i + n))).1 := by
  induction n generalizing i sum dst with
  | zero => rw [Nat.add_zero, Segment.slice_eq_nil _ le_rfl, Segment.slice_eq_nil _ le_rfl]; rfl
  | succ n ih =>
      have hlt : i < i + (n + 1) := Nat.lt_add_of_pos_right n.succ_pos
      have hnext : i + (n + 1) = i + 1 + n := Nat.add_right_comm i n 1
      have hfirst : (storeSums src (n + 1) i sum dst).1 i = sum := by
        rw [storeSums_fst _ _ _ _ _ le_rfl hlt, sum_slice_self, add_zero]
      rw [Segment.slice_cons _ hlt, Segment.slice_cons _ hlt, hfirst, hnext, storeSums, ih,
        PrefixSum.serialScan]

/-- The runs over arrays compute what the prefix sum of a list is. -/
theorem run_eq_prefixSum {src dst : Nat → Value} {N singleThreadThreshold threadCount : Nat}
    (hthreshold : 0 < singleThreadThreshold) (hthreads : 0 < threadCount) {r : (Nat → Value) × Value}
    (h : ParallelPrefixSum src dst N singleThreadThreshold threadCount r) :
    (slice r.1 0 N, r.2) =
      PrefixSum.parallelPrefixSum singleThreadThreshold minStepSize maxTasks threadCount
        (slice src 0 N) := by
  have hsums := prefixSums_of_run hthreshold hthreads h
  rw [PrefixSum.parallelPrefixSum_eq hthreshold (by decide) (by decide) hthreads]
  apply Prod.ext
  · have hslice := slice_storeSums src N 0 0 dst
    rw [Nat.zero_add] at hslice
    rw [hsums.unique (storeSums_prefixSums src dst N)]
    exact hslice
  · rw [PrefixSum.serialScan_snd, zero_add]
    exact hsums.total

end ParallelPrefixSum

end RTBuild
