import RTBuild.Library.Chunk

namespace RTBuild.Library.PrefixSum

open Library.Chunk (border slice borders_flatten)

variable {V : Type} [AddMonoid V]

def serialScan : V → List V → List V × V
  | sum, [] => ([], sum)
  | sum, x :: src =>
      let r := serialScan (sum + x) src
      (sum :: r.1, r.2)

/-- The loop of a task, whose own sum starts from s, behind a sum of everything before its range. -/
def scanTask (sum : V) : V → List V → List V × V
  | s, [] => ([], s)
  | s, x :: src =>
      let r := scanTask sum (s + x) src
      ((sum + s) :: r.1, r.2)

def scanTasks (chunks : List (List V)) : List V × V :=
  let sums := (serialScan 0 (chunks.map (fun chunk => chunk.foldl (· + ·) 0))).1
  let runs := List.zipWith (fun sum chunk => scanTask sum 0 chunk) sums chunks
  (runs.flatMap Prod.fst, (serialScan 0 (runs.map Prod.snd)).2)

def parallelPrefixSum (threshold minStepSize maxTasks numThreads : Nat) (src : List V) : List V × V :=
  if src.length < threshold then serialScan 0 src
  else
    let taskCount := min numThreads (min ((src.length + minStepSize - 1) / minStepSize) maxTasks)
    scanTasks ((List.range taskCount).map (fun i =>
      slice src (border src.length taskCount i) (border src.length taskCount (i + 1))))

theorem serialScan_snd (sum : V) (src : List V) : (serialScan sum src).2 = sum + src.sum := by
  induction src generalizing sum with
  | nil => exact (add_zero sum).symm
  | cons x src ih =>
      rw [serialScan, ih, List.sum_cons, add_assoc]

theorem serialScan_append (sum : V) (src src' : List V) :
    serialScan sum (src ++ src') =
      ((serialScan sum src).1 ++ (serialScan (sum + src.sum) src').1,
        (serialScan (sum + src.sum) src').2) := by
  induction src generalizing sum with
  | nil => rw [List.sum_nil, add_zero]; rfl
  | cons x src ih =>
      rw [List.cons_append, serialScan, ih, serialScan, List.sum_cons, add_assoc]
      rfl

theorem length_serialScan (sum : V) (src : List V) : (serialScan sum src).1.length = src.length := by
  induction src generalizing sum with
  | nil => rfl
  | cons x src ih => exact congrArg (· + 1) (ih _)

theorem serialScan_map {W : Type} [AddMonoid W] (f : V →+ W) (sum : V) (src : List V) :
    (serialScan (f sum) (src.map f)).1 = (serialScan sum src).1.map f := by
  induction src generalizing sum with
  | nil => rfl
  | cons x src ih =>
      rw [List.map_cons, serialScan, serialScan, List.map_cons, ← map_add, ih]

theorem flatMap_range'_serialScan {ι : Type} (f : ι → Nat) (l : List ι) (base sum : Nat) :
    (l.zip (serialScan sum (l.map f)).1).flatMap (fun p => List.range' (base + p.2) (f p.1)) =
      List.range' (base + sum) (l.map f).sum := by
  induction l generalizing sum with
  | nil => rfl
  | cons i l ih =>
      rw [List.map_cons, serialScan, List.zip_cons_cons, List.flatMap_cons, ih, List.sum_cons,
        ← Nat.add_assoc, List.range'_append_1]

/-- No value ends behind the sum of all. -/
theorem add_le_of_mem_zip_serialScan {ι : Type} {f : ι → Nat} {l : List ι} {sum : Nat} {p : ι × Nat}
    (h : p ∈ l.zip (serialScan sum (l.map f)).1) : p.2 + f p.1 ≤ sum + (l.map f).sum := by
  induction l generalizing sum with
  | nil => exact absurd h List.not_mem_nil
  | cons i l ih =>
      rw [List.map_cons, serialScan, List.zip_cons_cons, List.mem_cons] at h
      rw [List.map_cons, List.sum_cons, ← Nat.add_assoc]
      rcases h with rfl | h
      · exact Nat.le_add_right _ _
      · exact ih h

theorem scanTask_eq (sum s : V) (src : List V) :
    scanTask sum s src = ((serialScan (sum + s) src).1, s + src.sum) := by
  induction src generalizing s with
  | nil => rw [List.sum_nil, add_zero]; rfl
  | cons x src ih =>
      rw [scanTask, ih, serialScan, List.sum_cons, add_assoc, add_assoc]

theorem foldl_eq_sum (chunk : List V) : chunk.foldl (· + ·) 0 = chunk.sum := List.sum_eq_foldl.symm

/-- The tasks store what the loop over all values stores. -/
theorem zipWith_scanTask (sum : V) (chunks : List (List V)) :
    (List.zipWith (fun sum chunk => scanTask sum 0 chunk)
      (serialScan sum (chunks.map List.sum)).1 chunks).flatMap Prod.fst =
      (serialScan sum chunks.flatten).1 := by
  induction chunks generalizing sum with
  | nil => rfl
  | cons chunk chunks ih =>
      rw [List.map_cons, serialScan, List.zipWith_cons_cons, List.flatMap_cons, ih,
        scanTask_eq, add_zero, List.flatten_cons, serialScan_append]

theorem zipWith_scanTask_snd (sums : List V) (chunks : List (List V)) (h : sums.length = chunks.length) :
    (List.zipWith (fun sum chunk => scanTask sum 0 chunk) sums chunks).map Prod.snd =
      chunks.map List.sum := by
  induction chunks generalizing sums with
  | nil => rw [List.zipWith_nil_right]; rfl
  | cons chunk chunks ih =>
      cases sums with
      | nil => cases h
      | cons sum sums =>
          rw [List.zipWith_cons_cons, List.map_cons, List.map_cons, ih sums (Nat.succ.inj h),
            scanTask_eq, zero_add]

theorem scanTasks_eq (chunks : List (List V)) : scanTasks chunks = serialScan 0 chunks.flatten := by
  have hcounts : chunks.map (fun chunk => chunk.foldl (· + ·) 0) = chunks.map List.sum :=
    List.map_congr_left (fun chunk _ => foldl_eq_sum chunk)
  rw [scanTasks, hcounts]
  apply Prod.ext
  · exact zipWith_scanTask 0 chunks
  · rw [zipWith_scanTask_snd _ _ ((length_serialScan _ _).trans (List.length_map _)),
      serialScan_snd, serialScan_snd, List.sum_flatten]

theorem parallelPrefixSum_eq {threshold minStepSize maxTasks numThreads : Nat}
    (hthreshold : 0 < threshold) (hstep : 0 < minStepSize) (hmax : 0 < maxTasks)
    (hthreads : 0 < numThreads) (src : List V) :
    parallelPrefixSum threshold minStepSize maxTasks numThreads src = serialScan 0 src := by
  rw [parallelPrefixSum]
  split
  · rfl
  · have hblocks : 0 < (src.length + minStepSize - 1) / minStepSize := Nat.div_pos (by omega) hstep
    rw [scanTasks_eq, borders_flatten src (by omega)]

end RTBuild.Library.PrefixSum
