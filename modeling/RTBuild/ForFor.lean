import RTBuild.Library.Chunk

namespace RTBuild.ForFor

open Library.Chunk

def maxTasks : Nat := 64

def taskCount (n minStepSize numThreads : Nat) : Nat :=
  let numBlocks := (n + minStepSize - 1) / minStepSize
  max 1 (min numThreads (min numBlocks maxTasks))

structure Init where
  k : Nat
  k0 : Nat
  starts : List (Nat × Nat)
  deriving DecidableEq, Repr

/-- The inner while loop over array i of size m, with the number of tasks still
to be placed. It also returns the position j that it stops at. -/
def placeTasks (n count i m : Nat) : Nat → Init → Nat → Init × Nat
  | 0, s, j => (s, j)
  | todo + 1, s, j =>
      if j < m ∧ s.k0 ≤ s.k + m - j then
        let j := j + (s.k0 - s.k)
        let starts := s.starts ++ [(i, j)]
        placeTasks n count i m todo ⟨s.k0, border n count starts.length, starts⟩ j
      else (s, j)

def placeAll (n count : Nat) : Nat → List Nat → Init → Option (List (Nat × Nat))
  | _, [], s => if s.starts.length < count then none else some s.starts
  | i, m :: sizes, s =>
      if s.starts.length < count then
        let (s', j) := placeTasks n count i m (count - s.starts.length) s 0
        placeAll n count (i + 1) sizes { s' with k := s'.k + (m - j) }
      else some s.starts

structure State where
  sizes : List Nat
  taskCount : Nat
  starts : List (Nat × Nat)
  deriving DecidableEq, Repr

def State.size (s : State) : Nat := s.sizes.sum

def init (sizes : List Nat) (minStepSize numThreads : Nat) : Option State :=
  let n := sizes.sum
  let count := taskCount n minStepSize numThreads
  (placeAll n count 0 sizes ⟨0, border n count 1, [(0, 0)]⟩).map (fun starts => ⟨sizes, count, starts⟩)

/-- A call of func: elements [r0,r1) of array i, the first of which has number k overall. -/
structure Segment where
  i : Nat
  r0 : Nat
  r1 : Nat
  k : Nat
  deriving DecidableEq, Repr

/-- The loop over the arrays that both passes make for a task, from array i on.
It has no value when it runs past the last array. -/
def walk (k1 : Nat) : List Nat → Nat → Nat → Nat → Option (List Segment)
  | [], _, _, k => if k < k1 then none else some []
  | size :: sizes, i, r0, k =>
      if k < k1 then
        let r1 := min size (r0 + k1 - k)
        let rest := walk k1 sizes (i + 1) 0 (k + (r1 - r0))
        if r0 < r1 then rest.map (⟨i, r0, r1, k⟩ :: ·) else rest
      else some []

def State.border (s : State) (taskIndex : Nat) : Nat := Library.Chunk.border s.size s.taskCount taskIndex

def State.walkTask (s : State) (taskIndex : Nat) : Option (List Segment) :=
  s.starts[taskIndex]?.bind
    (fun start => walk (s.border (taskIndex + 1)) (s.sizes.drop start.1) start.1 start.2
      (s.border taskIndex))

def State.tasks (s : State) : Option (List (List Segment)) := (List.range s.taskCount).mapM s.walkTask

def Segment.items (seg : Segment) : List (Nat × Nat) :=
  (List.range' seg.r0 (seg.r1 - seg.r0)).map (fun j => (seg.i, j))

def items : Nat → List Nat → List (Nat × Nat)
  | _, [] => []
  | i, size :: sizes => (List.range' 0 size).map (fun j => (i, j)) ++ items (i + 1) sizes

@[simp] theorem length_items (i : Nat) (sizes : List Nat) : (items i sizes).length = sizes.sum := by
  induction sizes generalizing i with
  | nil => rfl
  | cons size sizes ih => simp [items, ih]

theorem taskCount_pos (n minStepSize numThreads : Nat) : 0 < taskCount n minStepSize numThreads :=
  Nat.le_max_left ..

def StartAt (sizes : List Nat) (start : Nat × Nat) (k : Nat) : Prop :=
  start.2 ≤ (sizes.drop start.1).headD 0 ∧ (sizes.take start.1).sum + start.2 = k

structure Placed (sizes : List Nat) (count : Nat) (s : Init) : Prop where
  length_pos : 0 < s.starts.length
  length_le : s.starts.length ≤ count
  k0_eq : s.k0 = border sizes.sum count s.starts.length
  k_le : s.k ≤ s.k0
  start_at : ∀ t start, s.starts[t]? = some start → StartAt sizes start (border sizes.sum count t)

theorem placeTasks_spec {sizes : List Nat} {count i m j : Nat} {s : Init} (todo : Nat)
    (h : Placed sizes count s) (hm : (sizes.drop i).headD 0 = m) (hk : (sizes.take i).sum + j = s.k)
    (hj : j ≤ m) (htodo : s.starts.length + todo = count) :
    Placed sizes count (placeTasks sizes.sum count i m todo s j).1 ∧
      (sizes.take i).sum + (placeTasks sizes.sum count i m todo s j).2 =
        (placeTasks sizes.sum count i m todo s j).1.k ∧
      (placeTasks sizes.sum count i m todo s j).2 ≤ m ∧
      ((placeTasks sizes.sum count i m todo s j).1.starts.length < count →
        (sizes.take i).sum + m ≤ (placeTasks sizes.sum count i m todo s j).1.k0) := by
  induction todo generalizing s j with
  | zero => exact ⟨h, hk, hj, fun hlt => by simp only [placeTasks] at hlt; omega⟩
  | succ todo ih =>
      rw [placeTasks]
      split
      · rename_i hfits
        have hkle := h.k_le
        refine ih ?_ ?_ ?_ ?_
        · refine ⟨by simp, ?_, rfl, ?_, ?_⟩
          · simp only [List.length_append, List.length_singleton]
            omega
          · rw [h.k0_eq]
            exact border_mono _ _ (by simp)
          · intro t start hstart
            rcases Nat.lt_or_ge t s.starts.length with ht | ht
            · rw [List.getElem?_append_left ht] at hstart
              exact h.start_at t start hstart
            · rw [List.getElem?_append_right ht] at hstart
              have ht' : t = s.starts.length := by
                by_contra hne
                rw [List.getElem?_eq_none (by simp; omega)] at hstart
                exact nomatch hstart
              subst ht'
              simp only [Nat.sub_self, List.getElem?_cons_zero, Option.some.injEq] at hstart
              subst hstart
              refine ⟨by simp only [hm]; omega, ?_⟩
              rw [← h.k0_eq]
              simp only
              omega
        · simp only
          omega
        · omega
        · simp only [List.length_append, List.length_singleton]
          omega
      · rename_i hfits
        refine ⟨h, hk, hj, fun hlt => ?_⟩
        have hkle := h.k_le
        simp only
        omega

theorem sum_take_le (sizes : List Nat) (i : Nat) : (sizes.take i).sum ≤ sizes.sum := by
  have h := congrArg List.sum (List.take_append_drop i sizes)
  rw [List.sum_append] at h
  omega

theorem placeAll_spec {sizes rest : List Nat} {count i : Nat} {s : Init} (h : Placed sizes count s)
    (hcount : sizes.sum = 0 → count = 1) (hrest : sizes.drop i = rest) (hk : (sizes.take i).sum = s.k) :
    ∃ starts, placeAll sizes.sum count i rest s = some starts ∧ starts.length = count ∧
      ∀ t start, starts[t]? = some start → StartAt sizes start (border sizes.sum count t) := by
  induction rest generalizing i s with
  | nil =>
      have hlen : ¬ s.starts.length < count := by
        intro hlt
        have hpos := h.length_pos
        have htotal : s.k = sizes.sum := by
          rw [← hk, List.take_of_length_le (List.drop_eq_nil_iff.1 hrest)]
        have hlast := border_lt (n := sizes.sum)
          (Nat.pos_of_ne_zero fun h0 => by have := hcount h0; omega) hlt
        have hle := h.k_le
        rw [h.k0_eq] at hle
        omega
      exact ⟨s.starts, if_neg hlen, Nat.le_antisymm h.length_le (Nat.le_of_not_lt hlen), h.start_at⟩
  | cons m rest ih =>
      rw [placeAll]
      split
      · have hm : (sizes.drop i).headD 0 = m := by rw [hrest, List.headD_cons]
        have hlt : i < sizes.length := by
          by_contra hge
          rw [List.drop_of_length_le (Nat.le_of_not_lt hge)] at hrest
          exact nomatch hrest
        have hnext : sizes.drop (i + 1) = rest := by
          rw [← List.drop_drop, hrest, List.drop_succ_cons, List.drop_zero]
        have hsum : (sizes.take (i + 1)).sum = (sizes.take i).sum + m := by
          rw [List.take_add, hrest, List.sum_append, List.take_succ_cons, List.take_zero,
            List.sum_singleton]
        obtain ⟨hp, hk', hj, hlast⟩ := placeTasks_spec (j := 0) (count - s.starts.length) h hm
          (by rw [Nat.add_zero, hk]) (Nat.zero_le m) (by have := h.length_le; omega)
        refine ih (s := { (placeTasks sizes.sum count i m (count - s.starts.length) s 0).1 with k := _ })
          ?_ hnext ?_
        · refine { hp with k_le := ?_ }
          have hnextk : (sizes.take i).sum + m ≤ sizes.sum := by
            rw [← hsum]
            exact sum_take_le sizes (i + 1)
          rcases Nat.lt_or_ge
            (placeTasks sizes.sum count i m (count - s.starts.length) s 0).1.starts.length
            count with hmore | hall
          · have := hlast hmore
            simp only
            omega
          · have hk0 := hp.k0_eq
            rw [Nat.le_antisymm hp.length_le hall,
              border_last _ (h.length_pos.trans_le h.length_le)] at hk0
            simp only
            omega
        · simp only
          omega
      · exact ⟨s.starts, rfl, by have := h.length_le; omega, h.start_at⟩

structure State.WellFormed (s : State) : Prop where
  count_pos : 0 < s.taskCount
  length_eq : s.starts.length = s.taskCount
  start_at : ∀ t start, s.starts[t]? = some start → StartAt s.sizes start (s.border t)

theorem init_spec (sizes : List Nat) {minStepSize : Nat} (hstep : 0 < minStepSize) (numThreads : Nat) :
    ∃ s, init sizes minStepSize numThreads = some s ∧ s.sizes = sizes ∧
      s.taskCount = taskCount sizes.sum minStepSize numThreads ∧ s.WellFormed := by
  have hpos := taskCount_pos sizes.sum minStepSize numThreads
  have hplaced : Placed sizes (taskCount sizes.sum minStepSize numThreads)
      ⟨0, border sizes.sum (taskCount sizes.sum minStepSize numThreads) 1, [(0, 0)]⟩ := by
    refine ⟨Nat.one_pos, hpos, rfl, Nat.zero_le _, ?_⟩
    intro t start hstart
    cases t with
    | zero =>
        cases hstart
        exact ⟨Nat.zero_le _, by simp⟩
    | succ t => simp at hstart
  have hzero : sizes.sum = 0 → taskCount sizes.sum minStepSize numThreads = 1 := by
    intro h0
    rw [h0]
    simp only [taskCount, Nat.zero_add, Nat.div_eq_of_lt (Nat.sub_one_lt_of_lt hstep)]
    omega
  obtain ⟨starts, hplace, hlen, hat⟩ := placeAll_spec hplaced hzero List.drop_zero rfl
  exact ⟨⟨sizes, _, starts⟩, by rw [init, hplace]; rfl, rfl, rfl, hpos, hlen, hat⟩

theorem take_range' (first m n : Nat) :
    (List.range' first m).take n = List.range' first (min n m) := by
  rcases Nat.le_total n m with h | h
  · rw [Nat.min_eq_left h, List.take_range'_of_length_ge h]
  · rw [Nat.min_eq_right h, List.take_range'_of_length_le h]

theorem walk_spec {k1 : Nat} {sizes : List Nat} (i r0 k : Nat) (hr0 : r0 ≤ sizes.headD 0)
    (hk1 : k1 ≤ k + (sizes.sum - r0)) :
    ∃ segs, walk k1 sizes i r0 k = some segs ∧
      segs.flatMap Segment.items = ((items i sizes).drop r0).take (k1 - k) := by
  induction sizes generalizing i r0 k with
  | nil =>
      have hle : ¬ k < k1 := by simp at hk1; omega
      exact ⟨[], if_neg hle, by simp [items]⟩
  | cons size sizes ih =>
      rw [walk]
      split
      · rename_i hlt
        have hr0 : r0 ≤ size := hr0
        obtain ⟨segs, hsegs, hitems⟩ := ih (i + 1) 0 (k + (min size (r0 + k1 - k) - r0))
          (Nat.zero_le _) (by rw [List.sum_cons] at hk1; omega)
        have htake : ((items i (size :: sizes)).drop r0).take (k1 - k) =
            (List.range' r0 (min size (r0 + k1 - k) - r0)).map (fun j => (i, j)) ++
              ((items (i + 1) sizes).drop 0).take (k1 - (k + (min size (r0 + k1 - k) - r0))) := by
          have hcur : min (k1 - k) (size - r0) = min size (r0 + k1 - k) - r0 := by omega
          have hnext : k1 - k - (size - r0) = k1 - (k + (min size (r0 + k1 - k) - r0)) := by omega
          rw [items, List.drop_append_of_le_length (by simpa using hr0), List.take_append,
            ← List.map_drop, ← List.map_take, List.drop_range', take_range']
          simp only [List.length_map, List.length_range', List.drop_zero, Nat.zero_add,
            Nat.mul_one, hcur, hnext]
        rw [htake, ← hitems]
        simp only
        split
        · exact ⟨_, by rw [hsegs]; rfl, rfl⟩
        · rename_i hempty
          refine ⟨segs, hsegs, ?_⟩
          rw [Nat.sub_eq_zero_of_le (Nat.le_of_not_lt hempty)]
          rfl
      · exact ⟨[], rfl, by rw [Nat.sub_eq_zero_of_le (by omega), List.take_zero]; rfl⟩

theorem drop_items (i n : Nat) (sizes : List Nat) :
    (items i sizes).drop (sizes.take n).sum = items (i + n) (sizes.drop n) := by
  induction n generalizing i sizes with
  | zero => simp
  | succ n ih =>
      cases sizes with
      | nil => simp [items]
      | cons size sizes =>
          rw [List.take_succ_cons, List.sum_cons, List.drop_succ_cons, items, ← List.drop_drop]
          rw [List.drop_append_of_le_length (by simp)]
          simp only [List.drop_of_length_le, List.length_map, List.length_range', Nat.le_refl,
            List.nil_append, ih]
          rw [Nat.add_assoc, Nat.add_comm 1]

theorem mapM_eq_some {α β : Type} {f : α → Option β} {g : α → β} {l : List α}
    (h : ∀ a ∈ l, f a = some (g a)) : l.mapM f = some (l.map g) := by
  induction l with
  | nil => rfl
  | cons a l ih =>
      rw [List.mapM_cons, h a (List.mem_cons_self ..), ih (fun b hb => h b (List.mem_cons_of_mem a hb))]
      rfl

/-- Every task visits its share of the elements. -/
theorem State.WellFormed.tasks_spec {s : State} (h : s.WellFormed) :
    ∃ segs : Nat → List Segment, s.tasks = some ((List.range s.taskCount).map segs) ∧
      ∀ t < s.taskCount,
        (segs t).flatMap Segment.items = slice (items 0 s.sizes) (s.border t) (s.border (t + 1)) := by
  have hwalk : ∀ t < s.taskCount, ∃ segs, s.walkTask t = some segs ∧
      segs.flatMap Segment.items = slice (items 0 s.sizes) (s.border t) (s.border (t + 1)) := by
    intro t ht
    have ht' : t < s.starts.length := h.length_eq.symm ▸ ht
    have hstart := List.getElem?_eq_getElem ht'
    obtain ⟨hhead, hsum⟩ := h.start_at t _ hstart
    have hlast : s.border (t + 1) ≤ s.sizes.sum := border_le _ ht
    have htotal := congrArg List.sum (List.take_append_drop s.starts[t].1 s.sizes)
    rw [List.sum_append] at htotal
    obtain ⟨segs, hsegs, hitems⟩ := walk_spec s.starts[t].1 s.starts[t].2 (s.border t) hhead
      (show s.border (t + 1) ≤ _ by omega)
    refine ⟨segs, by rw [State.walkTask, hstart]; exact hsegs, ?_⟩
    have hdrop := drop_items 0 s.starts[t].1 s.sizes
    rw [Nat.zero_add] at hdrop
    rw [hitems, slice, ← hdrop, List.drop_drop, hsum]
  choose! segs hsegs hitems using hwalk
  exact ⟨segs, mapM_eq_some (fun t ht => hsegs t (List.mem_range.1 ht)), hitems⟩

theorem State.WellFormed.visits {s : State} (h : s.WellFormed) {segs : Nat → List Segment}
    (hitems : ∀ t < s.taskCount,
      (segs t).flatMap Segment.items = slice (items 0 s.sizes) (s.border t) (s.border (t + 1))) :
    ((List.range s.taskCount).map segs).flatten.flatMap Segment.items = items 0 s.sizes := by
  have hslices := borders_flatten (items 0 s.sizes) h.count_pos
  rw [length_items] at hslices
  rw [List.flatMap_def, List.map_flatten, List.flatten_flatten, List.map_map, List.map_map, ← hslices]
  congr 1
  exact List.map_congr_left fun t ht => hitems t (List.mem_range.1 ht)

section PrefixSum

variable {V W : Type}

def prefixSums (reduction : V → V → V) : V → List V → List V × V
  | sum, [] => ([], sum)
  | sum, c :: counts =>
      let (sums, total) := prefixSums reduction (reduction sum c) counts
      (sum :: sums, total)

def parallelForForPrefixSum0 (state : State) (identity : V) (func : Segment → V)
    (reduction : V → V → V) : Option (List V × V) :=
  state.tasks.map (fun tasks =>
    prefixSums reduction identity
      (tasks.map (fun segs => segs.foldl (fun N seg => reduction N (func seg)) identity)))

def runTask (reduction : V → V → V) (func : Segment → V → List W × V) (sum : V) :
    V → List Segment → List W × V
  | N, [] => ([], N)
  | N, seg :: segs =>
      let (writes, v) := func seg (reduction sum N)
      let (writes', N') := runTask reduction func sum (reduction N v) segs
      (writes ++ writes', N')

def parallelForForPrefixSum1 (state : State) (sums : List V) (identity : V)
    (func : Segment → V → List W × V) (reduction : V → V → V) : Option (List (List W) × List V × V) :=
  state.tasks.map (fun tasks =>
    let results := (sums.zip tasks).map (fun p => runTask reduction func p.1 identity p.2)
    let (sums, total) := prefixSums reduction identity (results.map Prod.snd)
    (results.map Prod.fst, sums, total))

end PrefixSum

end RTBuild.ForFor
