import RTBuild.Library.ParallelFor
import RTBuild.Library.Segment

namespace RTBuild.Library.RadixSort

open Library.Chunk (border borders_flatten store)
open Library.ParallelFor (slots store_of_nodup Runs runs_todo)
open Library.Segment (slice)

variable {α : Type}

structure StdSort (α : Type) (lt : α → α → Bool) where
  sort : List α → List α
  perm : ∀ l, (sort l).Perm l
  ordered : ∀ l, (sort l).Pairwise (fun a b => lt b a = false)

def StdSort.mergeSort (key : α → BitVec 32) : StdSort α (fun x y => key x < key y) where
  sort l := l.mergeSort (fun x y => key x ≤ key y)
  perm l := List.mergeSort_perm l _
  ordered l := by
    have hsorted := @List.pairwise_mergeSort α (fun x y => decide (key x ≤ key y))
      (fun x y z => by simpa using BitVec.le_trans) (fun x y => by simpa using BitVec.le_total _ _) l
    exact hsorted.imp (fun h => by simpa using h)

section iteration

variable (digit : α → Nat) (w : Nat)

def countItems : (Nat → BitVec w) → List α → Nat → BitVec w
  | count, [] => count
  | count, x :: items => countItems (Function.update count (digit x) (count (digit x) + 1)) items

def bucketOffset (total : Nat → BitVec w) : Nat → BitVec w
  | 0 => 0
  | b + 1 => bucketOffset total b + total b

def copyItems : (Nat → BitVec w) → List α → List (α × Nat)
  | _, [] => []
  | offset, x :: items =>
      (x, (offset (digit x)).toNat) ::
        copyItems (Function.update offset (digit x) (offset (digit x) + 1)) items

def bucketCount (chunks : List (List α)) (b : Nat) : BitVec w :=
  (chunks.map (fun chunk => countItems digit w (fun _ => 0) chunk b)).sum

def taskWrites (chunks : List (List α)) (threadIndex : Nat) : List (α × Nat) :=
  copyItems digit w
    (fun b => bucketOffset w (bucketCount digit w chunks) b + bucketCount digit w
      (chunks.take threadIndex) b)
    (chunks.getD threadIndex [])

def Iterates (numTasks : Nat) (src dst : List α) : Prop :=
  ∃ (a : Nat → α) (trace : List (α × Nat)),
    Runs (fun threadIndex _ => taskWrites digit w
        ((List.range numTasks).map (fun i =>
          Chunk.slice src (border src.length numTasks i)
            (border src.length numTasks (i + 1)))) threadIndex)
      a ((List.range numTasks).map .todo) trace ∧
    dst = slice (store a trace) 0 src.length

/-- The places of the items in the array, for starts of the buckets that do not wrap around. -/
def places : (Nat → Nat) → List α → List (α × Nat)
  | _, [] => []
  | f, x :: items => (x, f (digit x)) :: places (Function.update f (digit x) (f (digit x) + 1)) items

def size (items : List α) (b : Nat) : Nat := items.countP (fun x => digit x = b)

def start (items : List α) (b : Nat) : Nat := items.countP (fun x => digit x < b)

variable {digit w}

@[simp] theorem size_nil (b : Nat) : size digit ([] : List α) b = 0 := rfl

theorem size_cons_self (x : α) (items : List α) :
    size digit (x :: items) (digit x) = size digit items (digit x) + 1 :=
  List.countP_cons_of_pos (decide_eq_true rfl)

theorem size_cons_of_ne {x : α} {b : Nat} (h : digit x ≠ b) (items : List α) :
    size digit (x :: items) b = size digit items b :=
  List.countP_cons_of_neg (by simpa using h)

theorem size_append (items items' : List α) (b : Nat) :
    size digit (items ++ items') b = size digit items b + size digit items' b := List.countP_append

theorem start_zero (items : List α) : start digit items 0 = 0 :=
  List.countP_eq_zero.2 (fun _ _ => by simp)

theorem start_succ (items : List α) (b : Nat) :
    start digit items (b + 1) = start digit items b + size digit items b := by
  induction items with
  | nil => rfl
  | cons x items ih =>
      simp only [start, size, List.countP_cons] at ih ⊢
      rw [ih]
      rcases Nat.lt_trichotomy (digit x) b with h | h | h
      · simp [h, h.ne, Nat.lt_succ_of_lt h]
        omega
      · simp [h]
        omega
      · simp [h.ne', Nat.not_lt.2 h.le, Nat.not_lt.2 (Nat.succ_le_of_lt h)]

theorem start_last {items : List α} {B : Nat} (h : ∀ x ∈ items, digit x < B) :
    start digit items B = items.length :=
  List.countP_eq_length.2 (fun x hx => decide_eq_true (h x hx))

theorem start_add_size_le (items : List α) (b : Nat) :
    start digit items b + size digit items b ≤ items.length :=
  start_succ items b ▸ List.countP_le_length

theorem countItems_eq (count : Nat → BitVec w) (items : List α) (b : Nat) :
    countItems digit w count items b = count b + (size digit items b : BitVec w) := by
  induction items generalizing count with
  | nil => simp [countItems]
  | cons x items ih =>
      rw [countItems, ih]
      by_cases h : digit x = b
      · subst h
        rw [Function.update_self, size_cons_self, Nat.cast_succ, add_assoc, add_comm 1]
      · rw [Function.update_of_ne (Ne.symm h), size_cons_of_ne h]

theorem bucketCount_eq (chunks : List (List α)) (b : Nat) :
    bucketCount digit w chunks b = (size digit chunks.flatten b : BitVec w) := by
  induction chunks with
  | nil => rfl
  | cons chunk chunks ih =>
      rw [bucketCount] at ih ⊢
      rw [List.map_cons, List.sum_cons, ih, countItems_eq, zero_add, List.flatten_cons,
        size_append, Nat.cast_add]

theorem bucketOffset_eq (items : List α) (b : Nat) :
    bucketOffset w (fun b => (size digit items b : BitVec w)) b = (start digit items b : BitVec w) := by
  induction b with
  | zero => rw [start_zero]; rfl
  | succ b ih => rw [bucketOffset, ih, start_succ, Nat.cast_add]

theorem copyItems_eq {f : Nat → Nat} {items : List α} (h : ∀ b, f b + size digit items b ≤ 2 ^ w) :
    copyItems digit w (fun b => (f b : BitVec w)) items = places digit f items := by
  induction items generalizing f with
  | nil => rfl
  | cons x items ih =>
      have hupdate :
          Function.update (fun b => (f b : BitVec w)) (digit x) ((f (digit x) : BitVec w) + 1) =
          fun b => ((Function.update f (digit x) (f (digit x) + 1) b : Nat) : BitVec w) := by
        funext b
        by_cases hb : b = digit x
        · subst hb
          rw [Function.update_self, Function.update_self, Nat.cast_succ]
        · rw [Function.update_of_ne hb, Function.update_of_ne hb]
      have hlt : f (digit x) < 2 ^ w := by
        have hx := h (digit x)
        rw [size_cons_self] at hx
        omega
      rw [copyItems, places, hupdate, ih]
      · rw [BitVec.natCast_eq_ofNat, BitVec.toNat_ofNat, Nat.mod_eq_of_lt hlt]
      · intro b
        by_cases hb : b = digit x
        · subst hb
          have hx := h (digit x)
          rw [size_cons_self] at hx
          rw [Function.update_self]
          omega
        · rw [Function.update_of_ne hb, ← size_cons_of_ne (Ne.symm hb)]
          exact h b

theorem countItems_append (count : Nat → BitVec w) (items items' : List α) :
    countItems digit w count (items ++ items') =
      countItems digit w (countItems digit w count items) items' := by
  induction items generalizing count with
  | nil => rfl
  | cons x items ih => rw [List.cons_append, countItems, ih, countItems]

theorem copyItems_append (offset : Nat → BitVec w) (items items' : List α) :
    copyItems digit w offset (items ++ items') =
      copyItems digit w offset items ++ copyItems digit w (countItems digit w offset items) items' := by
  induction items generalizing offset with
  | nil => rfl
  | cons x items ih => rw [List.cons_append, copyItems, ih, copyItems, countItems, List.cons_append]

theorem length_copyItems (offset : Nat → BitVec w) (items : List α) :
    (copyItems digit w offset items).length = items.length := by
  induction items generalizing offset with
  | nil => rfl
  | cons x items ih => exact congrArg (· + 1) (ih _)

theorem copyItems_congr {B : Nat} {offset offset' : Nat → BitVec w} {items : List α}
    (hdigit : ∀ x ∈ items, digit x < B) (h : ∀ b < B, offset b = offset' b) :
    copyItems digit w offset items = copyItems digit w offset' items := by
  induction items generalizing offset offset' with
  | nil => rfl
  | cons x items ih =>
      have hx := h (digit x) (hdigit x List.mem_cons_self)
      rw [copyItems, copyItems, hx]
      congr 1
      apply ih (fun y hy => hdigit y (List.mem_cons_of_mem x hy))
      intro b hb
      by_cases hbx : b = digit x
      · subst hbx
        rw [Function.update_self, Function.update_self]
      · rw [Function.update_of_ne hbx, Function.update_of_ne hbx, h b hb]

theorem bucketOffset_congr {total total' : Nat → BitVec w} {b : Nat} (h : ∀ c < b, total c = total' c) :
    bucketOffset w total b = bucketOffset w total' b := by
  induction b with
  | zero => rfl
  | succ b ih =>
      rw [bucketOffset, bucketOffset, ih (fun c hc => h c (Nat.lt_succ_of_lt hc)),
        h b (Nat.lt_succ_self b)]

theorem places_append (f : Nat → Nat) (items items' : List α) :
    places digit f (items ++ items') =
      places digit f items ++ places digit (fun b => f b + size digit items b) items' := by
  induction items generalizing f with
  | nil => rfl
  | cons x items ih =>
      rw [List.cons_append, places, ih, places, List.cons_append]
      congr 3
      funext b
      by_cases hb : b = digit x
      · subst hb
        rw [Function.update_self, size_cons_self]
        omega
      · rw [Function.update_of_ne hb, size_cons_of_ne (Ne.symm hb)]

theorem map_fst_places (f : Nat → Nat) (items : List α) :
    (places digit f items).map Prod.fst = items := by
  induction items generalizing f with
  | nil => rfl
  | cons x items ih => rw [places, List.map_cons, ih]

/-- The tasks together put the items where one task would. -/
theorem flatMap_places (f : Nat → Nat) (chunks : List (List α)) :
    (List.range chunks.length).flatMap (fun t =>
        places digit (fun b => f b + size digit (chunks.take t).flatten b) (chunks.getD t [])) =
      places digit f chunks.flatten := by
  induction chunks generalizing f with
  | nil => rfl
  | cons chunk chunks ih =>
      rw [List.length_cons, List.range_succ_eq_map, List.flatMap_cons, List.flatMap_map,
        List.flatten_cons, places_append, ← ih]
      congr 1
      apply List.flatMap_congr
      intro t _
      rw [List.getD_cons_succ, List.take_succ_cons, List.flatten_cons]
      congr 1
      funext b
      rw [size_append, Nat.add_assoc]

theorem flatMap_cons_perm {β γ : Type} [DecidableEq β] {g g' : β → List γ} {b : β} {y : γ}
    (hb : g b = y :: g' b) (hne : ∀ c, c ≠ b → g c = g' c) {l : List β} (hl : l.Nodup)
    (hmem : b ∈ l) : (l.flatMap g).Perm (y :: l.flatMap g') := by
  induction l with
  | nil => exact absurd hmem List.not_mem_nil
  | cons c l ih =>
      obtain ⟨hc, hl⟩ := List.nodup_cons.1 hl
      rw [List.flatMap_cons, List.flatMap_cons]
      by_cases hcb : c = b
      · subst hcb
        have hrest : l.flatMap g = l.flatMap g' :=
          List.flatMap_congr (fun d hd => hne d (fun hdc => hc (hdc ▸ hd)))
        rw [hb, hrest]
        exact List.Perm.refl _
      · rw [hne c hcb]
        have hmem' := (List.mem_cons.1 hmem).resolve_left (Ne.symm hcb)
        exact ((ih hl hmem').append_left (g' c)).trans List.perm_middle

/-- Each bucket gets filled from its start on. -/
theorem slots_places (f : Nat → Nat) {items : List α} {B : Nat} (h : ∀ x ∈ items, digit x < B) :
    (slots (places digit f items)).Perm
      ((List.range B).flatMap (fun b => List.range' (f b) (size digit items b))) := by
  induction items generalizing f with
  | nil =>
      have hnil :
          (List.range B).flatMap (fun b => List.range' (f b) (size digit ([] : List α) b)) = [] :=
        List.flatMap_eq_nil_iff.2 (fun b _ => rfl)
      rw [hnil]
      rfl
  | cons x items ih =>
      rw [places, slots, List.map_cons, ← slots]
      refine ((ih _ (fun y hy => h y (List.mem_cons_of_mem _ hy))).cons _).trans (List.Perm.symm ?_)
      apply flatMap_cons_perm (b := digit x)
      · rw [size_cons_self, Function.update_self, List.range'_succ]
      · intro b hb
        rw [Function.update_of_ne hb, size_cons_of_ne (Ne.symm hb)]
      · exact List.nodup_range
      · exact List.mem_range.2 (h x List.mem_cons_self)

theorem flatMap_range'_start (items : List α) (B : Nat) :
    (List.range B).flatMap (fun b => List.range' (start digit items b) (size digit items b)) =
      List.range (start digit items B) := by
  induction B with
  | zero => rw [start_zero]; rfl
  | succ B ih =>
      rw [List.range_succ, List.flatMap_append, ih, List.flatMap_singleton, start_succ,
        List.range_eq_range', List.range_eq_range', ← List.range'_append_1, Nat.zero_add]

theorem slots_places_start {items : List α} {B : Nat} (h : ∀ x ∈ items, digit x < B) :
    (slots (places digit (start digit items) items)).Perm (List.range items.length) := by
  rw [← start_last h, ← flatMap_range'_start]
  exact slots_places _ h

def chunks (src : List α) (numTasks : Nat) : List (List α) :=
  (List.range numTasks).map (fun i =>
    Chunk.slice src (border src.length numTasks i) (border src.length numTasks (i + 1)))

theorem length_chunks (src : List α) (numTasks : Nat) : (chunks src numTasks).length = numTasks := by
  rw [chunks, List.length_map, List.length_range]

theorem flatten_chunks (src : List α) {numTasks : Nat} (htasks : 0 < numTasks) :
    (chunks src numTasks).flatten = src :=
  borders_flatten src htasks

section writes

variable {numTasks : Nat} {src : List α} (htasks : 0 < numTasks) (hlength : src.length ≤ 2 ^ w)
include htasks hlength

/-- A task starts in each bucket behind what the tasks before it put there. -/
theorem taskWrites_eq {t : Nat} (ht : t < numTasks) :
    taskWrites digit w (chunks src numTasks) t =
      places digit (fun b => start digit src b + size digit ((chunks src numTasks).take t).flatten b)
        ((chunks src numTasks).getD t []) := by
  have hoffset : ∀ b, bucketOffset w (bucketCount digit w (chunks src numTasks)) b +
      bucketCount digit w ((chunks src numTasks).take t) b =
        ((start digit src b + size digit
          ((chunks src numTasks).take t).flatten b : Nat) : BitVec w) := by
    intro b
    have htotal : bucketCount digit w (chunks src numTasks) = fun b =>
        (size digit src b : BitVec w) := by
      funext b
      rw [bucketCount_eq, flatten_chunks src htasks]
    rw [htotal, bucketOffset_eq, bucketCount_eq, Nat.cast_add]
  rw [taskWrites, funext hoffset, copyItems_eq]
  intro b
  have hsplit : size digit src b = size digit ((chunks src numTasks).take t).flatten b +
      size digit ((chunks src numTasks).drop t).flatten b := by
    rw [← size_append, ← List.flatten_append, List.take_append_drop, flatten_chunks src htasks]
  have hlt : t < (chunks src numTasks).length := by rwa [length_chunks]
  have hhead : size digit ((chunks src numTasks).drop t).flatten b =
      size digit ((chunks src numTasks).getD t []) b +
        size digit ((chunks src numTasks).drop (t + 1)).flatten b := by
    rw [List.drop_eq_getElem_cons hlt, List.flatten_cons, size_append, List.getD_eq_getElem _ _ hlt]
  have hle : start digit src b + size digit src b ≤ src.length := start_add_size_le src b
  omega

theorem flatMap_taskWrites :
    (List.range numTasks).flatMap (taskWrites digit w (chunks src numTasks)) =
      places digit (start digit src) src := by
  have htask : ∀ t ∈ List.range numTasks, taskWrites digit w (chunks src numTasks) t =
      places digit (fun b => start digit src b + size digit ((chunks src numTasks).take t).flatten b)
        ((chunks src numTasks).getD t []) :=
          fun t ht => taskWrites_eq htasks hlength (List.mem_range.1 ht)
  have hplaces := @flatMap_places _ digit (start digit src) (chunks src numTasks)
  rw [length_chunks, flatten_chunks src htasks] at hplaces
  rw [List.flatMap_congr htask, hplaces]

end writes

def bucketSort (digit : α → Nat) (B : Nat) (src : List α) : List α :=
  (List.range B).flatMap (fun b => src.filter (fun x => digit x = b))

theorem bucketSort_succ (B : Nat) (src : List α) :
    bucketSort digit (B + 1) src = bucketSort digit B src ++ src.filter (fun x => digit x = B) := by
  rw [bucketSort, List.range_succ, List.flatMap_append, List.flatMap_singleton]
  rfl

theorem length_bucketSort (B : Nat) (src : List α) :
    (bucketSort digit B src).length = start digit src B := by
  induction B with
  | zero => exact (start_zero src).symm
  | succ B ih =>
      rw [bucketSort_succ, List.length_append, ih, start_succ, size, List.countP_eq_length_filter]

theorem getElem?_bucketSort {B b k : Nat} {src : List α} (hb : b < B) (hk : k < size digit src b) :
    (bucketSort digit B src)[start digit src b + k]? = (src.filter (fun x => digit x = b))[k]? := by
  induction B with
  | zero => exact absurd hb (Nat.not_lt_zero b)
  | succ B ih =>
      rw [bucketSort_succ]
      by_cases hbB : b = B
      · subst hbB
        rw [List.getElem?_append_right (by rw [length_bucketSort]; omega), length_bucketSort,
          Nat.add_sub_cancel_left]
      · have hlt : b < B := Nat.lt_of_le_of_ne (Nat.le_of_lt_succ hb) hbB
        have hmono : start digit src (b + 1) ≤ start digit src B :=
          List.countP_mono_left (fun x _ hx => by simp at hx ⊢; omega)
        rw [start_succ] at hmono
        rw [List.getElem?_append_left (by rw [length_bucketSort]; omega), ih hlt]

theorem exists_of_mem_places {f : Nat → Nat} {items : List α} {w : α × Nat}
    (h : w ∈ places digit f items) :
    ∃ k, w.2 = f (digit w.1) + k ∧ (items.filter (fun x => digit x = digit w.1))[k]? = some w.1 := by
  induction items generalizing f with
  | nil => exact absurd h List.not_mem_nil
  | cons x items ih =>
      rw [places, List.mem_cons] at h
      rcases h with rfl | h
      · exact ⟨0, rfl, by simp⟩
      · obtain ⟨k, hk, hget⟩ := ih h
        by_cases hx : digit w.1 = digit x
        · refine ⟨k + 1, ?_, ?_⟩
          · rw [hk, hx, Function.update_self, Nat.add_assoc, Nat.add_comm 1]
          · rw [List.filter_cons_of_pos (by simpa using hx.symm), List.getElem?_cons_succ]
            exact hget
        · refine ⟨k, ?_, ?_⟩
          · rw [hk, Function.update_of_ne hx]
          · rw [List.filter_cons_of_neg (by simpa using Ne.symm hx)]
            exact hget

theorem slice_eq_bucketSort {a : Nat → α} {src : List α} {B : Nat} (hdigit : ∀ x ∈ src, digit x < B)
    (h : ∀ w ∈ places digit (start digit src) src, a w.2 = w.1) :
    slice a 0 src.length = bucketSort digit B src := by
  apply List.ext_getElem
  · rw [length_bucketSort, start_last hdigit, Segment.length_slice, Nat.sub_zero]
  · intro i hi hi'
    rw [Segment.length_slice, Nat.sub_zero] at hi
    have hslot : i ∈ slots (places digit (start digit src) src) :=
      (slots_places_start hdigit).mem_iff.2 (List.mem_range.2 hi)
    obtain ⟨w, hw, rfl⟩ := List.mem_map.1 hslot
    obtain ⟨k, hk, hget⟩ := exists_of_mem_places hw
    have hmem : w.1 ∈ src := by
      have hfst := List.mem_map_of_mem (f := Prod.fst) hw
      rwa [map_fst_places] at hfst
    have hsize : k < size digit src (digit w.1) := by
      rw [size, List.countP_eq_length_filter]
      exact (List.getElem?_eq_some_iff.1 hget).1
    have hbucket := (getElem?_bucketSort (hdigit w.1 hmem) hsize).trans hget
    rw [← hk] at hbucket
    have hslice : (slice a 0 src.length)[w.2] = a w.2 := by simp [slice]
    rw [hslice, h w hw]
    exact (Option.some.inj ((List.getElem?_eq_getElem hi').symm.trans hbucket)).symm

theorem Iterates.eq_bucketSort {numTasks B : Nat} {src dst : List α}
    (h : Iterates digit w numTasks src dst) (hdigit : ∀ x ∈ src, digit x < B)
    (htasks : 0 < numTasks) (hlength : src.length ≤ 2 ^ w) : dst = bucketSort digit B src := by
  obtain ⟨a, trace, hruns, rfl⟩ := h
  have hwrites : (List.range numTasks).flatMap (taskWrites digit w (chunks src numTasks)) =
      places digit (start digit src) src := flatMap_taskWrites htasks hlength
  have hslots := slots_places_start hdigit
  have htrace : trace.Perm (places digit (start digit src) src) := by
    rw [← hwrites]
    apply hruns.perm_of_todo
    · change (slots ((List.range numTasks).flatMap (taskWrites digit w (chunks src numTasks)))).Nodup
      rw [hwrites]
      exact hslots.nodup_iff.2 List.nodup_range
    · exact fun _ _ _ _ => rfl
  have hnodup : (slots trace).Nodup := ((htrace.map Prod.snd).trans hslots).nodup_iff.2 List.nodup_range
  exact slice_eq_bucketSort hdigit (fun w hw => store_of_nodup a hnodup (htrace.mem_iff.2 hw))

theorem bucketSort_perm {src : List α} {B : Nat} (hdigit : ∀ x ∈ src, digit x < B) :
    (bucketSort digit B src).Perm src := by
  induction src with
  | nil => exact List.Perm.of_eq (List.flatMap_eq_nil_iff.2 (fun _ _ => rfl))
  | cons x src ih =>
      refine List.Perm.trans ?_ ((ih (fun y hy => hdigit y (List.mem_cons_of_mem x hy))).cons x)
      apply flatMap_cons_perm (b := digit x)
      · exact List.filter_cons_of_pos (decide_eq_true rfl)
      · exact fun c hc => List.filter_cons_of_neg (by simpa using Ne.symm hc)
      · exact List.nodup_range
      · exact List.mem_range.2 (hdigit x List.mem_cons_self)

theorem Iterates.perm {numTasks B : Nat} {src dst : List α} (h : Iterates digit w numTasks src dst)
    (hdigit : ∀ x ∈ src, digit x < B) (htasks : 0 < numTasks) (hlength : src.length ≤ 2 ^ w) :
    dst.Perm src :=
  h.eq_bucketSort hdigit htasks hlength ▸ bucketSort_perm hdigit

theorem pairwise_bucketSort {R : α → α → Prop} (B : Nat) {src : List α}
    (hsame : ∀ b, (src.filter (fun x => digit x = b)).Pairwise R)
    (hless : ∀ x y, digit x < digit y → R x y) : (bucketSort digit B src).Pairwise R := by
  rw [bucketSort, List.pairwise_flatMap]
  refine ⟨fun b _ => hsame b, List.pairwise_lt_range.imp ?_⟩
  intro b c hbc x hx y hy
  obtain rfl := of_decide_eq_true (List.mem_filter.1 hx).2
  obtain rfl := of_decide_eq_true (List.mem_filter.1 hy).2
  exact hless x y hbc

theorem flatMap_eq_of_others_nil {β : Type} {l : List β} {g : β → List α} {b : β} (hl : l.Nodup)
    (hb : b ∈ l) (hne : ∀ c, c ≠ b → g c = []) : l.flatMap g = g b := by
  induction l with
  | nil => exact absurd hb List.not_mem_nil
  | cons c l ih =>
      obtain ⟨hc, hl⟩ := List.nodup_cons.1 hl
      rw [List.flatMap_cons]
      rcases List.mem_cons.1 hb with rfl | hb
      · have hrest : l.flatMap g = [] :=
          List.flatMap_eq_nil_iff.2 (fun d hd => hne d (fun hdb => hc (hdb ▸ hd)))
        rw [hrest, List.append_nil]
      · rw [hne c (fun hcb => hc (hcb ▸ hb)), List.nil_append, ih hl hb]

/-- Items of one bucket keep their order. -/
theorem filter_bucketSort {p : α → Bool} {src : List α} {B : Nat} (hdigit : ∀ x ∈ src, digit x < B)
    (hp : ∀ x y, p x = true → p y = true → digit x = digit y) :
    (bucketSort digit B src).filter p = src.filter p := by
  rcases List.eq_nil_or_concat (src.filter p) with hnil | ⟨l, x, hx⟩
  · have hnone : ∀ x ∈ bucketSort digit B src, ¬ p x = true := by
      intro x hx hpx
      have hmem := List.mem_filter.2 ⟨(bucketSort_perm hdigit).mem_iff.1 hx, hpx⟩
      rw [hnil] at hmem
      exact List.not_mem_nil hmem
    rw [hnil]
    exact List.filter_eq_nil_iff.2 hnone
  · have hmem : x ∈ src.filter p := by
      rw [hx, List.concat_eq_append]
      exact List.mem_concat_self
    obtain ⟨hsrc, hpx⟩ := List.mem_filter.1 hmem
    rw [bucketSort, List.filter_flatMap,
      flatMap_eq_of_others_nil (b := digit x) List.nodup_range (List.mem_range.2 (hdigit x hsrc))]
    · rw [List.filter_filter]
      apply List.filter_congr
      intro y _
      by_cases hpy : p y = true
      · simp [hpy, hp y x hpy hpx]
      · simp [hpy]
    · intro b hb
      rw [List.filter_filter]
      apply List.filter_eq_nil_iff.2
      intro y _ hy
      rw [Bool.and_eq_true, decide_eq_true_eq] at hy
      exact hb (hy.2.symm.trans (hp y x hy.1 hpx))

end iteration

section sort

variable (key : α → BitVec 32)

def maxTasks : Nat := 64

def digit (shift : Nat) (x : α) : Nat := (key x >>> shift &&& 255#32).toNat

def TbbRadixSort (numTasks : Nat) (src dst : List α) : Prop :=
  ∃ l₁ l₂ l₃, Iterates (digit key 0) 32 numTasks src l₁ ∧ Iterates (digit key 8) 32 numTasks l₁ l₂ ∧
    Iterates (digit key 16) 32 numTasks l₂ l₃ ∧ Iterates (digit key 24) 32 numTasks l₃ dst

/-- The runs of radix_sort_u32. -/
def Sorts (stdSort : StdSort α (fun x y => key x < key y)) (blockSize threadCount : Nat)
    (src dst : List α) : Prop :=
  if src.length ≤ blockSize then dst = stdSort.sort src
  else TbbRadixSort key
    (min ((src.length + blockSize - 1) / blockSize) (min threadCount maxTasks)) src dst

variable {key}

theorem digit_lt (shift : Nat) (x : α) : digit key shift x < 256 := by
  rw [digit, BitVec.toNat_and]
  exact Nat.and_lt_two_pow (n := 8) _ (by decide)

theorem digit_eq (shift : Nat) (x : α) : digit key shift x = (key x).toNat / 2 ^ shift % 256 := by
  have hmask : (255#32).toNat = 2 ^ 8 - 1 := rfl
  rw [digit, BitVec.toNat_and, BitVec.toNat_ushiftRight, hmask, Nat.and_two_pow_sub_one_eq_mod,
    Nat.shiftRight_eq_div_pow]

def low (key : α → BitVec 32) (bits : Nat) (x : α) : Nat := (key x).toNat % 2 ^ bits

theorem low_add (bits : Nat) (x : α) :
    low key (bits + 8) x = low key bits x + 2 ^ bits * digit key bits x := by
  rw [low, low, digit_eq, Nat.pow_add, Nat.mod_mul]

/-- An iteration extends the order by the bits that it sorts by. -/
theorem pairwise_low_bucketSort {bits : Nat} {src : List α}
    (h : src.Pairwise (fun x y => low key bits x ≤ low key bits y)) :
    (bucketSort (digit key bits) 256 src).Pairwise
      (fun x y => low key (bits + 8) x ≤ low key (bits + 8) y) := by
  apply pairwise_bucketSort
  · intro b
    refine (h.filter _).imp_of_mem ?_
    intro x y hx hy hle
    have hx' := of_decide_eq_true (List.mem_filter.1 hx).2
    have hy' := of_decide_eq_true (List.mem_filter.1 hy).2
    rw [low_add, low_add, hx', hy']
    exact Nat.add_le_add_right hle _
  · intro x y hlt
    have hlow : low key bits x < 2 ^ bits := Nat.mod_lt _ (Nat.two_pow_pos bits)
    have hmul : 2 ^ bits * (digit key bits x + 1) ≤ 2 ^ bits * digit key bits y :=
      Nat.mul_le_mul_left _ hlt
    rw [Nat.mul_succ] at hmul
    rw [low_add, low_add]
    omega

def radixSort (key : α → BitVec 32) (src : List α) : List α :=
  bucketSort (digit key 24) 256 (bucketSort (digit key 16) 256 (bucketSort (digit key 8) 256
    (bucketSort (digit key 0) 256 src)))

theorem radixSort_perm (src : List α) : (radixSort key src).Perm src := by
  have hpass : ∀ shift (l : List α), (bucketSort (digit key shift) 256 l).Perm l := fun shift l =>
    bucketSort_perm (fun x _ => digit_lt shift x)
  exact (hpass 24 _).trans ((hpass 16 _).trans ((hpass 8 _).trans (hpass 0 src)))

theorem pairwise_radixSort (src : List α) : (radixSort key src).Pairwise (fun x y => key x ≤ key y) := by
  have hzero : src.Pairwise (fun x y => low key 0 x ≤ low key 0 y) :=
    List.pairwise_of_forall (fun x y => by rw [low, low, Nat.pow_zero, Nat.mod_one, Nat.mod_one])
  have hlow := pairwise_low_bucketSort
    (pairwise_low_bucketSort (pairwise_low_bucketSort (pairwise_low_bucketSort hzero)))
  refine hlow.imp ?_
  intro x y hle
  rw [low, low, Nat.mod_eq_of_lt (key x).isLt, Nat.mod_eq_of_lt (key y).isLt] at hle
  exact BitVec.le_def.2 hle

/-- Items of one key keep their order. -/
theorem filter_radixSort (k : BitVec 32) (src : List α) :
    (radixSort key src).filter (fun x => key x = k) = src.filter (fun x => key x = k) := by
  have hpass : ∀ shift (l : List α),
      (bucketSort (digit key shift) 256 l).filter (fun x => key x = k) =
        l.filter (fun x => key x = k) := by
    intro shift l
    apply filter_bucketSort (fun x _ => digit_lt shift x)
    intro x y hx hy
    rw [digit, digit, of_decide_eq_true hx, of_decide_eq_true hy]
  rw [radixSort, hpass, hpass, hpass, hpass]

theorem TbbRadixSort.eq_radixSort {numTasks : Nat} {src dst : List α}
    (h : TbbRadixSort key numTasks src dst) (htasks : 0 < numTasks) (hlength : src.length ≤ 2 ^ 32) :
    dst = radixSort key src := by
  obtain ⟨l₁, l₂, l₃, h₁, h₂, h₃, h₄⟩ := h
  have p₁ := h₁.perm (fun x _ => digit_lt 0 x) htasks hlength
  have p₂ := (h₂.perm (fun x _ => digit_lt 8 x) htasks (p₁.length_eq ▸ hlength)).trans p₁
  have p₃ := (h₃.perm (fun x _ => digit_lt 16 x) htasks (p₂.length_eq ▸ hlength)).trans p₂
  rw [radixSort, ← h₁.eq_bucketSort (fun x _ => digit_lt 0 x) htasks hlength,
    ← h₂.eq_bucketSort (fun x _ => digit_lt 8 x) htasks (p₁.length_eq ▸ hlength),
    ← h₃.eq_bucketSort (fun x _ => digit_lt 16 x) htasks (p₂.length_eq ▸ hlength)]
  exact h₄.eq_bucketSort (fun x _ => digit_lt 24 x) htasks (p₃.length_eq ▸ hlength)

theorem TbbRadixSort.perm {numTasks : Nat} {src dst : List α} (h : TbbRadixSort key numTasks src dst)
    (htasks : 0 < numTasks) (hlength : src.length ≤ 2 ^ 32) : dst.Perm src :=
  h.eq_radixSort htasks hlength ▸ radixSort_perm src

theorem Sorts.perm {stdSort : StdSort α (fun x y => key x < key y)} {blockSize threadCount : Nat}
    {src dst : List α} (h : Sorts key stdSort blockSize threadCount src dst)
    (hblock : 0 < blockSize) (hthreads : 0 < threadCount) (hlength : src.length ≤ 2 ^ 32) :
    dst.Perm src := by
  rw [Sorts] at h
  split at h
  · exact h ▸ stdSort.perm src
  · have hblocks : 0 < (src.length + blockSize - 1) / blockSize := Nat.div_pos (by omega) hblock
    have hmax : 0 < maxTasks := by decide
    exact TbbRadixSort.perm h (by omega) hlength

variable [Nonempty α]

theorem exists_iterates (digit : α → Nat) (w numTasks : Nat) (src : List α) :
    ∃ dst, Iterates digit w numTasks src dst := by
  obtain ⟨x⟩ := ‹Nonempty α›
  exact ⟨_, fun _ => x, _, runs_todo _ _, rfl⟩

theorem exists_sorts (stdSort : StdSort α (fun x y => key x < key y)) (blockSize threadCount : Nat)
    (src : List α) : ∃ dst, Sorts key stdSort blockSize threadCount src dst := by
  by_cases hsmall : src.length ≤ blockSize
  · exact ⟨stdSort.sort src, by rw [Sorts, if_pos hsmall]⟩
  · obtain ⟨l₁, h₁⟩ := exists_iterates (digit key 0) 32
      (min ((src.length + blockSize - 1) / blockSize) (min threadCount maxTasks)) src
    obtain ⟨l₂, h₂⟩ := exists_iterates (digit key 8) 32
      (min ((src.length + blockSize - 1) / blockSize) (min threadCount maxTasks)) l₁
    obtain ⟨l₃, h₃⟩ := exists_iterates (digit key 16) 32
      (min ((src.length + blockSize - 1) / blockSize) (min threadCount maxTasks)) l₂
    obtain ⟨dst, h₄⟩ := exists_iterates (digit key 24) 32
      (min ((src.length + blockSize - 1) / blockSize) (min threadCount maxTasks)) l₃
    refine ⟨dst, ?_⟩
    rw [Sorts, if_neg hsmall]
    exact ⟨l₁, l₂, l₃, h₁, h₂, h₃, h₄⟩

end sort

end RTBuild.Library.RadixSort
