import RTBuild.Partition

namespace RTBuild.Partition

open Library.Segment
open Library.Chunk (border borders_flatten border_le border_lt border_mono border_zero border_last)

variable {T V : Type}

section checked

def checkedStartRange : Nat → List (Nat × Nat) → Option Cursor
  | _, [] => none
  | index, r :: rs =>
      if r.2 - r.1 ≤ index then checkedStartRange (index - (r.2 - r.1)) rs
      else some ⟨r.1 + index, r.2 - r.1 - index, rs⟩

def Cursor.checkedNext (c : Cursor) : Option Cursor :=
  match c.rest with
  | [] => none
  | r :: rest => some ⟨r.1, r.2 - r.1, rest⟩

/-- The slots that the loop exchanges. There are none where a pointer passes the
last range, or where the loop does not get on. -/
def checkedSwapLoop : Nat → Nat → Cursor → Cursor → Nat → Option (List (Nat × Nat))
  | 0, size, _, _, _ => if size = 0 then some [] else none
  | fuel + 1, size, l, r, items =>
      if size = 0 then some []
      else do
        let (l, items) ← if l.left = 0 then do
            let l ← l.checkedNext
            pure (l, min size (min l.left r.left))
          else pure (l, items)
        let (r, items) ← if r.left = 0 then do
            let r ← r.checkedNext
            pure (r, min size (min l.left r.left))
          else pure (r, items)
        let rest ← checkedSwapLoop fuel (size - items) ⟨l.pos + items, l.left - items, l.rest⟩
          ⟨r.pos + items, r.left - items, r.rest⟩ 0
        return (List.range' l.pos items).zip (List.range' r.pos items) ++ rest

def checkedSwapItems (leftRanges rightRanges : List (Nat × Nat)) (startID endID : Nat) :
    Option (List (Nat × Nat)) := do
  let l ← checkedStartRange startID leftRanges
  let r ← checkedStartRange startID rightRanges
  let size := endID - startID
  checkedSwapLoop size size l r (min size (min l.left r.left))

theorem checkedStartRange_eq {index : Nat} {ranges : List (Nat × Nat)}
    (h : index < (indices ranges).length) :
    checkedStartRange index ranges = some (findStartRange index ranges) := by
  induction ranges generalizing index with
  | nil => exact absurd h (Nat.not_lt_zero index)
  | cons r rs ih =>
      rw [indices_cons, List.length_append, List.length_range'] at h
      rw [checkedStartRange, findStartRange]
      by_cases hsize : r.2 - r.1 ≤ index
      · rw [if_pos hsize, if_pos hsize]
        apply ih
        omega
      · rw [if_neg hsize, if_neg hsize]

theorem Cursor.checkedNext_eq {c : Cursor} (hleft : c.left = 0) (hne : c.indices ≠ []) :
    c.checkedNext = some c.next := by
  obtain ⟨pos, left, rest⟩ := c
  cases rest with
  | nil =>
      obtain rfl : left = 0 := hleft
      exact absurd rfl hne
  | cons r rest => rfl

theorem checkedSwapLoop_succ (fuel : Nat) {size : Nat} {l r : Cursor} (hsize : size ≠ 0)
    (hl : l.indices ≠ []) (hr : r.indices ≠ []) :
    checkedSwapLoop (fuel + 1) size l r (min size (min l.left r.left)) =
      let items := min size (min l.refill.left r.refill.left)
      (checkedSwapLoop fuel (size - items) ⟨l.refill.pos + items, l.refill.left - items, l.refill.rest⟩
        ⟨r.refill.pos + items, r.refill.left - items, r.refill.rest⟩ 0).map
          ((List.range' l.refill.pos items).zip (List.range' r.refill.pos items) ++ ·) := by
  rw [checkedSwapLoop, if_neg hsize]
  by_cases hl0 : l.left = 0 <;> by_cases hr0 : r.left = 0
  · simp [Cursor.refill, hl0, hr0, Cursor.checkedNext_eq hl0 hl, Cursor.checkedNext_eq hr0 hr,
      Option.map_eq_bind]
  · simp [Cursor.refill, hl0, hr0, Cursor.checkedNext_eq hl0 hl, Option.map_eq_bind]
  · simp [Cursor.refill, hl0, hr0, Cursor.checkedNext_eq hr0 hr, Option.map_eq_bind]
  · simp [Cursor.refill, hl0, hr0, Option.map_eq_bind]

/-- The pointers stay within the ranges, and what lies there is exchanged pairwise. -/
theorem checkedSwapLoop_eq (fuel : Nat) {size : Nat} {l r : Cursor} (hl : l.Good) (hr : r.Good)
    (hsizel : size ≤ l.indices.length) (hsizer : size ≤ r.indices.length) (hfuel : size ≤ fuel)
    {items : Nat} (hitems : items = min size (min l.left r.left)) :
    checkedSwapLoop fuel size l r items = some ((l.indices.zip r.indices).take size) := by
  induction fuel generalizing size l r items with
  | zero =>
      obtain rfl : size = 0 := Nat.le_zero.1 hfuel
      rfl
  | succ fuel ih =>
      by_cases hsize : size = 0
      · subst hsize
        rfl
      · have hnel : l.indices ≠ [] := fun h => by
          rw [h, List.length_nil] at hsizel
          omega
        have hner : r.indices ≠ [] := fun h => by
          rw [h, List.length_nil] at hsizer
          omega
        obtain ⟨hl', hposl, hgoodl⟩ := hl.refill hnel
        obtain ⟨hr', hposr, hgoodr⟩ := hr.refill hner
        rw [hitems, checkedSwapLoop_succ fuel hsize hnel hner]
        generalize l.refill = c at *
        generalize r.refill = d at *
        obtain ⟨pos, left, rest⟩ := c
        obtain ⟨pos', left', rest'⟩ := d
        simp only at hposl hposr
        generalize hk : min size (min left left') = k
        have hkl : k ≤ left := by omega
        have hkr : k ≤ left' := by omega
        have hks : k ≤ size := by omega
        rw [← hl', indices_split pos left k rest hkl] at hsizel ⊢
        rw [← hr', indices_split pos' left' k rest' hkr] at hsizer ⊢
        rw [List.length_append, List.length_range'] at hsizel hsizer
        have hgoodl' : (Cursor.mk (pos + k) (left - k) rest).Good := hgoodl
        have hgoodr' : (Cursor.mk (pos' + k) (left' - k) rest').Good := hgoodr
        have hfirst : ((List.range' pos k).zip (List.range' pos' k)).take size =
            (List.range' pos k).zip (List.range' pos' k) := List.take_of_length_le (by simpa using hks)
        have hlength : ((List.range' pos k).zip (List.range' pos' k)).length = k := by simp
        have hitems' : 0 = min (size - k) (min (left - k) (left' - k)) := by omega
        simp only
        rw [ih hgoodl' hgoodr' (by omega) (by omega) (by omega) hitems', Option.map_some,
          List.zip_append (by simp), List.take_append, hfirst, hlength]

theorem checkedSwapItems_eq {leftRanges rightRanges : List (Nat × Nat)} {startID endID : Nat}
    (hl : ∀ r ∈ leftRanges, r.1 < r.2) (hr : ∀ r ∈ rightRanges, r.1 < r.2)
    (hstart : startID < (indices leftRanges).length) (hendl : endID ≤ (indices leftRanges).length)
    (hlength : (indices leftRanges).length = (indices rightRanges).length) :
    checkedSwapItems leftRanges rightRanges startID endID =
      some (Library.Chunk.slice ((indices leftRanges).zip (indices rightRanges)) startID endID) := by
  obtain ⟨hleq, hlgood⟩ := findStartRange_spec startID leftRanges hl
  obtain ⟨hreq, hrgood⟩ := findStartRange_spec startID rightRanges hr
  have hsizel : endID - startID ≤ (findStartRange startID leftRanges).indices.length := by
    rw [hleq, List.length_drop]
    omega
  have hsizer : endID - startID ≤ (findStartRange startID rightRanges).indices.length := by
    rw [hreq, List.length_drop]
    omega
  have hdrop : ((indices leftRanges).zip (indices rightRanges)).drop startID =
      ((indices leftRanges).drop startID).zip ((indices rightRanges).drop startID) := List.drop_zipWith
  rw [checkedSwapItems, checkedStartRange_eq hstart, checkedStartRange_eq (hlength ▸ hstart)]
  simp only [Option.bind_eq_bind, Option.bind_some]
  rw [checkedSwapLoop_eq _ hlgood hrgood hsizel hsizer le_rfl rfl, hleq, hreq,
    Library.Chunk.slice, hdrop]

end checked

section concurrent

inductive Access
  | save (l : Nat)
  | copy (l r : Nat)
  | restore (r : Nat)

namespace Access

def xchg (p : Nat × Nat) : List Access := [.save p.1, .copy p.1 p.2, .restore p.2]

def slots : Access → List Nat
  | save l => [l]
  | copy l r => [l, r]
  | restore r => [r]

end Access

structure Memory (T : Type) (n : Nat) where
  array : Nat → T
  tmp : Fin n → T

variable {n : Nat}

def Access.apply (taskID : Fin n) (m : Memory T n) : Access → Memory T n
  | save l => { m with tmp := Function.update m.tmp taskID (m.array l) }
  | copy l r => { m with array := Function.update m.array l (m.array r) }
  | restore r => { m with array := Function.update m.array r (m.tmp taskID) }

def execute (m : Memory T n) (trace : List (Fin n × Access)) : Memory T n :=
  trace.foldl (fun m a => a.2.apply a.1 m) m

def Schedules (steps : Fin n → List (Nat × Nat)) (trace : List (Fin n × Access)) : Prop :=
  ∀ t, (trace.filter (fun a => a.1 = t)).map Prod.snd = (steps t).flatMap Access.xchg

theorem Access.apply_array_of_notMem {taskID : Fin n} {m : Memory T n} {a : Access} {k : Nat}
    (h : k ∉ a.slots) : (a.apply taskID m).array k = m.array k := by
  cases a with
  | save l => rfl
  | copy l r =>
      have hne : k ≠ l := fun heq => h (heq ▸ List.mem_cons_self)
      exact Function.update_of_ne hne ..
  | restore r =>
      have hne : k ≠ r := fun heq => h (heq ▸ List.mem_cons_self)
      exact Function.update_of_ne hne ..

theorem execute_array_of_notMem {m : Memory T n} {trace : List (Fin n × Access)} {k : Nat}
    (h : ∀ a ∈ trace, k ∉ a.2.slots) : (execute m trace).array k = m.array k := by
  induction trace generalizing m with
  | nil => rfl
  | cons a trace ih =>
      rw [execute, List.foldl_cons, ← execute, ih (fun b hb => h b (List.mem_cons_of_mem _ hb))]
      exact Access.apply_array_of_notMem (h a (List.mem_cons_self ..))

structure SameView (t : Fin n) (S : Nat → Prop) (m m' : Memory T n) : Prop where
  array : ∀ k, S k → m.array k = m'.array k
  tmp : m.tmp t = m'.tmp t

theorem SameView.apply {t : Fin n} {S : Nat → Prop} {m m' : Memory T n} (h : SameView t S m m')
    {a : Access} (ha : ∀ k ∈ a.slots, S k) : SameView t S (a.apply t m) (a.apply t m') := by
  cases a with
  | save l =>
      refine ⟨h.array, ?_⟩
      simp only [Access.apply, Function.update_self]
      exact h.array l (ha l (List.mem_cons_self ..))
  | copy l r =>
      refine ⟨fun k hk => ?_, h.tmp⟩
      have hr := h.array r (ha r (List.mem_cons_of_mem _ (List.mem_cons_self ..)))
      simp only [Access.apply, Function.update_apply, hr, h.array k hk]
  | restore r =>
      refine ⟨fun k hk => ?_, h.tmp⟩
      simp only [Access.apply, Function.update_apply, h.tmp, h.array k hk]

theorem SameView.apply_other {t u : Fin n} (hne : u ≠ t) {S : Nat → Prop} {m m' : Memory T n}
    (h : SameView t S m m') {a : Access} (ha : ∀ k ∈ a.slots, ¬S k) : SameView t S (a.apply u m) m' := by
  refine ⟨fun k hk => ?_, ?_⟩
  · rw [Access.apply_array_of_notMem fun hmem => ha k hmem hk]
    exact h.array k hk
  · cases a with
    | save l => exact (Function.update_of_ne hne.symm ..).trans h.tmp
    | copy l r => exact h.tmp
    | restore r => exact h.tmp

/-- A task that shares no slot sees the memory as if it ran alone. -/
theorem SameView.execute {t : Fin n} {S : Nat → Prop} {m m' : Memory T n} (h : SameView t S m m')
    {trace : List (Fin n × Access)} (hown : ∀ a ∈ trace, a.1 = t → ∀ k ∈ a.2.slots, S k)
    (hother : ∀ a ∈ trace, a.1 ≠ t → ∀ k ∈ a.2.slots, ¬S k) :
    SameView t S (execute m trace) (execute m' (trace.filter (fun a => a.1 = t))) := by
  induction trace generalizing m m' with
  | nil => exact h
  | cons a trace ih =>
      have hown' := fun b hb => hown b (List.mem_cons_of_mem a hb)
      have hother' := fun b hb => hother b (List.mem_cons_of_mem a hb)
      by_cases ha : a.1 = t
      · rw [List.filter_cons_of_pos (by simpa using ha)]
        have hstep := h.apply (hown a (List.mem_cons_self ..) ha)
        rw [← ha] at hstep
        exact ih (ha ▸ hstep) hown' hother'
      · rw [List.filter_cons_of_neg (by simpa using ha)]
        exact ih (h.apply_other ha (hother a (List.mem_cons_self ..) ha)) hown' hother'

theorem execute_xchg (t : Fin n) (m : Memory T n) (p : Nat × Nat) :
    (execute m ((Access.xchg p).map (fun a => (t, a)))).array = swap m.array p.1 p.2 := by
  obtain ⟨l, r⟩ := p
  funext k
  simp only [execute, Access.xchg, List.map_cons, List.map_nil, List.foldl_cons,
    List.foldl_nil, Access.apply]
  by_cases hr : k = r
  · rw [hr, Function.update_self, Function.update_self, swap_right]
  · rw [Function.update_of_ne hr]
    by_cases hl : k = l
    · rw [hl, Function.update_self, swap_left]
    · rw [Function.update_of_ne hl, swap_of_ne m.array hl hr]

theorem execute_steps (t : Fin n) (m : Memory T n) (steps : List (Nat × Nat)) :
    (execute m ((steps.flatMap Access.xchg).map (fun a => (t, a)))).array = swapPairs m.array steps := by
  induction steps generalizing m with
  | nil => rfl
  | cons p steps ih =>
      rw [List.flatMap_cons, List.map_append, execute, List.foldl_append, ← execute, ← execute,
        ih, execute_xchg]
      rfl

def Touches (steps : List (Nat × Nat)) (k : Nat) : Prop := ∃ p ∈ steps, k = p.1 ∨ k = p.2

def TasksApart (n : Nat) (steps : Nat → List (Nat × Nat)) : Prop :=
  ∀ t < n, ∀ u < n, t ≠ u → ∀ k, Touches (steps t) k → ¬Touches (steps u) k

theorem Schedules.slots {steps : Fin n → List (Nat × Nat)} {trace : List (Fin n × Access)}
    (h : Schedules steps trace) {a : Fin n × Access} (ha : a ∈ trace) {k : Nat} (hk : k ∈ a.2.slots) :
    Touches (steps a.1) k := by
  have hmem : a.2 ∈ (steps a.1).flatMap Access.xchg := by
    rw [← h a.1]
    exact List.mem_map_of_mem (List.mem_filter.2 ⟨ha, decide_eq_true rfl⟩)
  obtain ⟨p, hp, hxchg⟩ := List.mem_flatMap.1 hmem
  refine ⟨p, hp, ?_⟩
  simp only [Access.xchg, List.mem_cons, List.not_mem_nil, or_false] at hxchg
  rcases hxchg with heq | heq | heq
  · rw [heq] at hk
    exact Or.inl (List.mem_singleton.1 hk)
  · rw [heq] at hk
    exact List.mem_pair.1 hk
  · rw [heq] at hk
    exact Or.inr (List.mem_singleton.1 hk)

theorem Schedules.filter_eq {steps : Fin n → List (Nat × Nat)} {trace : List (Fin n × Access)}
    (h : Schedules steps trace) (t : Fin n) :
    trace.filter (fun a => a.1 = t) = ((steps t).flatMap Access.xchg).map (fun a => (t, a)) := by
  rw [← h t, List.map_map]
  refine (List.map_id _).symm.trans (List.map_congr_left fun a ha => ?_)
  have hfst : a.1 = t := of_decide_eq_true (List.mem_filter.1 ha).2
  exact Prod.ext hfst rfl

section pairs

variable {steps : Nat → List (Nat × Nat)} (hl : (((List.range n).flatMap steps).map Prod.fst).Nodup)
  (hr : (((List.range n).flatMap steps).map Prod.snd).Nodup)
  (hdisjoint : ∀ p ∈ (List.range n).flatMap steps, ∀ q ∈ (List.range n).flatMap steps, p.1 ≠ q.2)

include hl hr hdisjoint

theorem tasksApart_of_nodup : TasksApart n steps := by
  rintro t ht u hu hne k ⟨p, hp, hk⟩ ⟨q, hq, hk'⟩
  have hmem : ∀ {v : Nat} {x : Nat × Nat}, v < n → x ∈ steps v → x ∈ (List.range n).flatMap steps :=
    fun hv hx => List.mem_flatMap.2 ⟨_, List.mem_range.2 hv, hx⟩
  have hsymm : ∀ f : Nat × Nat → Nat,
      Std.Symm (Function.onFun List.Disjoint (fun t => (steps t).map f)) :=
    fun f => ⟨fun _ _ h => h.symm⟩
  have hside : ∀ f : Nat × Nat → Nat, (((List.range n).flatMap steps).map f).Nodup → f p ≠ f q := by
    intro f hnodup heq
    rw [List.map_flatMap] at hnodup
    have hpairwise := (List.nodup_flatMap.1 hnodup).2
    have := hsymm f
    exact hpairwise.forall (List.mem_range.2 ht) (List.mem_range.2 hu) hne (List.mem_map_of_mem hp)
      (heq ▸ List.mem_map_of_mem hq)
  rcases hk with rfl | rfl
  · rcases hk' with hk' | hk'
    · exact hside Prod.fst hl hk'
    · exact hdisjoint p (hmem ht hp) q (hmem hu hq) hk'
  · rcases hk' with hk' | hk'
    · exact hdisjoint q (hmem hu hq) p (hmem ht hp) hk'.symm
    · exact hside Prod.snd hr hk'

/-- Every schedule of the tasks leaves what one task after the other leaves. -/
theorem Schedules.array_eq {trace : List (Fin n × Access)} (h : Schedules (fun t => steps t) trace)
    (m : Memory T n) :
    (execute m trace).array = swapPairs m.array ((List.range n).flatMap steps) := by
  have hapart := tasksApart_of_nodup hl hr hdisjoint
  funext k
  by_cases htouched : ∃ t : Fin n, Touches (steps t) k
  · obtain ⟨t, htouch⟩ := htouched
    have hview : SameView t (Touches (steps t)) m m := ⟨fun _ _ => rfl, rfl⟩
    have hrun := hview.execute (fun a ha hat k hk => hat ▸ h.slots ha hk)
      (fun a ha hat k hk => hapart _ a.1.isLt _ t.isLt (fun heq => hat (Fin.ext heq)) k (h.slots ha hk))
    rw [hrun.array k htouch, h.filter_eq t, execute_steps]
    obtain ⟨p, hp, hk⟩ := htouch
    have hsub : (steps t).Sublist ((List.range n).flatMap steps) := by
      apply List.sublist_flatten_of_mem
      exact List.mem_map_of_mem (List.mem_range.2 t.isLt)
    have hown :=
      swapPairs_of_mem m.array (hl.sublist (hsub.map Prod.fst)) (hr.sublist (hsub.map Prod.snd))
      (fun p hp q hq => hdisjoint p (hsub.subset hp) q (hsub.subset hq)) hp
    have hall := swapPairs_of_mem m.array hl hr hdisjoint (hsub.subset hp)
    rcases hk with rfl | rfl
    · rw [hown.1, hall.1]
    · rw [hown.2, hall.2]
  · have hnone : ∀ p ∈ (List.range n).flatMap steps, k ≠ p.1 ∧ k ≠ p.2 := by
      intro p hp
      obtain ⟨t, ht, hp⟩ := List.mem_flatMap.1 hp
      constructor
      · exact fun hk => htouched ⟨⟨t, List.mem_range.1 ht⟩, p, hp, Or.inl hk⟩
      · exact fun hk => htouched ⟨⟨t, List.mem_range.1 ht⟩, p, hp, Or.inr hk⟩
    rw [execute_array_of_notMem fun a ha hk => htouched ⟨a.1, h.slots ha hk⟩, swapPairs_of_notMem]
    · intro hk
      obtain ⟨p, hp, rfl⟩ := List.mem_map.1 hk
      exact (hnone p hp).1 rfl
    · intro hk
      obtain ⟨p, hp, rfl⟩ := List.mem_map.1 hk
      exact (hnone p hp).2 rfl

end pairs

end concurrent

structure FirstPhase (T : Type) where
  array : Nat → T
  mid : Nat
  leftRanges : List (Nat × Nat)
  rightRanges : List (Nat × Nat)

section phases

variable (isLeft : T → Bool) (reduction : V → T → V) (reductionV : V → V → V) (identity : V)

def firstPhase (array : Nat → T) (begin_ end_ numTasks : Nat) : FirstPhase T :=
  let (array, parts) := partitionTasks isLeft reduction identity
    (fun i => begin_ + border (end_ - begin_) numTasks i) array (List.range numTasks)
  let mid := begin_ + (parts.map (fun part => part.mid - part.start)).sum
  { array
    mid
    leftRanges := misplaced (begin_, mid) (parts.map (fun part => (part.mid, part.stop)))
    rightRanges := misplaced (mid, end_) (parts.map (fun part => (part.start, part.mid))) }

def numTasks (blockSize threadCount N : Nat) : Nat :=
  min ((N + blockSize - 1) / blockSize) (min threadCount maxTasks)

def FirstPhase.exchanges (p : FirstPhase T) (numTasks taskID : Nat) : Option (List (Nat × Nat)) :=
  checkedSwapItems p.leftRanges p.rightRanges (border (rangeSizes p.leftRanges) numTasks taskID)
    (border (rangeSizes p.leftRanges) numTasks (taskID + 1))

/-- The tasks of the second phase exchange every misplaced slot of the left side
with one of the right side, and none of them in the way of another one. -/
structure SwapsMisplaced (p : FirstPhase T) (begin_ end_ numTasks : Nat) (steps : Nat → List (Nat × Nat))
    (array : Nat → T) : Prop where
  within : ∀ t < numTasks, p.exchanges numTasks t = some (steps t)
  misplaced : Misplaced isLeft p.array begin_ p.mid end_
    (((List.range numTasks).flatMap steps).map Prod.fst)
    (((List.range numTasks).flatMap steps).map Prod.snd)
  apart : TasksApart numTasks steps
  scheduled : ∀ (tmp : Fin numTasks → T) (trace : List (Fin numTasks × Access)),
    Schedules (fun t => steps t) trace → (execute ⟨p.array, tmp⟩ trace).array = array

variable {isLeft reduction reductionV identity}

theorem Misplaced.swapPairs_ready {array : Nat → T} {begin_ mid end_ : Nat} {L R : List Nat}
    (h : Misplaced isLeft array begin_ mid end_ L R) :
    ((L.zip R).map Prod.fst).Nodup ∧ ((L.zip R).map Prod.snd).Nodup ∧
      ∀ p ∈ L.zip R, ∀ q ∈ L.zip R, p.1 ≠ q.2 := by
  rw [List.map_fst_zip h.length_eq.le, List.map_snd_zip h.length_eq.ge]
  refine ⟨h.nodup_left, h.nodup_right, fun p hp q hq => ?_⟩
  have hp' := (h.mem_left p.1).1 (List.of_mem_zip hp).1
  have hq' := (h.mem_right q.2).1 (List.of_mem_zip hq).2
  omega

theorem firstPhase_misplaced (array : Nat → T) {begin_ end_ numTasks : Nat} (hle : begin_ ≤ end_)
    (htasks : 0 < numTasks) :
    Misplaced isLeft (firstPhase isLeft reduction identity array begin_ end_ numTasks).array begin_
      (firstPhase isLeft reduction identity array begin_ end_ numTasks).mid end_
      (indices (firstPhase isLeft reduction identity array begin_ end_ numTasks).leftRanges)
      (indices (firstPhase isLeft reduction identity array begin_ end_ numTasks).rightRanges) := by
  have hstart : ∀ i, begin_ + border (end_ - begin_) numTasks i ≤
      begin_ + border (end_ - begin_) numTasks (i + 1) :=
    fun i => Nat.add_le_add_left (border_mono _ _ (Nat.le_succ i)) _
  obtain ⟨-, hparts⟩ := partitionTasks_spec isLeft reduction identity hstart array 0 numTasks
  have hlast : begin_ + (end_ - begin_) = end_ := by omega
  rw [Nat.zero_add, border_zero, border_last _ htasks, hlast, Nat.add_zero,
    ← List.range_eq_range'] at hparts
  have hsum := hparts.sum_left
  have hcount :=
    (List.length_filter_le (fun i => isLeft ((firstPhase isLeft reduction identity array begin_ end_
    numTasks).array i)) (List.range' begin_ (end_ - begin_))).trans (by simp : _ ≤ end_ - begin_)
  simp only [firstPhase] at hcount ⊢
  rw [hparts.indices_left le_rfl, hparts.indices_right le_rfl]
  exact .of_filter (by omega) (by omega) (by omega)

theorem firstPhase_swaps (array : Nat → T) {begin_ end_ numTasks : Nat} (left right : V)
    (hle : begin_ ≤ end_) (htasks : 0 < numTasks)
    (hsome : rangeSizes
      (firstPhase isLeft reduction identity array begin_ end_ numTasks).leftRanges ≠ 0) :
    ∃ steps, SwapsMisplaced isLeft
      (firstPhase isLeft reduction identity array begin_ end_ numTasks) begin_ end_ numTasks
      steps (partition isLeft reduction reductionV identity array begin_ end_ numTasks
        left right).array := by
  have hmisplaced :=
    @firstPhase_misplaced T V isLeft reduction identity array begin_ end_ numTasks hle htasks
  have hnonempty :
      ∀ s ∈ (firstPhase isLeft reduction identity array begin_ end_ numTasks).leftRanges, s.1 < s.2 :=
    misplaced_nonempty _ _
  have hnonempty' :
      ∀ s ∈ (firstPhase isLeft reduction identity array begin_ end_ numTasks).rightRanges,
      s.1 < s.2 :=
    misplaced_nonempty _ _
  have harray :
      (partition isLeft reduction reductionV identity array begin_ end_ numTasks left right).array =
      swapPairs (firstPhase isLeft reduction identity array begin_ end_ numTasks).array
        ((indices (firstPhase isLeft reduction identity array begin_ end_ numTasks).leftRanges).zip
          (indices (firstPhase isLeft reduction identity array begin_ end_ numTasks).rightRanges)) := by
    rw [← swapTasks_eq _ htasks hnonempty hnonempty' hmisplaced.length_eq]
    exact congrArg Result.array (if_neg hsome)
  generalize firstPhase isLeft reduction identity array begin_ end_ numTasks = p at *
  let pairs := (indices p.leftRanges).zip (indices p.rightRanges)
  have hlength : pairs.length = rangeSizes p.leftRanges := by
    rw [List.length_zip, ← hmisplaced.length_eq, length_indices, Nat.min_self]
  let steps := fun t => Library.Chunk.slice pairs (border (rangeSizes p.leftRanges) numTasks t)
    (border (rangeSizes p.leftRanges) numTasks (t + 1))
  have hall : (List.range numTasks).flatMap steps = pairs := by
    have hchunks := borders_flatten pairs htasks
    rwa [hlength] at hchunks
  obtain ⟨hl, hr, hdisjoint⟩ := hmisplaced.swapPairs_ready
  change (pairs.map Prod.fst).Nodup at hl
  change (pairs.map Prod.snd).Nodup at hr
  change ∀ p ∈ pairs, ∀ q ∈ pairs, p.1 ≠ q.2 at hdisjoint
  refine ⟨steps, fun t ht => ?_, ?_, ?_, fun tmp trace htrace => ?_⟩
  · have hstart : border (rangeSizes p.leftRanges) numTasks t < (indices p.leftRanges).length := by
      rw [length_indices]
      exact border_lt (Nat.pos_of_ne_zero hsome) ht
    have hend : border (rangeSizes p.leftRanges) numTasks (t + 1) ≤ (indices p.leftRanges).length := by
      rw [length_indices]
      exact border_le _ (Nat.succ_le_of_lt ht)
    exact checkedSwapItems_eq hnonempty hnonempty' hstart hend hmisplaced.length_eq
  · rw [hall, List.map_fst_zip hmisplaced.length_eq.le, List.map_snd_zip hmisplaced.length_eq.ge]
    exact hmisplaced
  · rw [← hall] at hl hr hdisjoint
    exact tasksApart_of_nodup hl hr hdisjoint
  · rw [harray]
    change _ = swapPairs p.array pairs
    rw [← hall] at hl hr hdisjoint ⊢
    exact htrace.array_eq hl hr hdisjoint ⟨p.array, tmp⟩

end phases

section sides

variable {isLeft : T → Bool} {reduction : V → T → V} {array : Nat → T} {begin_ end_ : Nat}
  {left right : V}
  {r : Result T V}

theorem Partitioned.sides_perm (h : Partitioned isLeft reduction array begin_ end_ left right r) :
    (slice r.array begin_ r.center).Perm ((slice array begin_ end_).filter isLeft) ∧
      (slice r.array r.center end_).Perm ((slice array begin_ end_).filter (fun x => !isLeft x)) := by
  obtain ⟨hleft, hright⟩ := Parts.slice_filter h.begin_le h.le_end h.on_left h.on_right
  rw [← hleft, ← hright]
  exact ⟨h.rearranges.slice_perm.filter _, h.rearranges.slice_perm.filter _⟩

theorem Partitioned.center_eq (h : Partitioned isLeft reduction array begin_ end_ left right r) :
    r.center - begin_ = (slice array begin_ end_).countP isLeft := by
  rw [List.countP_eq_length_filter, ← h.sides_perm.1.length_eq, length_slice]

variable [CommMonoid V] {f : T → V}

theorem foldl_mul (f : T → V) (v : V) (L : List T) :
    L.foldl (fun v x => v * f x) v = v * (L.map f).prod := by
  induction L generalizing v with
  | nil => exact (mul_one v).symm
  | cons x L ih => rw [List.foldl_cons, ih, List.map_cons, List.prod_cons, mul_assoc]

theorem Partitioned.left_prod
    (h : Partitioned isLeft (fun v x => v * f x) array begin_ end_ left right r) :
    r.left = left * ((slice r.array begin_ r.center).map f).prod := by
  obtain ⟨L, hL, hleft⟩ := h.left_eq
  rw [hleft, foldl_mul, (hL.map f).prod_eq]

theorem Partitioned.right_prod
    (h : Partitioned isLeft (fun v x => v * f x) array begin_ end_ left right r) :
    r.right = right * ((slice r.array r.center end_).map f).prod := by
  obtain ⟨R, hR, hright⟩ := h.right_eq
  rw [hright, foldl_mul, (hR.map f).prod_eq]

/-- Both ways of partitioning agree on everything but the order inside the sides. -/
theorem Partitioned.agree {s : Result T V}
    (h : Partitioned isLeft (fun v x => v * f x) array begin_ end_ left right r)
    (h' : Partitioned isLeft (fun v x => v * f x) array begin_ end_ left right s) :
    r.center = s.center ∧ r.left = s.left ∧ r.right = s.right := by
  have hcenter := h.center_eq.trans h'.center_eq.symm
  have hbegin := h.begin_le
  have hbegin' := h'.begin_le
  have hleft := h.sides_perm.1.trans h'.sides_perm.1.symm
  have hright := h.sides_perm.2.trans h'.sides_perm.2.symm
  refine ⟨by omega, ?_, ?_⟩
  · rw [h.left_prod, h'.left_prod, (hleft.map f).prod_eq]
  · rw [h.right_prod, h'.right_prod, (hright.map f).prod_eq]

end sides

/-- The reductions are over the elements of each side, with any commutative operation. -/
theorem parallelPartitioning_serial [CommMonoid V] (isLeft : T → Bool) (f : T → V)
    {blockSize threadCount : Nat} (hblock : 0 < blockSize) (hthreads : 0 < threadCount)
    (array : Nat → T) {begin_ end_ : Nat} (hle : begin_ ≤ end_) (left right : V) :
    let reduction := fun v x => v * f x
    let r := parallelPartitioning isLeft reduction (· * ·) 1 blockSize threadCount array
      begin_ end_ left right
    let s := serialPartitioning isLeft reduction array begin_ end_ left right
    ((slice r.array begin_ end_).Perm (slice array begin_ end_) ∧
      (∀ i, i < begin_ ∨ end_ ≤ i → r.array i = array i) ∧
      (∀ i, begin_ ≤ i → i < r.center → isLeft (r.array i) = true) ∧
      (∀ i, r.center ≤ i → i < end_ → isLeft (r.array i) = false) ∧
      r.center = begin_ + (slice array begin_ end_).countP isLeft) ∧
    (r.left = left * ((slice r.array begin_ r.center).map f).prod ∧
      r.right = right * ((slice r.array r.center end_).map f).prod) ∧
    (r.center = s.center ∧ r.left = s.left ∧ r.right = s.right) ∧
    (blockSize ≤ end_ - begin_ →
      let n := numTasks blockSize threadCount (end_ - begin_)
      let p := firstPhase isLeft reduction 1 array begin_ end_ n
      if rangeSizes p.leftRanges = 0 then r.array = p.array
      else ∃ steps, SwapsMisplaced isLeft p begin_ end_ n steps r.array) := by
  intro reduction r s
  have hmerge : ∀ (v : V) (L : List T), v * L.foldl reduction 1 = L.foldl reduction v := by
    intro v L
    rw [foldl_mul, foldl_mul, one_mul]
  have hr : Partitioned isLeft reduction array begin_ end_ left right r :=
    parallelPartitioning_spec hmerge array left right hle hblock hthreads
  have hs : Partitioned isLeft reduction array begin_ end_ left right s :=
    serialPartitioning_spec isLeft reduction array left right hle
  have hcenter := hr.center_eq
  have hbegin := hr.begin_le
  refine ⟨⟨hr.rearranges.slice_perm, fun i hi => hr.rearranges.outside hi, hr.on_left,
    hr.on_right, by omega⟩, ⟨hr.left_prod, hr.right_prod⟩, hr.agree hs, ?_⟩
  intro hsize n p
  have hpartition : r = partition isLeft reduction (· * ·) 1 array begin_ end_ n left right :=
    if_neg (Nat.not_lt.2 hsize)
  have hn : 0 < n := by
    have hblocks : 0 < (end_ - begin_ + blockSize - 1) / blockSize := Nat.div_pos (by omega) hblock
    have hmax : 0 < maxTasks := by decide
    exact Nat.lt_min.2 ⟨hblocks, Nat.lt_min.2 ⟨hthreads, hmax⟩⟩
  rw [hpartition]
  by_cases hzero : rangeSizes p.leftRanges = 0
  · rw [if_pos hzero]
    exact congrArg Result.array (if_pos hzero)
  · rw [if_neg hzero]
    exact firstPhase_swaps array left right hle hn hzero

/-- Two elements for the right come before two for the left, one task has each pair. -/
theorem parallelPartitioning_serial_four :
    let r := parallelPartitioning (fun x => x = 0) (fun v x => v * (x + 2)) (· * ·) 1 1 2
      (fun i => if i < 2 then 1 else 0) 0 4 1 1
    r.center = 2 ∧ r.left = 4 ∧ r.right = 9 ∧
      ∃ steps, SwapsMisplaced (fun x => x = 0) (firstPhase (fun x => x = 0) (fun v x => v * (x + 2)) 1
        (fun i => if i < 2 then 1 else 0) 0 4 2) 0 4 2 steps r.array := by
  obtain ⟨⟨-, -, hleft, hright, hcenter⟩, ⟨hprod, hprod'⟩, -, hswap⟩ :=
    parallelPartitioning_serial (fun x => decide (x = 0)) (fun x => x + 2) (by decide : 0 < 1)
      (by decide : 0 < 2) (fun i => if i < 2 then 1 else 0) (by decide : 0 ≤ 4) 1 1
  exact ⟨hcenter, by decide, by decide, hswap (by decide)⟩

end RTBuild.Partition
