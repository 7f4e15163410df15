import RTBuild.Library.Segment
import RTBuild.Library.Chunk

namespace RTBuild.Partition

open Library.Segment
open Library.Chunk (border borders_flatten border_le border_mono border_zero border_last)

variable {T V : Type}

structure Result (T V : Type) where
  array : Nat → T
  center : Nat
  left : V
  right : V

section serial

variable (isLeft : T → Bool) (reduction : V → T → V)

def scanLeft (array : Nat → T) : Nat → Nat → V → Nat × V
  | 0, l, left => (l, left)
  | n + 1, l, left =>
      if isLeft (array l) then scanLeft array n (l + 1) (reduction left (array l)) else (l, left)

def scanRight (array : Nat → T) : Nat → Nat → V → Nat × V
  | 0, e, right => (e, right)
  | n + 1, e, right =>
      if isLeft (array (e - 1)) then (e, right)
      else scanRight array n (e - 1) (reduction right (array (e - 1)))

def partitionLoop : Nat → (Nat → T) → Nat → Nat → V → V → Result T V
  | 0, array, l, _, left, right => ⟨array, l, left, right⟩
  | fuel + 1, array, l, e, left, right =>
      let (l, left) := scanLeft isLeft reduction array (e - l) l left
      let (e, right) := scanRight isLeft reduction array (e - l) e right
      if e ≤ l then ⟨array, l, left, right⟩
      else
        partitionLoop fuel (swap array l (e - 1)) (l + 1) (e - 1) (reduction left (array (e - 1)))
          (reduction right (array l))

/-- Every turn of the loop takes elements away from the range, so its size bounds the turns. -/
def serialPartitioning (array : Nat → T) (begin_ end_ : Nat) (left right : V) : Result T V :=
  partitionLoop isLeft reduction (end_ - begin_) array begin_ end_ left right

/-- What partitioning a range is to do, with the reductions in any order. -/
structure Partitioned (array : Nat → T) (begin_ end_ : Nat) (left right : V)
    (r : Result T V) : Prop where
  rearranges : Rearranges begin_ end_ array r.array
  begin_le : begin_ ≤ r.center
  le_end : r.center ≤ end_
  on_left : ∀ i, begin_ ≤ i → i < r.center → isLeft (r.array i) = true
  on_right : ∀ i, r.center ≤ i → i < end_ → isLeft (r.array i) = false
  left_eq : ∃ L : List T, L.Perm (slice r.array begin_ r.center) ∧ r.left = L.foldl reduction left
  right_eq : ∃ L : List T, L.Perm (slice r.array r.center end_) ∧ r.right = L.foldl reduction right

theorem scanLeft_spec (array : Nat → T) (n l : Nat) (left : V) :
    ∃ l', scanLeft isLeft reduction array n l left = (l', (slice array l l').foldl reduction left) ∧
      l ≤ l' ∧ l' ≤ l + n ∧ (∀ i, l ≤ i → i < l' → isLeft (array i) = true) ∧
      (l' < l + n → isLeft (array l') = false) := by
  induction n generalizing l left with
  | zero => exact ⟨l, by simp [scanLeft, slice], le_rfl, le_rfl, by omega, by omega⟩
  | succ n ih =>
      rw [scanLeft]
      by_cases h : isLeft (array l) = true
      · obtain ⟨l', heq, hle, hle', hall, hstop⟩ := ih (l + 1) (reduction left (array l))
        refine ⟨l', ?_, by omega, by omega, ?_, fun hlt => hstop (by omega)⟩
        · rw [if_pos h, heq, slice_cons array (show l < l' by omega), List.foldl_cons]
        · intro i hi hi'
          by_cases hil : i = l
          · exact hil ▸ h
          · exact hall i (by omega) hi'
      · refine ⟨l, ?_, le_rfl, by omega, by omega, fun _ => by simpa using h⟩
        rw [if_neg h, slice_eq_nil array le_rfl, List.foldl_nil]

theorem scanRight_spec (array : Nat → T) (n e : Nat) (right : V) (hn : n ≤ e) :
    ∃ e', scanRight isLeft reduction array n e right = (e',
      (slice array e' e).reverse.foldl reduction right) ∧
      e - n ≤ e' ∧ e' ≤ e ∧ (∀ i, e' ≤ i → i < e → isLeft (array i) = false) ∧
      (e - n < e' → isLeft (array (e' - 1)) = true) := by
  induction n generalizing e right with
  | zero => exact ⟨e, by simp [scanRight, slice], le_rfl, le_rfl, by omega, by omega⟩
  | succ n ih =>
      rw [scanRight]
      by_cases h : isLeft (array (e - 1)) = true
      · refine ⟨e, ?_, by omega, le_rfl, by omega, fun _ => h⟩
        rw [if_pos h, slice_eq_nil array le_rfl, List.reverse_nil, List.foldl_nil]
      · obtain ⟨e', heq, hle, hle', hall, hstop⟩ :=
          ih (e - 1) (reduction right (array (e - 1))) (by omega)
        refine ⟨e', ?_, by omega, by omega, ?_, fun hlt => hstop (by omega)⟩
        · rw [if_neg h, heq, slice_concat array (show e' < e by omega), List.reverse_append]
          rfl
        · intro i hi hi'
          by_cases hie : i = e - 1
          · subst hie
            simpa using h
          · exact hall i hi (by omega)

variable {isLeft reduction} in
/-- One turn: the elements that the scans pass stay, the next two change places,
and the turns that follow partition what lies between them. -/
theorem Partitioned.widen {array : Nat → T} {l e l' e' : Nat} {left right : V} {r : Result T V}
    (hl : l ≤ l') (hlt : l' + 1 < e') (he : e' ≤ e)
    (hleft : ∀ i, l ≤ i → i < l' → isLeft (array i) = true)
    (hright : ∀ i, e' ≤ i → i < e → isLeft (array i) = false)
    (hl' : isLeft (array l') = false) (he' : isLeft (array (e' - 1)) = true)
    (h : Partitioned isLeft reduction (swap array l' (e' - 1)) (l' + 1) (e' - 1)
      (reduction ((slice array l l').foldl reduction left) (array (e' - 1)))
      (reduction ((slice array e' e).reverse.foldl reduction right) (array l')) r) :
    Partitioned isLeft reduction array l e left right r := by
  have hbegin := h.begin_le
  have hend := h.le_end
  have hout : ∀ i, i < l' + 1 ∨ e' - 1 ≤ i → r.array i = swap array l' (e' - 1) i :=
    fun i hi => h.rearranges.outside hi
  have hkeep : ∀ i, i < l' ∨ e' ≤ i → r.array i = array i := by
    intro i hi
    rw [hout i (by omega), swap_of_ne array (by omega) (by omega)]
  have hfirst : r.array l' = array (e' - 1) := by rw [hout l' (by omega), swap_left]
  have hlast : r.array (e' - 1) = array l' := by rw [hout (e' - 1) (by omega), swap_right]
  refine ⟨?_, by omega, by omega, ?_, ?_, ?_, ?_⟩
  · exact (Rearranges.swap array (by omega) (by omega)).trans (h.rearranges.mono (by omega) (by omega))
  · intro i hi hi'
    rcases lt_trichotomy i l' with hcase | rfl | hcase
    · exact hkeep i (Or.inl hcase) ▸ hleft i hi hcase
    · exact hfirst ▸ he'
    · exact h.on_left i (by omega) hi'
  · intro i hi hi'
    rcases lt_trichotomy i (e' - 1) with hcase | rfl | hcase
    · exact h.on_right i hi hcase
    · exact hlast ▸ hl'
    · exact hkeep i (Or.inr (by omega)) ▸ hright i (by omega) hi'
  · obtain ⟨L, hL, hleq⟩ := h.left_eq
    refine ⟨slice array l l' ++ array (e' - 1) :: L, ?_, ?_⟩
    · rw [← slice_append r.array hl (show l' ≤ r.center by omega),
        slice_cons r.array (show l' < r.center by omega), hfirst,
        slice_congr (fun i _ hi' => (hkeep i (Or.inl hi')).symm)]
      exact (hL.cons _).append_left _
    · rw [hleq, List.foldl_append, List.foldl_cons]
  · obtain ⟨L, hL, hreq⟩ := h.right_eq
    refine ⟨(slice array e' e).reverse ++ array l' :: L, ?_, ?_⟩
    · rw [← slice_append r.array (show r.center ≤ e' - 1 by omega) (show e' - 1 ≤ e by omega),
        slice_cons r.array (show e' - 1 < e by omega), hlast, Nat.sub_add_cancel (by omega),
        slice_congr (fun i hi _ => (hkeep i (Or.inr hi)).symm)]
      exact ((List.reverse_perm _).append (hL.cons _)).trans
        (List.perm_append_comm.trans (List.perm_middle.symm))
    · rw [hreq, List.foldl_append, List.foldl_cons]

theorem partitionLoop_spec (fuel : Nat) (array : Nat → T) (l e : Nat) (left right : V) (hle : l ≤ e)
    (hfuel : e - l ≤ fuel) :
    Partitioned isLeft reduction array l e left right
      (partitionLoop isLeft reduction fuel array l e left right) := by
  induction fuel generalizing array l e left right with
  | zero =>
      have hle' : e = l := by omega
      subst hle'
      exact ⟨.refl _ _ _, le_rfl, le_rfl, by simp [partitionLoop]; omega, by simp [partitionLoop]; omega,
        ⟨[], by simp [partitionLoop, slice], rfl⟩, ⟨[], by simp [partitionLoop, slice], rfl⟩⟩
  | succ fuel ih =>
      obtain ⟨l', hscan, hl, hl', hleft, hstop⟩ := scanLeft_spec isLeft reduction array (e - l) l left
      obtain ⟨e', hscan', he, he', hright, hstop'⟩ := scanRight_spec isLeft reduction array (e - l')
        e right (Nat.sub_le _ _)
      simp only [partitionLoop, hscan, hscan']
      by_cases hdone : e' ≤ l'
      · have hsame : e' = l' := by omega
        subst hsame
        rw [if_pos le_rfl]
        exact ⟨.refl _ _ _, hl, he', hleft, hright, ⟨_, .refl _, rfl⟩, ⟨_, List.reverse_perm _, rfl⟩⟩
      · have hl0 := hstop (by omega)
        have he0 := hstop' (by omega)
        have hne : l' ≠ e' - 1 := by
          intro h
          rw [h, he0] at hl0
          exact Bool.noConfusion hl0
        rw [if_neg hdone]
        exact (ih _ _ _ _ _ (by omega) (by omega)).widen hl (by omega) he' hleft hright hl0 he0

theorem serialPartitioning_spec (array : Nat → T) {begin_ end_ : Nat} (left right : V)
    (h : begin_ ≤ end_) :
    Partitioned isLeft reduction array begin_ end_ left right
      (serialPartitioning isLeft reduction array begin_ end_ left right) :=
  partitionLoop_spec isLeft reduction _ array begin_ end_ left right h le_rfl

end serial

section parallel

/-- A place in a list of ranges: the next index, how much is left of its range, and the ranges after
it. -/
structure Cursor where
  pos : Nat
  left : Nat
  rest : List (Nat × Nat)

def Cursor.next (c : Cursor) : Cursor :=
  match c.rest with
  | [] => c
  | r :: rest => ⟨r.1, r.2 - r.1, rest⟩

def findStartRange : Nat → List (Nat × Nat) → Cursor
  | _, [] => ⟨0, 0, []⟩
  | index, r :: rs =>
      if r.2 - r.1 ≤ index then findStartRange (index - (r.2 - r.1)) rs
      else ⟨r.1 + index, r.2 - r.1 - index, rs⟩

def exchange : Nat → (Nat → T) → Nat → Nat → (Nat → T)
  | 0, array, _, _ => array
  | items + 1, array, l, r => exchange items (swap array l r) (l + 1) (r + 1)

def swapLoop : Nat → (Nat → T) → Nat → Cursor → Cursor → Nat → (Nat → T)
  | 0, array, _, _, _, _ => array
  | fuel + 1, array, size, l, r, items =>
      if size = 0 then array
      else
        let (l, items) := if l.left = 0 then (l.next, min size (min l.next.left r.left)) else (l, items)
        let (r, items) := if r.left = 0 then (r.next, min size (min l.left r.next.left)) else (r, items)
        swapLoop fuel (exchange items array l.pos r.pos) (size - items)
          ⟨l.pos + items, l.left - items, l.rest⟩ ⟨r.pos + items, r.left - items, r.rest⟩ 0

def swapItemsInMisplacedRanges (array : Nat → T) (leftRanges rightRanges : List (Nat × Nat))
    (startID endID : Nat) : Nat → T :=
  let l := findStartRange startID leftRanges
  let r := findStartRange startID rightRanges
  let size := endID - startID
  swapLoop size array size l r (min size (min l.left r.left))

/-- What a task of the first phase leaves: its range, the border inside it, and its reductions. -/
structure Part (V : Type) where
  start : Nat
  mid : Nat
  stop : Nat
  left : V
  right : V

def intersect (r s : Nat × Nat) : Nat × Nat := (max r.1 s.1, min r.2 s.2)

def misplaced (r : Nat × Nat) (ranges : List (Nat × Nat)) : List (Nat × Nat) :=
  (ranges.map (intersect r)).filter (fun s => s.1 < s.2)

def rangeSizes (ranges : List (Nat × Nat)) : Nat := (ranges.map (fun s => s.2 - s.1)).sum

variable (isLeft : T → Bool) (reduction : V → T → V) (reductionV : V → V → V) (identity : V)

def partitionTasks (start : Nat → Nat) : (Nat → T) → List Nat → (Nat → T) × List (Part V)
  | array, [] => (array, [])
  | array, taskID :: tasks =>
      let r := serialPartitioning isLeft reduction array (start taskID)
        (start (taskID + 1)) identity identity
      let (array, parts) := partitionTasks start r.array tasks
      (array, ⟨start taskID, r.center, start (taskID + 1), r.left, r.right⟩ :: parts)

def partition (array : Nat → T) (begin_ end_ numTasks : Nat) (left right : V) : Result T V :=
  let (array, parts) := partitionTasks isLeft reduction identity
    (fun i => begin_ + border (end_ - begin_) numTasks i) array (List.range numTasks)
  let left := parts.foldl (fun v part => reductionV v part.left) left
  let right := parts.foldl (fun v part => reductionV v part.right) right
  let mid := begin_ + (parts.map (fun part => part.mid - part.start)).sum
  let leftRanges := misplaced (begin_, mid) (parts.map (fun part => (part.mid, part.stop)))
  let rightRanges := misplaced (mid, end_) (parts.map (fun part => (part.start, part.mid)))
  let numMisplaced := rangeSizes leftRanges
  if numMisplaced = 0 then ⟨array, mid, left, right⟩
  else
    let array := (List.range numTasks).foldl (fun array taskID =>
      swapItemsInMisplacedRanges array leftRanges rightRanges (border numMisplaced numTasks taskID)
        (border numMisplaced numTasks (taskID + 1))) array
    ⟨array, mid, left, right⟩

def maxTasks : Nat := 64

def parallelPartitioning (blockSize threadCount : Nat) (array : Nat → T) (begin_ end_ : Nat)
    (left right : V) :
    Result T V :=
  if end_ - begin_ < blockSize then serialPartitioning isLeft reduction array begin_ end_ left right
  else
    partition isLeft reduction reductionV identity array begin_ end_
      (min ((end_ - begin_ + blockSize - 1) / blockSize) (min threadCount maxTasks)) left right

def indices (ranges : List (Nat × Nat)) : List Nat :=
  ranges.flatMap (fun r => List.range' r.1 (r.2 - r.1))

def Cursor.indices (c : Cursor) : List Nat := List.range' c.pos c.left ++ Partition.indices c.rest

def swapPairs (array : Nat → T) (pairs : List (Nat × Nat)) : Nat → T :=
  pairs.foldl (fun array p => swap array p.1 p.2) array

@[simp] theorem indices_nil : indices [] = [] := rfl

@[simp] theorem indices_cons (r : Nat × Nat) (rs : List (Nat × Nat)) :
    indices (r :: rs) = List.range' r.1 (r.2 - r.1) ++ indices rs := rfl

theorem length_indices (ranges : List (Nat × Nat)) : (indices ranges).length = rangeSizes ranges := by
  simp [indices, rangeSizes, List.length_flatMap]

@[simp] theorem swapPairs_nil (array : Nat → T) : swapPairs array [] = array := rfl

theorem swapPairs_append (array : Nat → T) (ps qs : List (Nat × Nat)) :
    swapPairs array (ps ++ qs) = swapPairs (swapPairs array ps) qs := List.foldl_append

theorem exchange_eq (items : Nat) (array : Nat → T) (l r : Nat) :
    exchange items array l r = swapPairs array ((List.range' l items).zip (List.range' r items)) := by
  induction items generalizing array l r with
  | zero => rfl
  | succ items ih => rw [exchange, ih, List.range'_succ, List.range'_succ]; rfl

theorem findStartRange_spec (index : Nat) (ranges : List (Nat × Nat))
    (hranges : ∀ r ∈ ranges, r.1 < r.2) :
    (findStartRange index ranges).indices = (indices ranges).drop index ∧
      ∀ r ∈ (findStartRange index ranges).rest, r.1 < r.2 := by
  induction ranges generalizing index with
  | nil => simp [findStartRange, Cursor.indices]
  | cons r rs ih =>
      rw [findStartRange]
      by_cases h : r.2 - r.1 ≤ index
      · obtain ⟨heq, hrest⟩ :=
          ih (index - (r.2 - r.1)) (fun s hs => hranges s (List.mem_cons_of_mem _ hs))
        rw [if_pos h]
        refine ⟨?_, hrest⟩
        have hnone : (List.range' r.1 (r.2 - r.1)).drop index = [] :=
          List.drop_eq_nil_of_le (by simpa using h)
        rw [heq, indices_cons, List.drop_append, hnone, List.length_range', List.nil_append]
      · rw [if_neg h]
        refine ⟨?_, fun s hs => hranges s (List.mem_cons_of_mem _ hs)⟩
        simp only [Cursor.indices, indices_cons]
        rw [List.drop_append_of_le_length (by simp; omega), List.drop_range']
        simp

def Cursor.Good (c : Cursor) : Prop := ∀ r ∈ c.rest, r.1 < r.2

def Cursor.refill (c : Cursor) : Cursor := if c.left = 0 then c.next else c

theorem Cursor.Good.refill {c : Cursor} (h : c.Good) (hne : c.indices ≠ []) :
    c.refill.indices = c.indices ∧ 0 < c.refill.left ∧ c.refill.Good := by
  obtain ⟨pos, left, rest⟩ := c
  rw [Cursor.refill]
  by_cases hleft : left = 0
  · subst hleft
    cases rest with
    | nil => simp [Cursor.indices] at hne
    | cons r rest =>
        have hr := h r (List.mem_cons_self ..)
        refine ⟨by simp [Cursor.indices, Cursor.next], ?_, fun s hs => h s (List.mem_cons_of_mem _ hs)⟩
        simp only [Cursor.next, if_true]
        omega
  · rw [if_neg hleft]
    exact ⟨rfl, Nat.pos_of_ne_zero hleft, h⟩

theorem indices_split (pos left items : Nat) (rest : List (Nat × Nat)) (h : items ≤ left) :
    (Cursor.mk pos left rest).indices =
      List.range' pos items ++ (Cursor.mk (pos + items) (left - items) rest).indices := by
  have hleft : left = items + (left - items) := by omega
  simp only [Cursor.indices]
  rw [← List.append_assoc, List.range'_append_1, ← hleft]

theorem swapLoop_succ (fuel : Nat) (array : Nat → T) {size : Nat} (l r : Cursor) (hsize : size ≠ 0) :
    swapLoop (fuel + 1) array size l r (min size (min l.left r.left)) =
      let items := min size (min l.refill.left r.refill.left)
      swapLoop fuel (exchange items array l.refill.pos r.refill.pos) (size - items)
        ⟨l.refill.pos + items, l.refill.left - items, l.refill.rest⟩
        ⟨r.refill.pos + items, r.refill.left - items, r.refill.rest⟩ 0 := by
  rw [swapLoop, if_neg hsize]
  by_cases hl : l.left = 0 <;> by_cases hr : r.left = 0 <;> simp [Cursor.refill, hl, hr]

/-- The loop exchanges the elements of the two index lists pairwise. -/
theorem swapLoop_eq (fuel : Nat) (array : Nat → T) {size : Nat} {l r : Cursor} (hl : l.Good)
    (hr : r.Good) (hsizel : size ≤ l.indices.length) (hsizer : size ≤ r.indices.length)
    (hfuel : size ≤ fuel) {items : Nat} (hitems : items = min size (min l.left r.left)) :
    swapLoop fuel array size l r items = swapPairs array ((l.indices.zip r.indices).take size) := by
  induction fuel generalizing array size l r items with
  | zero =>
      have hzero : size = 0 := by omega
      subst hzero
      rfl
  | succ fuel ih =>
      by_cases hsize : size = 0
      · subst hsize
        rw [swapLoop, if_pos rfl]
        rfl
      · have hnel : l.indices ≠ [] := by
          intro h
          rw [h, List.length_nil] at hsizel
          omega
        have hner : r.indices ≠ [] := by
          intro h
          rw [h, List.length_nil] at hsizer
          omega
        obtain ⟨hl', hposl, hgoodl⟩ := hl.refill hnel
        obtain ⟨hr', hposr, hgoodr⟩ := hr.refill hner
        rw [hitems, swapLoop_succ fuel array l r hsize]
        -- the cursors after the refill are what matters from here on
        generalize l.refill = c at *
        generalize r.refill = d at *
        obtain ⟨pos, left, rest⟩ := c
        obtain ⟨pos', left', rest'⟩ := d
        simp only at hposl hposr
        generalize hk : min size (min left left') = k
        have hkl : k ≤ left := by omega
        have hkr : k ≤ left' := by omega
        have hks : k ≤ size := by omega
        rw [← hl', indices_split pos left k rest hkl] at hsizel ⊢
        rw [← hr', indices_split pos' left' k rest' hkr] at hsizer ⊢
        rw [List.length_append, List.length_range'] at hsizel hsizer
        have hgoodl' : (Cursor.mk (pos + k) (left - k) rest).Good := hgoodl
        have hgoodr' : (Cursor.mk (pos' + k) (left' - k) rest').Good := hgoodr
        have hitems' : 0 = min (size - k) (min (left - k) (left' - k)) := by omega
        have hfirst : ((List.range' pos k).zip (List.range' pos' k)).take size =
            (List.range' pos k).zip (List.range' pos' k) := List.take_of_length_le (by simpa using hks)
        have hlength : ((List.range' pos k).zip (List.range' pos' k)).length = k := by simp
        simp only
        rw [ih _ hgoodl' hgoodr' (by omega) (by omega) (by omega) hitems', exchange_eq,
          ← swapPairs_append, List.zip_append (by simp), List.take_append, hfirst, hlength]

theorem swapItems_eq (array : Nat → T) {leftRanges rightRanges : List (Nat × Nat)} {startID endID : Nat}
    (hl : ∀ r ∈ leftRanges, r.1 < r.2) (hr : ∀ r ∈ rightRanges, r.1 < r.2)
    (hendl : endID ≤ (indices leftRanges).length) (hendr : endID ≤ (indices rightRanges).length) :
    swapItemsInMisplacedRanges array leftRanges rightRanges startID endID =
      swapPairs array
        (Library.Chunk.slice ((indices leftRanges).zip (indices rightRanges)) startID endID) := by
  obtain ⟨hleq, hlgood⟩ := findStartRange_spec startID leftRanges hl
  obtain ⟨hreq, hrgood⟩ := findStartRange_spec startID rightRanges hr
  have hsizel : endID - startID ≤ (findStartRange startID leftRanges).indices.length := by
    rw [hleq, List.length_drop]
    omega
  have hsizer : endID - startID ≤ (findStartRange startID rightRanges).indices.length := by
    rw [hreq, List.length_drop]
    omega
  have hdrop : ((indices leftRanges).zip (indices rightRanges)).drop startID =
      ((indices leftRanges).drop startID).zip ((indices rightRanges).drop startID) := List.drop_zipWith
  rw [swapItemsInMisplacedRanges, swapLoop_eq _ array hlgood hrgood hsizel hsizer le_rfl rfl, hleq, hreq,
    Library.Chunk.slice, hdrop]

/-- The second parallel_for as a whole exchanges all misplaced elements pairwise. -/
theorem swapTasks_eq (array : Nat → T) {leftRanges rightRanges : List (Nat × Nat)} {numTasks : Nat}
    (htasks : 0 < numTasks) (hl : ∀ r ∈ leftRanges, r.1 < r.2) (hr : ∀ r ∈ rightRanges, r.1 < r.2)
    (hlength : (indices leftRanges).length = (indices rightRanges).length) :
    (List.range numTasks).foldl (fun array taskID =>
      swapItemsInMisplacedRanges array leftRanges rightRanges
        (border (rangeSizes leftRanges) numTasks taskID)
        (border (rangeSizes leftRanges) numTasks (taskID + 1))) array =
      swapPairs array ((indices leftRanges).zip (indices rightRanges)) := by
  have hzip : ((indices leftRanges).zip (indices rightRanges)).length = rangeSizes leftRanges := by
    rw [List.length_zip, ← hlength, length_indices, Nat.min_self]
  have hchunks := borders_flatten ((indices leftRanges).zip (indices rightRanges)) htasks
  rw [hzip] at hchunks
  have hfold : ∀ tasks : List Nat, (∀ t ∈ tasks, t < numTasks) → ∀ array : Nat → T,
      tasks.foldl (fun array taskID =>
        swapItemsInMisplacedRanges array leftRanges rightRanges
          (border (rangeSizes leftRanges) numTasks taskID)
          (border (rangeSizes leftRanges) numTasks (taskID + 1))) array =
      swapPairs array
        (tasks.map (fun i => Library.Chunk.slice ((indices leftRanges).zip (indices rightRanges))
        (border (rangeSizes leftRanges) numTasks i)
          (border (rangeSizes leftRanges) numTasks (i + 1)))).flatten := by
    intro tasks
    induction tasks with
    | nil => exact fun _ _ => rfl
    | cons t tasks ih =>
        intro hlt array
        have hborder :=
          border_le (rangeSizes leftRanges) (Nat.succ_le_of_lt (hlt t (List.mem_cons_self ..)))
        rw [← length_indices] at hborder
        rw [List.foldl_cons, ih (fun u hu => hlt u (List.mem_cons_of_mem _ hu)), List.map_cons,
          List.flatten_cons, swapPairs_append,
          swapItems_eq array hl hr (by rw [← length_indices]; exact hborder)
            (by rw [← hlength, ← length_indices]; exact hborder)]
  rw [hfold _ (fun t ht => List.mem_range.1 ht), hchunks]

theorem swapPairs_of_notMem (array : Nat → T) {pairs : List (Nat × Nat)} {k : Nat}
    (hl : k ∉ pairs.map Prod.fst) (hr : k ∉ pairs.map Prod.snd) : swapPairs array pairs k = array k := by
  induction pairs generalizing array with
  | nil => rfl
  | cons p pairs ih =>
      simp only [List.map_cons, List.mem_cons, not_or] at hl hr
      rw [swapPairs, List.foldl_cons, ← swapPairs, ih _ hl.2 hr.2, swap_of_ne array hl.1 hr.1]

/-- Pairs without a common index are exchanged independently of each other. -/
theorem swapPairs_of_mem (array : Nat → T) {pairs : List (Nat × Nat)}
    (hl : (pairs.map Prod.fst).Nodup) (hr : (pairs.map Prod.snd).Nodup)
    (hdisjoint : ∀ p ∈ pairs, ∀ q ∈ pairs, p.1 ≠ q.2) {p : Nat × Nat} (hp : p ∈ pairs) :
    swapPairs array pairs p.1 = array p.2 ∧ swapPairs array pairs p.2 = array p.1 := by
  induction pairs generalizing array with
  | nil => exact absurd hp List.not_mem_nil
  | cons q pairs ih =>
      rw [List.map_cons, List.nodup_cons] at hl hr
      have hdisjoint' : ∀ p ∈ pairs, ∀ q ∈ pairs, p.1 ≠ q.2 := fun p hp q hq =>
        hdisjoint p (List.mem_cons_of_mem _ hp) q (List.mem_cons_of_mem _ hq)
      rw [swapPairs, List.foldl_cons, ← swapPairs]
      rcases List.mem_cons.1 hp with rfl | hp'
      · have hfst : p.1 ∉ pairs.map Prod.snd := by
          intro h
          obtain ⟨r, hr', heq⟩ := List.mem_map.1 h
          exact hdisjoint p (List.mem_cons_self ..) r (List.mem_cons_of_mem _ hr') heq.symm
        have hsnd : p.2 ∉ pairs.map Prod.fst := by
          intro h
          obtain ⟨r, hr', heq⟩ := List.mem_map.1 h
          exact hdisjoint r (List.mem_cons_of_mem _ hr') p (List.mem_cons_self ..) heq
        exact ⟨(swapPairs_of_notMem _ hl.1 hfst).trans (swap_left ..),
          (swapPairs_of_notMem _ hsnd hr.1).trans (swap_right ..)⟩
      · obtain ⟨h1, h2⟩ := ih (swap array q.1 q.2) hl.2 hr.2 hdisjoint' hp'
        have hne1 : p.1 ≠ q.1 := fun h => hl.1 (List.mem_map.2 ⟨p, hp', h⟩)
        have hne2 : p.2 ≠ q.2 := fun h => hr.1 (List.mem_map.2 ⟨p, hp', h⟩)
        have hne12 : p.1 ≠ q.2 := hdisjoint p hp q (List.mem_cons_self ..)
        have hne21 : p.2 ≠ q.1 := (hdisjoint q (List.mem_cons_self ..) p hp).symm
        exact ⟨h1.trans (swap_of_ne _ hne21 hne2), h2.trans (swap_of_ne _ hne1 hne12)⟩

theorem swapPairs_rearranges (array : Nat → T) {lo hi : Nat} {pairs : List (Nat × Nat)}
    (h : ∀ p ∈ pairs, (lo ≤ p.1 ∧ p.1 < hi) ∧ lo ≤ p.2 ∧ p.2 < hi) :
    Rearranges lo hi array (swapPairs array pairs) := by
  induction pairs generalizing array with
  | nil => exact .refl _ _ _
  | cons p pairs ih =>
      have hp := h p (List.mem_cons_self ..)
      exact (Rearranges.swap array hp.1 hp.2).trans (ih _ (fun q hq => h q (List.mem_cons_of_mem _ hq)))

inductive Parts (array : Nat → T) : Nat → List (Part V) → Nat → Prop
  | nil (lo : Nat) : Parts array lo [] lo
  | cons (part : Part V) {parts : List (Part V)} {hi : Nat} (hmid : part.start ≤ part.mid)
      (hstop : part.mid ≤ part.stop) (hleft : ∀ i, part.start ≤ i → i < part.mid →
        isLeft (array i) = true)
      (hright : ∀ i, part.mid ≤ i → i < part.stop → isLeft (array i) = false)
      (hleft_eq : ∃ L : List T, L.Perm (slice array part.start part.mid) ∧
        part.left = L.foldl reduction identity)
      (hright_eq : ∃ L : List T, L.Perm (slice array part.mid part.stop) ∧
        part.right = L.foldl reduction identity)
      (hrest : Parts array part.stop parts hi) : Parts array part.start (part :: parts) hi

theorem partitionTasks_spec {start : Nat → Nat} (hstart : ∀ i, start i ≤ start (i + 1)) (array : Nat → T)
    (t n : Nat) :
    Rearranges (start t) (start (t + n)) array
        (partitionTasks isLeft reduction identity start array (List.range' t n)).1 ∧
      Parts isLeft reduction identity
        (partitionTasks isLeft reduction identity start array (List.range' t n)).1
        (start t) (partitionTasks isLeft reduction identity start array (List.range' t n)).2
          (start (t + n)) := by
  induction n generalizing array t with
  | zero => exact ⟨.refl _ _ _, .nil _⟩
  | succ n ih =>
      have hr := serialPartitioning_spec isLeft reduction array identity identity (hstart t)
      rw [List.range'_succ, partitionTasks]
      generalize serialPartitioning isLeft reduction array (start t) (start
        (t + 1)) identity identity = r at *
      obtain ⟨hrest, hparts⟩ := ih r.array (t + 1)
      have hmono : start (t + 1) ≤ start (t + 1 + n) :=
        monotone_nat_of_le_succ hstart (Nat.le_add_right _ _)
      have hsame := fun i hi => @Rearranges.outside _ _ _ _ _ hrest i (Or.inl hi)
      have hbegin := hr.begin_le
      have hend := hr.le_end
      have hfirst := hstart t
      rw [← Nat.add_assoc, Nat.add_right_comm]
      refine ⟨(hr.rearranges.mono le_rfl hmono).trans (hrest.mono hfirst le_rfl), ?_⟩
      refine .cons ⟨start t, r.center, start (t + 1), r.left,
        r.right⟩ hr.begin_le hr.le_end ?_ ?_ ?_ ?_ hparts
      · intro i hi hi'
        rw [hsame i (show i < start (t + 1) from lt_of_lt_of_le hi' hend)]
        exact hr.on_left i hi hi'
      · intro i hi hi'
        rw [hsame i hi']
        exact hr.on_right i hi hi'
      · obtain ⟨L, hL, hleft⟩ := hr.left_eq
        refine ⟨L, hL.trans (List.Perm.of_eq (slice_congr fun i _ hi' => ?_)), hleft⟩
        exact (hsame i (lt_of_lt_of_le hi' hend)).symm
      · obtain ⟨L, hL, hright⟩ := hr.right_eq
        exact ⟨L, hL.trans (List.Perm.of_eq (slice_congr fun i _ hi' => (hsame i hi').symm)), hright⟩

variable {isLeft reduction reductionV identity}

theorem filter_range' {s t x y : Nat} {p : Nat → Bool}
    (hp : ∀ i, s ≤ i → i < t → (p i = true ↔ x ≤ i ∧ i < y)) (hx : s ≤ x) (hy : y ≤ t) :
    (List.range' s (t - s)).filter p = List.range' x (y - x) := by
  refine @List.Perm.eq_of_pairwise _ (· < ·) _ _ (fun a b _ _ hab hba => (lt_asymm hab hba).elim)
    ((List.pairwise_lt_range').filter _) List.pairwise_lt_range' ?_
  refine (List.perm_ext_iff_of_nodup (List.Nodup.filter _ List.nodup_range') List.nodup_range').2
    (fun i => ?_)
  rw [List.mem_filter, List.mem_range'_1, List.mem_range'_1]
  constructor
  · rintro ⟨hi, hpi⟩
    have hxy := (hp i hi.1 (by omega)).1 hpi
    omega
  · intro hi
    exact ⟨by omega, (hp i (by omega) (by omega)).2 (by omega)⟩

theorem indices_misplaced_cons (r s : Nat × Nat) (ranges : List (Nat × Nat)) :
    indices (misplaced r (s :: ranges)) =
      List.range' (max r.1 s.1) (min r.2 s.2 - max r.1 s.1) ++ indices (misplaced r ranges) := by
  rw [misplaced, List.map_cons, List.filter_cons]
  by_cases h : max r.1 s.1 < min r.2 s.2
  · simp [intersect, h, misplaced]
  · have hzero : min r.2 s.2 - max r.1 s.1 = 0 := by omega
    simp [intersect, h, misplaced, hzero]

theorem misplaced_nonempty (r : Nat × Nat) (ranges : List (Nat × Nat)) :
    ∀ s ∈ misplaced r ranges, s.1 < s.2 := by
  intro s hs
  simpa using (List.mem_filter.1 hs).2

namespace Parts

variable {array : Nat → T} {lo hi : Nat} {parts : List (Part V)}

theorem le (h : Parts isLeft reduction identity array lo parts hi) : lo ≤ hi := by
  induction h with
  | nil => exact le_rfl
  | cons part hmid hstop _ _ _ _ _ ih => exact (hmid.trans hstop).trans ih

theorem filter_split (p : Nat → Bool) {a b c : Nat} (hab : a ≤ b) (hbc : b ≤ c) :
    (List.range' a (c - a)).filter p =
      (List.range' a (b - a)).filter p ++ (List.range' b (c - b)).filter p := by
  have hlength : c - a = (b - a) + (c - b) := by omega
  have hstart : a + (b - a) = b := by omega
  rw [hlength, ← List.range'_append_1, List.filter_append, hstart]

theorem indices_left (h : Parts isLeft reduction identity array lo parts hi) {b m : Nat} (hb : b ≤ lo) :
    indices (misplaced (b, m) (parts.map (fun part => (part.mid, part.stop)))) =
      (List.range' lo (hi - lo)).filter (fun i => i < m && !isLeft (array i)) := by
  induction h with
  | nil => simp [misplaced]
  | cons part hmid hstop hleft hright _ _ hrest ih =>
      rw [List.map_cons, indices_misplaced_cons, ih (by omega),
        filter_split _ (hmid.trans hstop) hrest.le]
      congr 1
      refine (filter_range' (fun i hi hi' => ?_) (by simp only; omega) (by simp only; omega)).symm
      by_cases hmi : part.mid ≤ i
      · simp [hright i hmi hi']
        omega
      · simp [hleft i hi (by omega)]
        omega

theorem indices_right (h : Parts isLeft reduction identity array lo parts hi) {m e : Nat} (he : hi ≤ e) :
    indices (misplaced (m, e) (parts.map (fun part => (part.start, part.mid)))) =
      (List.range' lo (hi - lo)).filter (fun i => m ≤ i && isLeft (array i)) := by
  induction h with
  | nil => simp [misplaced]
  | cons part hmid hstop hleft hright _ _ hrest ih =>
      have hle := hrest.le
      rw [List.map_cons, indices_misplaced_cons, ih he, filter_split _ (hmid.trans hstop) hle]
      congr 1
      refine (filter_range' (fun i hi hi' => ?_) (by simp only; omega) (by simp only; omega)).symm
      by_cases hmi : part.mid ≤ i
      · simp [hright i hmi hi']
        omega
      · simp [hleft i hi (by omega)]
        omega

theorem sum_left (h : Parts isLeft reduction identity array lo parts hi) :
    (parts.map (fun part => part.mid - part.start)).sum =
      ((List.range' lo (hi - lo)).filter (fun i => isLeft (array i))).length := by
  induction h with
  | nil => simp
  | cons part hmid hstop hleft hright _ _ hrest ih =>
      have hpart : (List.range' part.start (part.stop - part.start)).filter (fun i => isLeft (array i)) =
          List.range' part.start (part.mid - part.start) := by
        refine filter_range' (fun i hi hi' => ?_) le_rfl hstop
        by_cases hmi : part.mid ≤ i
        · simp [hright i hmi hi']
          omega
        · simp [hleft i hi (by omega)]
          omega
      rw [List.map_cons, List.sum_cons, ih, filter_split _ (hmid.trans hstop) hrest.le,
        List.length_append, hpart, List.length_range']

theorem slice_filter {mid : Nat} (hlo : lo ≤ mid) (hhi : mid ≤ hi)
    (hleft : ∀ i, lo ≤ i → i < mid → isLeft (array i) = true)
    (hright : ∀ i, mid ≤ i → i < hi → isLeft (array i) = false) :
    (slice array lo hi).filter isLeft = slice array lo mid ∧
      (slice array lo hi).filter (fun x => !isLeft x) = slice array mid hi := by
  have hall : ∀ x ∈ slice array lo mid, isLeft x = true := by
    intro x hx
    obtain ⟨i, hi, hi', rfl⟩ := mem_slice.1 hx
    exact hleft i hi hi'
  have hnone : ∀ x ∈ slice array mid hi, isLeft x = false := by
    intro x hx
    obtain ⟨i, hi, hi', rfl⟩ := mem_slice.1 hx
    exact hright i hi hi'
  rw [← slice_append array hlo hhi, List.filter_append, List.filter_append, List.filter_eq_self.2 hall,
    List.filter_eq_nil_iff.2 (fun x hx => by simp [hnone x hx]),
    List.filter_eq_nil_iff.2 (fun x hx => by simp [hall x hx]),
    List.filter_eq_self.2 (fun x hx => by simp [hnone x hx])]
  simp

/-- Merging the reductions of the parts reduces all their elements. -/
theorem reductions (h : Parts isLeft reduction identity array lo parts hi)
    (hmerge : ∀ (v : V) (L : List T), reductionV v (L.foldl reduction identity) = L.foldl reduction v)
    (left right : V) :
    (∃ L : List T, L.Perm ((slice array lo hi).filter isLeft) ∧
      parts.foldl (fun v part => reductionV v part.left) left = L.foldl reduction left) ∧
    ∃ L : List T, L.Perm ((slice array lo hi).filter (fun x => !isLeft x)) ∧
      parts.foldl (fun v part => reductionV v part.right) right = L.foldl reduction right := by
  induction h generalizing left right with
  | nil => exact ⟨⟨[], by simp [slice], rfl⟩, ⟨[], by simp [slice], rfl⟩⟩
  | cons part hmid hstop hleft hright hleft_eq hright_eq hrest ih =>
      obtain ⟨L, hL, hLeq⟩ := hleft_eq
      obtain ⟨R, hR, hReq⟩ := hright_eq
      obtain ⟨⟨L', hL', hLeq'⟩, R', hR', hReq'⟩ := ih (L.foldl reduction left) (R.foldl reduction right)
      obtain ⟨hfilter, hfilter'⟩ := slice_filter hmid hstop hleft hright
      rw [← slice_append array (hmid.trans hstop) hrest.le, List.filter_append, List.filter_append,
        hfilter, hfilter']
      refine ⟨⟨L ++ L', hL.append hL', ?_⟩, ⟨R ++ R', hR.append hR', ?_⟩⟩
      · rw [List.foldl_cons, hLeq, hmerge, hLeq', List.foldl_append]
      · rw [List.foldl_cons, hReq, hmerge, hReq', List.foldl_append]

end Parts

/-- The misplaced indices of both sides: equally many, without repetition, and each on the wrong side. -/
structure Misplaced (isLeft : T → Bool) (array : Nat → T) (begin_ mid end_ : Nat)
    (L R : List Nat) : Prop where
  mem_left : ∀ i, i ∈ L ↔ (begin_ ≤ i ∧ i < mid) ∧ isLeft (array i) = false
  mem_right : ∀ i, i ∈ R ↔ (mid ≤ i ∧ i < end_) ∧ isLeft (array i) = true
  nodup_left : L.Nodup
  nodup_right : R.Nodup
  length_eq : L.length = R.length

theorem Misplaced.of_filter {array : Nat → T} {begin_ mid end_ : Nat} (hbegin : begin_ ≤ mid)
    (hend : mid ≤ end_)
    (hcount : ((List.range' begin_ (end_ - begin_)).filter (fun i => isLeft (array i))).length =
      mid - begin_) :
    Misplaced isLeft array begin_ mid end_
      ((List.range' begin_ (end_ - begin_)).filter (fun i => i < mid && !isLeft (array i)))
      ((List.range' begin_ (end_ - begin_)).filter (fun i => mid ≤ i && isLeft (array i))) := by
  refine ⟨fun i => ?_, fun i => ?_, List.Nodup.filter _ List.nodup_range',
    List.Nodup.filter _ List.nodup_range', ?_⟩
  · simp only [List.mem_filter, List.mem_range'_1, Bool.and_eq_true, decide_eq_true_eq,
      Bool.not_eq_true']
    exact ⟨fun h => ⟨⟨h.1.1, h.2.1⟩, h.2.2⟩, fun h => ⟨⟨h.1.1, by omega⟩, h.1.2, h.2⟩⟩
  · simp only [List.mem_filter, List.mem_range'_1, Bool.and_eq_true, decide_eq_true_eq]
    exact ⟨fun h => ⟨⟨h.2.1, by omega⟩, h.2.2⟩, fun h => ⟨⟨by omega, by omega⟩, h.1.1, h.2⟩⟩
  · -- both numbers are what the elements for the left lack of filling the left side
    have hbelow : ∀ i ∈ List.range' begin_ (mid - begin_), i < mid := by
      intro i hi
      have := List.mem_range'_1.1 hi
      omega
    have habove : ∀ i ∈ List.range' mid (end_ - mid), mid ≤ i := fun i hi => (List.mem_range'_1.1 hi).1
    have hleft : (List.range' begin_ (mid - begin_)).filter (fun i => i < mid && !isLeft (array i)) =
        (List.range' begin_ (mid - begin_)).filter (fun i => !isLeft (array i)) :=
      List.filter_congr (fun i hi => by simp [hbelow i hi])
    have hleft' : (List.range' mid (end_ - mid)).filter (fun i => i < mid && !isLeft (array i)) = [] :=
      List.filter_eq_nil_iff.2 (fun i hi => by simp [Nat.not_lt.2 (habove i hi)])
    have hright :
        (List.range' begin_ (mid - begin_)).filter (fun i => mid ≤ i && isLeft (array i)) = [] :=
      List.filter_eq_nil_iff.2 (fun i hi => by simp [hbelow i hi])
    have hright' : (List.range' mid (end_ - mid)).filter (fun i => mid ≤ i && isLeft (array i)) =
        (List.range' mid (end_ - mid)).filter (fun i => isLeft (array i)) :=
      List.filter_congr (fun i hi => by simp [habove i hi])
    have hsum := List.length_eq_length_filter_add (l := List.range' begin_ (mid - begin_))
      (fun i => isLeft (array i))
    rw [Parts.filter_split _ hbegin hend, List.length_append] at hcount
    rw [Parts.filter_split _ hbegin hend, Parts.filter_split _ hbegin hend, hleft, hleft',
      hright, hright', List.append_nil, List.nil_append]
    rw [List.length_range'] at hsum
    omega

theorem Misplaced.swapPairs_sides {array : Nat → T} {begin_ mid end_ : Nat} {L R : List Nat}
    (h : Misplaced isLeft array begin_ mid end_ L R) :
    (∀ i, begin_ ≤ i → i < mid → isLeft (swapPairs array (L.zip R) i) = true) ∧
      ∀ i, mid ≤ i → i < end_ → isLeft (swapPairs array (L.zip R) i) = false := by
  have hfst : (L.zip R).map Prod.fst = L := List.map_fst_zip h.length_eq.le
  have hsnd : (L.zip R).map Prod.snd = R := List.map_snd_zip h.length_eq.ge
  have hdisjoint : ∀ p ∈ L.zip R, ∀ q ∈ L.zip R, p.1 ≠ q.2 := by
    intro p hp q hq
    have hp' := (h.mem_left p.1).1 (List.of_mem_zip hp).1
    have hq' := (h.mem_right q.2).1 (List.of_mem_zip hq).2
    omega
  have hpair :=
    @swapPairs_of_mem T array _ (hfst.symm ▸ h.nodup_left) (hsnd.symm ▸ h.nodup_right) hdisjoint
  constructor
  · intro i hi hi'
    by_cases hL : i ∈ L
    · obtain ⟨p, hp, rfl⟩ := List.mem_map.1 (hfst.symm ▸ hL)
      rw [(hpair hp).1]
      exact ((h.mem_right p.2).1 (List.of_mem_zip hp).2).2
    · have hR : i ∉ R := fun hR => by have := (h.mem_right i).1 hR; omega
      rw [swapPairs_of_notMem array (hfst.symm ▸ hL) (hsnd.symm ▸ hR)]
      simpa using fun hfalse => hL ((h.mem_left i).2 ⟨⟨hi, hi'⟩, hfalse⟩)
  · intro i hi hi'
    by_cases hR : i ∈ R
    · obtain ⟨p, hp, rfl⟩ := List.mem_map.1 (hsnd.symm ▸ hR)
      rw [(hpair hp).2]
      exact ((h.mem_left p.1).1 (List.of_mem_zip hp).1).2
    · have hL : i ∉ L := fun hL => by have := (h.mem_left i).1 hL; omega
      rw [swapPairs_of_notMem array (hfst.symm ▸ hL) (hsnd.symm ▸ hR)]
      simpa using fun htrue => hR ((h.mem_right i).2 ⟨⟨hi, hi'⟩, htrue⟩)

/-- What both phases together leave, from what the first one leaves. -/
theorem Parts.partitioned {array array' : Nat → T} {begin_ end_ : Nat} (left right : V)
    {parts : List (Part V)}
    (hmerge : ∀ (v : V) (L : List T), reductionV v (L.foldl reduction identity) = L.foldl reduction v)
    (h : Parts isLeft reduction identity array' begin_ parts end_)
    (hrearr : Rearranges begin_ end_ array array') {mid : Nat}
    (hmid : mid = begin_ + (parts.map (fun part => part.mid - part.start)).sum) :
    Misplaced isLeft array' begin_ mid end_
        (indices (misplaced (begin_, mid) (parts.map (fun part => (part.mid, part.stop)))))
        (indices (misplaced (mid, end_) (parts.map (fun part => (part.start, part.mid))))) ∧
      Partitioned isLeft reduction array begin_ end_ left right
        ⟨swapPairs array'
          ((indices (misplaced (begin_, mid) (parts.map (fun part => (part.mid, part.stop))))).zip
            (indices (misplaced (mid, end_) (parts.map (fun part => (part.start, part.mid)))))), mid,
          parts.foldl (fun v part => reductionV v part.left) left,
          parts.foldl (fun v part => reductionV v part.right) right⟩ := by
  have hsum := h.sum_left
  have hcount : (parts.map (fun part => part.mid - part.start)).sum ≤ end_ - begin_ := by
    rw [hsum]
    exact (List.length_filter_le _ _).trans (by simp)
  have hle := h.le
  have hmisplaced : Misplaced isLeft array' begin_ mid end_
      (indices (misplaced (begin_, mid) (parts.map (fun part => (part.mid, part.stop)))))
      (indices (misplaced (mid, end_) (parts.map (fun part => (part.start, part.mid))))) := by
    rw [h.indices_left le_rfl, h.indices_right le_rfl]
    exact .of_filter (by omega) (by omega) (by omega)
  refine ⟨hmisplaced, ?_⟩
  generalize indices (misplaced (begin_, mid) (parts.map (fun part => (part.mid, part.stop)))) = L at *
  generalize indices (misplaced (mid, end_) (parts.map (fun part => (part.start, part.mid)))) = R at *
  obtain ⟨hleft, hright⟩ := hmisplaced.swapPairs_sides
  obtain ⟨⟨K, hK, hKeq⟩, K', hK', hKeq'⟩ := h.reductions hmerge left right
  have hswap : Rearranges begin_ end_ array' (swapPairs array' (L.zip R)) := by
    refine swapPairs_rearranges array' (fun p hp => ?_)
    have hL := (hmisplaced.mem_left p.1).1 (List.of_mem_zip hp).1
    have hR := (hmisplaced.mem_right p.2).1 (List.of_mem_zip hp).2
    omega
  obtain ⟨hfilter, hfilter'⟩ :=
    Parts.slice_filter (show begin_ ≤ mid by omega) (show mid ≤ end_ by omega) hleft hright
  refine ⟨hrearr.trans hswap, by simp only; omega, by simp only; omega, hleft, hright,
    ⟨K, ?_, hKeq⟩, K', ?_, hKeq'⟩
  · exact hfilter ▸ hK.trans (hswap.slice_perm.filter _).symm
  · exact hfilter' ▸ hK'.trans (hswap.slice_perm.filter _).symm

theorem partition_spec
    (hmerge : ∀ (v : V) (L : List T), reductionV v (L.foldl reduction identity) = L.foldl reduction v)
    (array : Nat → T) {begin_ end_ numTasks : Nat} (left right : V) (hle : begin_ ≤ end_)
    (htasks : 0 < numTasks) :
    Partitioned isLeft reduction array begin_ end_ left right
      (partition isLeft reduction reductionV identity array begin_ end_ numTasks left right) := by
  have hstart : ∀ i, begin_ + border (end_ - begin_) numTasks i ≤
      begin_ + border (end_ - begin_) numTasks (i + 1) :=
    fun i => Nat.add_le_add_left (border_mono _ _ (Nat.le_succ i)) _
  obtain ⟨hrearr, hparts⟩ := partitionTasks_spec isLeft reduction identity hstart array 0 numTasks
  have hlast : begin_ + (end_ - begin_) = end_ := by omega
  rw [Nat.zero_add, border_zero, border_last _ htasks, hlast, Nat.add_zero,
    ← List.range_eq_range'] at hrearr hparts
  obtain ⟨hmisplaced, hspec⟩ := hparts.partitioned left right hmerge hrearr rfl
  rw [partition]
  by_cases hzero : rangeSizes (misplaced (begin_, begin_ + ((partitionTasks isLeft reduction identity
      (fun i => begin_ + border (end_ - begin_) numTasks i) array (List.range numTasks)).2.map
        (fun part => part.mid - part.start)).sum) ((partitionTasks isLeft reduction identity
      (fun i => begin_ + border (end_ - begin_) numTasks i) array (List.range numTasks)).2.map
        (fun part => (part.mid, part.stop)))) = 0
  · have hnil := List.eq_nil_of_length_eq_zero ((length_indices _).trans hzero)
    rw [hnil, List.zip_nil_left, swapPairs_nil] at hspec
    simpa only [if_pos hzero] using hspec
  · simpa only [if_neg hzero, swapTasks_eq _ htasks (misplaced_nonempty _ _) (misplaced_nonempty _ _)
      hmisplaced.length_eq] using hspec

theorem parallelPartitioning_spec {blockSize threadCount : Nat}
    (hmerge : ∀ (v : V) (L : List T), reductionV v (L.foldl reduction identity) = L.foldl reduction v)
    (array : Nat → T) {begin_ end_ : Nat} (left right : V) (hle : begin_ ≤ end_) (hblock : 0 < blockSize)
    (hthreads : 0 < threadCount) :
    Partitioned isLeft reduction array begin_ end_ left right
      (parallelPartitioning isLeft reduction reductionV identity blockSize threadCount array
        begin_ end_ left right) := by
  rw [parallelPartitioning]
  by_cases h : end_ - begin_ < blockSize
  · rw [if_pos h]
    exact serialPartitioning_spec isLeft reduction array left right hle
  · rw [if_neg h]
    have hblocks : 0 < (end_ - begin_ + blockSize - 1) / blockSize := Nat.div_pos (by omega) hblock
    have hmax : 0 < maxTasks := by decide
    exact partition_spec hmerge array left right hle (by omega)

end parallel

end RTBuild.Partition
