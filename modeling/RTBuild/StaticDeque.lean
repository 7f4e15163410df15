import Mathlib

namespace RTBuild

/-- static_deque<Ty,N>. The counters only grow and slots are addressed modulo N. -/
structure StaticDeque (Ty : Type) (N : Nat) where
  array : Nat → Ty
  begin_ : Nat
  end_ : Nat
  begin_le : begin_ ≤ end_
  size_le : end_ ≤ begin_ + N

namespace StaticDeque

variable {Ty : Type} {N : Nat}

def empty (array : Nat → Ty) : StaticDeque Ty N := ⟨array, 0, 0, Nat.le_refl Nat.zero, Nat.zero_le _⟩

def get (d : StaticDeque Ty N) (i : Nat) : Ty := d.array (i % N)

def set (d : StaticDeque Ty N) (i : Nat) (v : Ty) : StaticDeque Ty N :=
  { d with array := Function.update d.array (i % N) v }

def size (d : StaticDeque Ty N) : Nat := d.end_ - d.begin_

def full (d : StaticDeque Ty N) : Bool := d.size == N

/-- The operations have no value where one of their assertions fails. -/
def popFront (d : StaticDeque Ty N) : Option (Ty × StaticDeque Ty N) :=
  if h : d.begin_ < d.end_ then
    some (d.get d.begin_,
      { d with begin_ := d.begin_ + 1, begin_le := h, size_le := by have := d.size_le; omega })
  else none

def pushBack (d : StaticDeque Ty N) (v : Ty) : Option (StaticDeque Ty N) :=
  if h : d.size < N then
    some { d.set d.end_ v with
      end_ := d.end_ + 1
      begin_le := Nat.le_succ_of_le d.begin_le
      size_le := by
        simp only [size, set] at h ⊢
        omega }
  else none

def shiftUp (d : StaticDeque Ty N) : Nat → Nat → StaticDeque Ty N
  | 0, _ => d
  | n + 1, i => shiftUp (d.set i (d.get (i - 1))) n (i - 1)

def shiftDown (d : StaticDeque Ty N) : Nat → Nat → StaticDeque Ty N
  | 0, _ => d
  | n + 1, i => shiftDown (d.set (i - 1) (d.get i)) n (i + 1)

def toList (d : StaticDeque Ty N) : List Ty := (List.range' d.begin_ d.size).map d.get

@[simp] theorem end_shiftUp (d : StaticDeque Ty N) (n i : Nat) : (d.shiftUp n i).end_ = d.end_ := by
  induction n generalizing d i with
  | zero => rfl
  | succ n ih => exact ih _ _

@[simp] theorem begin_shiftDown (d : StaticDeque Ty N) (n i : Nat) :
    (d.shiftDown n i).begin_ = d.begin_ := by
  induction n generalizing d i with
  | zero => rfl
  | succ n ih => exact ih _ _

def erase (d : StaticDeque Ty N) (j : Nat) : Option (StaticDeque Ty N) :=
  if h : d.begin_ ≤ j ∧ j < d.end_ then
    have hbegin : d.begin_ + 1 ≤ d.end_ := by omega
    have hsize := d.size_le
    if j = d.begin_ then
      some { d with begin_ := d.begin_ + 1, begin_le := hbegin, size_le := by omega }
    else if j - d.begin_ < d.end_ - j - 1 then
      some { d.shiftUp (j - d.begin_) j with
        begin_ := d.begin_ + 1
        begin_le := by rwa [end_shiftUp]
        size_le := by rw [end_shiftUp]; omega }
    else
      some { d.shiftDown (d.end_ - (j + 1)) (j + 1) with
        end_ := d.end_ - 1
        begin_le := by rw [begin_shiftDown]; omega
        size_le := by rw [begin_shiftDown]; omega }
  else none

theorem get_set_self (d : StaticDeque Ty N) (i : Nat) (v : Ty) : (d.set i v).get i = v :=
  Function.update_self ..

theorem eq_of_mod_eq {i j : Nat} (hmod : i % N = j % N) (hij : i < j + N) (hji : j < i + N) : i = j := by
  have hle : ∀ {a b : Nat}, a % N = b % N → a < b + N → a ≤ b := by
    intro a b h hlt
    have hzero := Nat.sub_mod_eq_zero_of_mod_eq h
    by_contra hgt
    rw [Nat.mod_eq_of_lt (by omega)] at hzero
    omega
  exact Nat.le_antisymm (hle hmod hij) (hle hmod.symm hji)

theorem get_set_of_ne (d : StaticDeque Ty N) {i j : Nat} (v : Ty) (hne : i ≠ j) (hij : i < j + N)
    (hji : j < i + N) : (d.set j v).get i = d.get i :=
  Function.update_of_ne (fun hmod => hne (eq_of_mod_eq hmod hij hji)) ..

theorem get_shiftUp (d : StaticDeque Ty N) (low : Nat) {n i slot : Nat} (hlow : low + n ≤ i)
    (hi : i < low + N) (hslot : low ≤ slot) (hslot' : slot < low + N) :
    (d.shiftUp n i).get slot = if i < slot + n ∧ slot ≤ i then d.get (slot - 1) else d.get slot := by
  induction n generalizing d i with
  | zero => rw [shiftUp, if_neg (by omega)]
  | succ n ih =>
      rw [shiftUp, ih _ (by omega) (by omega)]
      by_cases hmoved : i - 1 < slot + n ∧ slot ≤ i - 1
      · rw [if_pos hmoved, if_pos (by omega), get_set_of_ne _ _ (by omega) (by omega) (by omega)]
      · rw [if_neg hmoved]
        by_cases hlast : slot = i
        · rw [hlast, get_set_self, if_pos (by omega)]
        · rw [get_set_of_ne _ _ hlast (by omega) (by omega), if_neg (by omega)]

theorem get_shiftDown (d : StaticDeque Ty N) (low : Nat) {n i slot : Nat} (hlow : low + 1 ≤ i)
    (hi : i + n ≤ low + N) (hslot : low ≤ slot) (hslot' : slot < low + N) :
    (d.shiftDown n i).get slot =
      if i ≤ slot + 1 ∧ slot + 1 < i + n then d.get (slot + 1) else d.get slot := by
  induction n generalizing d i with
  | zero => rw [shiftDown, if_neg (by omega)]
  | succ n ih =>
      rw [shiftDown, ih _ (by omega) (by omega)]
      by_cases hmoved : i + 1 ≤ slot + 1 ∧ slot + 1 < i + 1 + n
      · rw [if_pos hmoved, if_pos (by omega), get_set_of_ne _ _ (by omega) (by omega) (by omega)]
      · rw [if_neg hmoved]
        by_cases hfirst : slot = i - 1
        · rw [hfirst, get_set_self, if_pos (by omega)]
          congr 1
          omega
        · rw [get_set_of_ne _ _ hfirst (by omega) (by omega), if_neg (by omega)]

@[simp] theorem length_toList (d : StaticDeque Ty N) : d.toList.length = d.size := by simp [toList]

theorem getElem?_toList (d : StaticDeque Ty N) {i : Nat} (hi : i < d.size) :
    d.toList[i]? = some (d.get (d.begin_ + i)) := by
  simp [toList, hi]

@[simp] theorem toList_empty (array : Nat → Ty) : (empty array : StaticDeque Ty N).toList = [] := rfl

theorem size_le_capacity (d : StaticDeque Ty N) : d.size ≤ N := by
  have h := d.size_le
  rw [size]
  omega

theorem toList_eq {d : StaticDeque Ty N} {l : List Ty} (hsize : d.size = l.length)
    (hget : ∀ i v, l[i]? = some v → d.get (d.begin_ + i) = v) : d.toList = l := by
  refine List.ext_getElem? fun i => ?_
  rcases Nat.lt_or_ge i d.size with hi | hi
  · rw [getElem?_toList d hi, List.getElem?_eq_getElem (hsize ▸ hi)]
    rw [hget i _ (List.getElem?_eq_getElem (hsize ▸ hi))]
  · rw [List.getElem?_eq_none (by rwa [length_toList]), List.getElem?_eq_none (hsize ▸ hi)]

theorem get_of_getElem? {d : StaticDeque Ty N} {i : Nat} {v : Ty} (h : d.toList[i]? = some v) :
    i < d.size ∧ d.get (d.begin_ + i) = v := by
  have hi : i < d.size := by
    rw [← length_toList]
    exact (List.getElem?_eq_some_iff.1 h).1
  rw [getElem?_toList d hi] at h
  exact ⟨hi, Option.some.inj h⟩

/-- Each operation does to the list what its name says. -/
theorem popFront_eq {d : StaticDeque Ty N} {v : Ty} {l : List Ty} (h : d.toList = v :: l) :
    ∃ d', d.popFront = some (v, d') ∧ d'.toList = l := by
  have hlen : d.size = l.length + 1 := by rw [← length_toList, h, List.length_cons]
  have hlt : d.begin_ < d.end_ := by
    rw [size] at hlen
    omega
  have hv : d.get d.begin_ = v := (get_of_getElem? (i := 0) (by rw [h]; rfl)).2
  refine ⟨_, by rw [popFront, dif_pos hlt, hv], toList_eq ?_ fun i w hw => ?_⟩
  · simp only [size] at hlen ⊢
    omega
  · have hw := (get_of_getElem? (i := i + 1) (by rw [h]; exact hw)).2
    rwa [← Nat.add_assoc, Nat.add_right_comm] at hw

theorem pushBack_eq {d : StaticDeque Ty N} (h : d.size < N) (v : Ty) :
    ∃ d', d.pushBack v = some d' ∧ d'.toList = d.toList ++ [v] := by
  have hle := d.begin_le
  refine ⟨_, by rw [pushBack, dif_pos h], toList_eq ?_ fun i w hw => ?_⟩
  · simp only [size, set, List.length_append, length_toList, List.length_singleton]
    omega
  · change (d.set d.end_ v).get (d.begin_ + i) = w
    rcases Nat.lt_trichotomy i d.size with hi | hi | hi
    · rw [List.getElem?_append_left (by rwa [length_toList])] at hw
      rw [size] at hi h
      rw [get_set_of_ne _ _ (by omega) (by omega) (by omega)]
      exact (get_of_getElem? hw).2
    · subst hi
      rw [List.getElem?_append_right (Nat.le_of_eq (length_toList d)), length_toList, Nat.sub_self] at hw
      have hend : d.begin_ + d.size = d.end_ := by
        rw [size]
        omega
      rw [hend, get_set_self]
      exact Option.some.inj hw
    · rw [List.getElem?_eq_none (by simpa using Nat.succ_le_of_lt hi)] at hw
      exact nomatch hw

theorem erase_eq {d : StaticDeque Ty N} {k : Nat} (h : k < d.size) :
    ∃ d', d.erase (d.begin_ + k) = some d' ∧ d'.toList = d.toList.eraseIdx k := by
  have hle := d.begin_le
  have hsize := d.size_le
  have hlt : d.begin_ ≤ d.begin_ + k ∧ d.begin_ + k < d.end_ := by
    rw [size] at h
    omega
  have hlen : (d.toList.eraseIdx k).length = d.size - 1 := by
    rw [List.length_eraseIdx_of_lt (by rwa [length_toList]), length_toList]
  have hget : ∀ i w, (d.toList.eraseIdx k)[i]? = some w →
      i + 1 < d.size ∧ d.get (d.begin_ + if i < k then i else i + 1) = w := by
    intro i w hw
    have hi : i < (d.toList.eraseIdx k).length := (List.getElem?_eq_some_iff.1 hw).1
    rw [List.getElem?_eraseIdx] at hw
    refine ⟨by omega, ?_⟩
    split at hw
    · rename_i hlow
      rw [if_pos hlow]
      exact (get_of_getElem? hw).2
    · rename_i hhigh
      rw [if_neg hhigh]
      exact (get_of_getElem? hw).2
  rw [erase, dif_pos hlt]
  simp only [size] at h hlen hget
  split
  · refine ⟨_, rfl, toList_eq ?_ fun i w hw => ?_⟩
    · simp only [size]
      omega
    · obtain ⟨hi, rfl⟩ := hget i w hw
      rw [if_neg (by omega), Nat.add_assoc, Nat.add_comm 1]
      rfl
  · split
    · refine ⟨_, rfl, toList_eq ?_ fun i w hw => ?_⟩
      · simp only [size, end_shiftUp]
        omega
      · obtain ⟨hi, rfl⟩ := hget i w hw
        change (d.shiftUp _ _).get (d.begin_ + 1 + i) = _
        rw [get_shiftUp d d.begin_ (by omega) (by omega) (by omega) (by omega)]
        split <;> split <;> first | omega | (congr 1; omega)
    · refine ⟨_, rfl, toList_eq ?_ fun i w hw => ?_⟩
      · simp only [size, begin_shiftDown]
        omega
      · obtain ⟨hi, rfl⟩ := hget i w hw
        change (d.shiftDown _ _).get ((d.shiftDown _ _).begin_ + i) = _
        rw [begin_shiftDown, get_shiftDown d d.begin_ (by omega) (by omega) (by omega) (by omega)]
        split <;> split <;> first | omega | rfl

end StaticDeque

end RTBuild
