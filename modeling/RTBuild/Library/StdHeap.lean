import Mathlib.Data.List.Sort

namespace RTBuild.Library

def IsHeap {T : Type} (lt : T → T → Bool) (l : List T) : Prop :=
  ∀ (i : Nat) (hi : i < l.length) (hp : (i - 1) / 2 < l.length), 0 < i → lt l[(i - 1) / 2] l[i] = false

theorem isHeap_singleton {T : Type} (lt : T → T → Bool) (x : T) : IsHeap lt [x] := by
  intro i hi _ hpos
  rw [List.length_singleton] at hi
  omega

/-- What std::push_heap and std::pop_heap do with a range whose entries, without the last one to
push, are a heap. -/
structure StdHeap (T : Type) (lt : T → T → Bool) where
  pushHeap : List T → List T
  popHeap : List T → List T
  push_perm : ∀ l x, IsHeap lt l → (pushHeap (l ++ [x])).Perm (l ++ [x])
  push_isHeap : ∀ l x, IsHeap lt l → IsHeap lt (pushHeap (l ++ [x]))
  pop_perm : ∀ l, IsHeap lt l → (popHeap l).Perm l
  pop_isHeap : ∀ l, IsHeap lt l → IsHeap lt (popHeap l).dropLast
  pop_last : ∀ l, IsHeap lt l → (popHeap l).getLast? = l.head?

namespace StdHeap

variable {T K : Type} [LinearOrder K] (key : T → K)

def lt (a b : T) : Bool := decide (key a < key b)

theorem isHeap_of_pairwise {l : List T} (h : l.Pairwise (fun a b => key b ≤ key a)) :
    IsHeap (lt key) l := by
  intro i hi hp hpos
  have hle := List.pairwise_iff_getElem.1 h ((i - 1) / 2) i hp hi (by omega)
  exact decide_eq_false (not_lt.2 hle)

def sort (l : List T) : List T := l.insertionSort (fun a b => key b ≤ key a)

theorem sort_perm (l : List T) : (sort key l).Perm l := List.perm_insertionSort _ l

theorem sort_isHeap (l : List T) : IsHeap (lt key) (sort key l) := by
  apply isHeap_of_pairwise
  have htotal : Std.Total (fun a b : T => key b ≤ key a) := ⟨fun a b => le_total _ _⟩
  have htrans : IsTrans T (fun a b : T => key b ≤ key a) := ⟨fun a b c hab hbc => hbc.trans hab⟩
  exact List.pairwise_insertionSort _ l

def popFirst : List T → List T
  | [] => []
  | x :: l => sort key l ++ [x]

def sorted : StdHeap T (lt key) where
  pushHeap := sort key
  popHeap := popFirst key
  push_perm l x _ := sort_perm key _
  push_isHeap l x _ := sort_isHeap key _
  pop_perm l _ := by
    cases l with
    | nil => exact .refl _
    | cons x l => exact (List.perm_append_comm.trans (.refl _)).trans ((sort_perm key l).cons x)
  pop_isHeap l _ := by
    cases l with
    | nil => exact sort_isHeap key []
    | cons x l =>
        rw [popFirst, List.dropLast_concat]
        exact sort_isHeap key l
  pop_last l _ := by
    cases l with
    | nil => rfl
    | cons x l =>
        rw [popFirst, List.getLast?_concat]
        rfl

end StdHeap

end RTBuild.Library
