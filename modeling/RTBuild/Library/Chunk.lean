import Mathlib

namespace RTBuild.Library.Chunk

variable {α : Type}

/-- The border between tasks i-1 and i when n items are shared out to count tasks. -/
def border (n count i : Nat) : Nat := i * n / count

@[simp] theorem border_zero (n count : Nat) : border n count 0 = 0 := by simp [border]

theorem border_last (n : Nat) {count : Nat} (h : 0 < count) : border n count count = n :=
  Nat.mul_div_cancel_left n h

theorem border_mono (n count : Nat) {i j : Nat} (h : i ≤ j) : border n count i ≤ border n count j :=
  Nat.div_le_div_right (Nat.mul_le_mul_right n h)

theorem border_le (n : Nat) {count i : Nat} (h : i ≤ count) : border n count i ≤ n :=
  Nat.div_le_of_le_mul (Nat.mul_le_mul_right n h)

theorem border_lt {n count i : Nat} (hn : 0 < n) (h : i < count) : border n count i < n :=
  (Nat.div_lt_iff_lt_mul (by omega)).2 (by rw [Nat.mul_comm n]; exact Nat.mul_lt_mul_of_pos_right h hn)

theorem exists_between (f : Nat → Nat) {i count : Nat} (hfirst : f 0 ≤ i) (hlast : i < f count) :
    ∃ t < count, f t ≤ i ∧ i < f (t + 1) := by
  induction count with
  | zero => exact absurd hlast (Nat.not_lt.2 hfirst)
  | succ count ih =>
      by_cases hi : i < f count
      · obtain ⟨t, ht, hle, hlt⟩ := ih hi
        exact ⟨t, Nat.lt_succ_of_lt ht, hle, hlt⟩
      · exact ⟨count, Nat.lt_succ_self count, Nat.le_of_not_lt hi, hlast⟩

theorem exists_border {n count i : Nat} (hcount : 0 < count) (hi : i < n) :
    ∃ t < count, border n count t ≤ i ∧ i < border n count (t + 1) := by
  apply exists_between
  · rw [border_zero]
    exact Nat.zero_le i
  · rwa [border_last n hcount]

def slice (l : List α) (first last : Nat) : List α := (l.drop first).take (last - first)

theorem slice_append (l : List α) {a b c : Nat} (hab : a ≤ b) (hbc : b ≤ c) :
    slice l a b ++ slice l b c = slice l a c := by
  have hsplit : c - a = (b - a) + (c - b) := by omega
  rw [slice, slice, slice, hsplit, List.take_add, List.drop_drop]
  congr 4
  omega

theorem slices_flatten (l : List α) (f : Nat → Nat) (hf : ∀ i, f i ≤ f (i + 1)) (count : Nat) :
    ((List.range count).map (fun i => slice l (f i) (f (i + 1)))).flatten = slice l (f 0) (f count) := by
  induction count with
  | zero => simp [slice]
  | succ count ih =>
      have hle : f 0 ≤ f count := monotone_nat_of_le_succ hf (Nat.zero_le count)
      rw [List.range_succ, List.map_append, List.flatten_append, ih]
      simpa using slice_append l hle (hf count)

/-- Chunks cut at the task borders make up the whole. -/
theorem borders_flatten (l : List α) {count : Nat} (h : 0 < count) :
    ((List.range count).map
      (fun i => slice l (border l.length count i) (border l.length count (i + 1)))).flatten = l := by
  rw [slices_flatten l (border l.length count) (fun i => border_mono _ _ (Nat.le_succ i)),
    border_zero, border_last _ h]
  simp [slice]

/-- The array after a list of writes, the last of which wins. -/
def store (a : Nat → α) : List (α × Nat) → Nat → α
  | [] => a
  | (x, i) :: writes => store (Function.update a i x) writes

theorem store_of_not_mem (a : Nat → α) {ws : List (α × Nat)} {i : Nat} (h : ∀ x, (x, i) ∉ ws) :
    store a ws i = a i := by
  induction ws generalizing a with
  | nil => rfl
  | cons w ws ih =>
      have hne : i ≠ w.2 := by
        rintro rfl
        exact h w.1 (List.mem_cons_self ..)
      rw [store, ih _ (fun x hx => h x (List.mem_cons_of_mem _ hx)), Function.update_of_ne hne]

/-- Writes that agree on a slot leave their value there, in whatever order they come. -/
theorem store_of_mem (a : Nat → α) {ws : List (α × Nat)} {i : Nat} {x : α} (hmem : (x, i) ∈ ws)
    (huniq : ∀ y, (y, i) ∈ ws → y = x) : store a ws i = x := by
  induction ws generalizing a with
  | nil => exact absurd hmem List.not_mem_nil
  | cons w ws ih =>
      by_cases hrest : (x, i) ∈ ws
      · exact ih _ hrest (fun y hy => huniq y (List.mem_cons_of_mem _ hy))
      · have hw : w = (x, i) := ((List.mem_cons.1 hmem).resolve_right hrest).symm
        subst hw
        have hnone : ∀ y, (y, i) ∉ ws := by
          intro y hy
          exact hrest (huniq y (List.mem_cons_of_mem _ hy) ▸ hy)
        rw [store, store_of_not_mem _ hnone, Function.update_self]

theorem store_zipIdx (a : Nat → α) {l : List α} {ws : List (α × Nat)} {k i : Nat}
    (hws : ws.Perm (l.zipIdx k)) (hi : i < l.length) : store a ws (k + i) = l[i] := by
  refine store_of_mem a (hws.mem_iff.2 ?_) (fun y hy => ?_)
  · rw [List.mk_add_mem_zipIdx_iff_getElem?]
    exact List.getElem?_eq_getElem hi
  · have hget := List.mk_add_mem_zipIdx_iff_getElem?.1 (hws.mem_iff.1 hy)
    rw [List.getElem?_eq_getElem hi] at hget
    exact (Option.some.inj hget).symm

end RTBuild.Library.Chunk
