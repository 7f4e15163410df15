import Mathlib

namespace RTBuild.Library.Segment

variable {α β : Type}

def slice (a : Nat → α) (lo hi : Nat) : List α := (List.range' lo (hi - lo)).map a

def swap (a : Nat → α) (i j : Nat) : Nat → α := a ∘ Equiv.swap i j

/-- The second array is the first one with the elements of a segment permuted. -/
def Rearranges (lo hi : Nat) (a a' : Nat → α) : Prop :=
  ∃ σ : Equiv.Perm Nat, (∀ i, i < lo ∨ hi ≤ i → σ i = i) ∧ a' = a ∘ σ

@[simp] theorem length_slice (a : Nat → α) (lo hi : Nat) : (slice a lo hi).length = hi - lo := by
  simp [slice]

theorem slice_eq_nil (a : Nat → α) {lo hi : Nat} (h : hi ≤ lo) : slice a lo hi = [] := by
  simp [slice, Nat.sub_eq_zero_of_le h]

theorem mem_slice {a : Nat → α} {lo hi : Nat} {x : α} :
    x ∈ slice a lo hi ↔ ∃ i, lo ≤ i ∧ i < hi ∧ a i = x := by
  simp only [slice, List.mem_map, List.mem_range'_1]
  constructor
  · rintro ⟨i, ⟨hlo, hhi⟩, rfl⟩
    exact ⟨i, hlo, by omega, rfl⟩
  · rintro ⟨i, hlo, hhi, rfl⟩
    exact ⟨i, ⟨hlo, by omega⟩, rfl⟩

theorem slice_congr {a a' : Nat → α} {lo hi : Nat} (h : ∀ i, lo ≤ i → i < hi → a i = a' i) :
    slice a lo hi = slice a' lo hi := by
  refine List.map_congr_left (fun i hi' => ?_)
  have hmem := List.mem_range'_1.1 hi'
  exact h i hmem.1 (by omega)

theorem slice_append (a : Nat → α) {lo mid hi : Nat} (hlo : lo ≤ mid) (hhi : mid ≤ hi) :
    slice a lo mid ++ slice a mid hi = slice a lo hi := by
  have hstart : mid = lo + (mid - lo) := by omega
  have hlength : (mid - lo) + (hi - mid) = hi - lo := by omega
  rw [slice, slice, slice, ← List.map_append, ← hlength, ← List.range'_append_1, ← hstart]

theorem slice_cons (a : Nat → α) {lo hi : Nat} (h : lo < hi) :
    slice a lo hi = a lo :: slice a (lo + 1) hi := by
  rw [← slice_append a (Nat.le_succ lo) h]
  simp [slice]

theorem slice_concat (a : Nat → α) {lo hi : Nat} (h : lo < hi) :
    slice a lo hi = slice a lo (hi - 1) ++ [a (hi - 1)] := by
  rw [← slice_append a (Nat.le_sub_one_of_lt h) (Nat.sub_le hi 1)]
  have hone : hi - (hi - 1) = 1 := by omega
  simp [slice, hone]

theorem slice_succ (a : Nat → α) {lo i : Nat} (h : lo ≤ i) :
    slice a lo (i + 1) = slice a lo i ++ [a i] :=
  slice_concat a (Nat.lt_succ_of_le h)

theorem swap_left (a : Nat → α) (i j : Nat) : swap a i j i = a j := by simp [swap]

theorem swap_right (a : Nat → α) (i j : Nat) : swap a i j j = a i := by simp [swap]

theorem swap_of_ne (a : Nat → α) {i j k : Nat} (hi : k ≠ i) (hj : k ≠ j) : swap a i j k = a k := by
  simp [swap, Equiv.swap_apply_of_ne_of_ne hi hj]

namespace Rearranges

variable {a a' a'' : Nat → α} {lo hi lo' hi' : Nat}

theorem refl (lo hi : Nat) (a : Nat → α) : Rearranges lo hi a a := ⟨1, fun _ _ => rfl, rfl⟩

theorem trans (h : Rearranges lo hi a a') (h' : Rearranges lo hi a' a'') : Rearranges lo hi a a'' := by
  obtain ⟨σ, hσ, rfl⟩ := h
  obtain ⟨τ, hτ, rfl⟩ := h'
  refine ⟨σ * τ, fun i hi' => ?_, rfl⟩
  rw [Equiv.Perm.mul_apply, hτ i hi', hσ i hi']

theorem symm (h : Rearranges lo hi a a') : Rearranges lo hi a' a := by
  obtain ⟨σ, hσ, rfl⟩ := h
  refine ⟨σ⁻¹, fun i hi' => ?_, ?_⟩
  · rw [Equiv.Perm.inv_eq_iff_eq, hσ i hi']
  · funext i
    exact congrArg a (σ.apply_symm_apply i).symm

theorem mono (h : Rearranges lo hi a a') (hlo : lo' ≤ lo) (hhi : hi ≤ hi') :
    Rearranges lo' hi' a a' := by
  obtain ⟨σ, hσ, rfl⟩ := h
  exact ⟨σ, fun i hi' => hσ i (by omega), rfl⟩

theorem swap (a : Nat → α) {i j : Nat} (hi' : lo ≤ i ∧ i < hi) (hj : lo ≤ j ∧ j < hi) :
    Rearranges lo hi a (Segment.swap a i j) :=
  ⟨Equiv.swap i j, fun k hk => Equiv.swap_apply_of_ne_of_ne (by omega) (by omega), rfl⟩

theorem outside (h : Rearranges lo hi a a') {i : Nat} (hi' : i < lo ∨ hi ≤ i) : a' i = a i := by
  obtain ⟨σ, hσ, rfl⟩ := h
  exact congrArg a (hσ i hi')

theorem slice_perm (h : Rearranges lo hi a a') : (slice a' lo hi).Perm (slice a lo hi) := by
  obtain ⟨σ, hσ, rfl⟩ := h
  have hmaps : ∀ i, i ∈ List.range' lo (hi - lo) → σ i ∈ List.range' lo (hi - lo) := by
    intro i hi'
    rw [List.mem_range'_1] at hi' ⊢
    -- a point that leaves the segment would be its own image
    by_contra hout
    have hfix : σ i = i := σ.injective (hσ (σ i) (by omega))
    rw [hfix] at hout
    exact hout hi'
  have hperm : ((List.range' lo (hi - lo)).map σ).Perm (List.range' lo (hi - lo)) := by
    have hnodup := (List.nodup_range' (s := lo) (n := hi - lo)).map σ.injective
    refine (hnodup.subperm ?_).perm_of_length_le (by simp)
    intro j hj
    obtain ⟨i, hi', rfl⟩ := List.mem_map.1 hj
    exact hmaps i hi'
  rw [slice, ← List.map_map]
  exact hperm.map a

theorem forall_mem (h : Rearranges lo hi a a') {P : α → Prop} (hP : ∀ i, lo ≤ i → i < hi → P (a i)) :
    ∀ i, lo ≤ i → i < hi → P (a' i) := by
  intro i hlo hhi
  obtain ⟨j, hjlo, hjhi, hj⟩ := mem_slice.1 (h.slice_perm.mem_iff.1 (mem_slice.2 ⟨i, hlo, hhi, rfl⟩))
  exact hj ▸ hP j hjlo hjhi

end Rearranges

end RTBuild.Library.Segment
