import RTBuild.Library.Transition

namespace RTBuild.Library.ParallelLoop

open Relation

variable {L M : Type}

/-- A parallel loop: what each of its tasks does next, given its own variables and the shared memory. -/
abbrev Tasks (L M : Type) := Nat → L → M → Option (L × M)

variable (next : Tasks L M) (n : Nat)

inductive Step : (Nat → L) × M → (Nat → L) × M → Prop
  | access (locals : Nat → L) (mem : M) (t : Nat) (ht : t < n) (l : L) (mem' : M)
      (h : next t (locals t) mem = some (l, mem')) :
        Step (locals, mem) (Function.update locals t l, mem')

def Finished (s : (Nat → L) × M) : Prop := ∀ t < n, next t (s.1 t) s.2 = none

def Runs (start : Nat → L) (mem mem' : M) : Prop :=
  ∃ locals, ReflTransGen (Step next n) (start, mem) (locals, mem') ∧ Finished next n (locals, mem')

/-- An assertion about each task and one about the memory, which no step of any task makes false. -/
structure Outline (G : M → Prop) (I : Nat → L → M → Prop) : Prop where
  shared : ∀ t < n, ∀ l mem l' mem', G mem → I t l mem → next t l mem = some (l', mem') → G mem'
  own : ∀ t < n, ∀ l mem l' mem', G mem → I t l mem → next t l mem = some (l', mem') → I t l' mem'
  other : ∀ t < n, ∀ l mem l' mem', G mem → I t l mem → next t l mem = some (l', mem') →
    ∀ u < n, u ≠ t → ∀ k, I u k mem → I u k mem'

variable {next n} {G : M → Prop} {I : Nat → L → M → Prop}

theorem Outline.step (h : Outline next n G I) {s s' : (Nat → L) × M}
    (hs : G s.2 ∧ ∀ t < n, I t (s.1 t) s.2) (hstep : Step next n s s') :
    G s'.2 ∧ ∀ t < n, I t (s'.1 t) s'.2 := by
  obtain ⟨hG, hI⟩ := hs
  cases hstep with
  | access locals mem t ht l mem' hnext =>
      refine ⟨h.shared t ht _ _ _ _ hG (hI t ht) hnext, fun u hu => ?_⟩
      by_cases hut : u = t
      · subst hut
        have hown := h.own u ht _ _ _ _ hG (hI u ht) hnext
        simpa only [Function.update_self] using hown
      · simp only [Function.update_of_ne hut]
        exact h.other t ht _ _ _ _ hG (hI t ht) hnext u hu hut _ (hI u hu)

theorem Outline.reachable (h : Outline next n G I) {start : Nat → L} {mem : M} (hG : G mem)
    (hI : ∀ t < n, I t (start t) mem) {s : (Nat → L) × M}
    (hreach : ReflTransGen (Step next n) (start, mem) s) : G s.2 ∧ ∀ t < n, I t (s.1 t) s.2 :=
  Transition.preserved (P := fun s => G s.2 ∧ ∀ t < n, I t (s.1 t) s.2)
    (fun _ _ => h.step) hreach ⟨hG, hI⟩

/-- What holds of the tasks that have ended holds when the loop has ended. -/
theorem Outline.runs (h : Outline next n G I) {start : Nat → L} {mem mem' : M} (hG : G mem)
    (hI : ∀ t < n, I t (start t) mem) (hruns : Runs next n start mem mem') :
    G mem' ∧ ∀ t < n, ∃ l, I t l mem' ∧ next t l mem' = none := by
  obtain ⟨locals, hreach, hfinished⟩ := hruns
  obtain ⟨hG', hI'⟩ := h.reachable hG hI hreach
  exact ⟨hG', fun t ht => ⟨locals t, hI' t ht, hfinished t ht⟩⟩

section rank

variable (rank : Nat → L → Nat)
  (hrank : ∀ t < n, ∀ l mem l' mem', next t l mem = some (l', mem') → rank t l' < rank t l)
include hrank

theorem Step.rank_lt {s s' : (Nat → L) × M} (h : Step next n s s') :
    ∑ t ∈ Finset.range n, rank t (s'.1 t) < ∑ t ∈ Finset.range n, rank t (s.1 t) := by
  cases h with
  | access locals mem t ht l mem' hnext =>
      have hlt := hrank t ht _ _ _ _ hnext
      have hle : ∀ u, rank u (Function.update locals t l u) ≤ rank u (locals u) := by
        intro u
        by_cases hut : u = t
        · subst hut
          rw [Function.update_self]
          exact hlt.le
        · rw [Function.update_of_ne hut]
      have hlt' : rank t (Function.update locals t l t) < rank t (locals t) := by
        rw [Function.update_self]
        exact hlt
      exact Finset.sum_lt_sum (fun u _ => hle u) ⟨t, Finset.mem_range.2 ht, hlt'⟩

/-- There is no schedule that goes on forever. -/
theorem wellFounded_step : WellFounded (fun s' s => Step next n s s') :=
  Subrelation.wf (fun h => Step.rank_lt rank hrank h)
    (InvImage.wf (fun s : (Nat → L) × M => ∑ t ∈ Finset.range n, rank t (s.1 t)) Nat.lt_wfRel.wf)

theorem exists_runs (start : Nat → L) (mem : M) : ∃ mem', Runs next n start mem mem' := by
  have hend : ∀ s : (Nat → L) × M, ∃ s', ReflTransGen (Step next n) s s' ∧ Finished next n s' := by
    intro s
    induction s using (wellFounded_step rank hrank).induction with
    | _ s ih =>
        by_cases hs : Finished next n s
        · exact ⟨s, .refl, hs⟩
        · rw [Finished] at hs
          push Not at hs
          obtain ⟨t, ht, hne⟩ := hs
          obtain ⟨⟨l, mem'⟩, hnext⟩ := Option.ne_none_iff_exists'.1 hne
          have hstep : Step next n s (Function.update s.1 t l, mem') := .access s.1 s.2 t ht l mem' hnext
          obtain ⟨s', hreach, hfinished⟩ := ih _ hstep
          exact ⟨s', .head hstep hreach, hfinished⟩
  obtain ⟨s', hreach, hfinished⟩ := hend (start, mem)
  exact ⟨s'.2, s'.1, hreach, hfinished⟩

end rank

end RTBuild.Library.ParallelLoop
