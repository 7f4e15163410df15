import RTBuild.Library.Chunk

namespace RTBuild.Library.ParallelFor

open Library.Chunk (store store_of_mem store_of_not_mem)

variable {ι α : Type}

/-- An iteration of a parallel loop that first reads the array and then stores into it. -/
inductive Iteration (ι α : Type)
  | todo (i : ι)
  | storing (writes : List (α × Nat))

variable (body : ι → (Nat → α) → List (α × Nat))

/-- The runs of the iterations of a loop, interleaved access by access, each with the stores that it
makes. -/
inductive Runs : (Nat → α) → List (Iteration ι α) → List (α × Nat) → Prop
  | done (a : Nat → α) (its : List (Iteration ι α)) (h : ∀ it ∈ its, it = .storing []) : Runs a its []
  | read (a : Nat → α) (before : List (Iteration ι α)) (i : ι) (behind : List (Iteration ι α))
      (trace : List (α × Nat))
      (h : Runs a (before ++ .storing (body i a) :: behind) trace) :
        Runs a (before ++ .todo i :: behind) trace
  | write (a : Nat → α) (before : List (Iteration ι α)) (w : α × Nat) (ws : List (α × Nat))
      (behind : List (Iteration ι α)) (trace : List (α × Nat))
      (h : Runs (Function.update a w.2 w.1) (before ++ .storing ws :: behind) trace) :
      Runs a (before ++ .storing (w :: ws) :: behind) (w :: trace)

def pending (a : Nat → α) : Iteration ι α → List (α × Nat)
  | .todo i => body i a
  | .storing ws => ws

def slots (ws : List (α × Nat)) : List Nat := ws.map Prod.snd

theorem store_of_nodup (a : Nat → α) {ws : List (α × Nat)} (h : (slots ws).Nodup) {w : α × Nat}
    (hw : w ∈ ws) : store a ws w.2 = w.1 :=
  store_of_mem a hw (fun _ hy => congrArg Prod.fst (List.inj_on_of_nodup_map h hy hw rfl))

theorem store_of_notMem_slots (a : Nat → α) {ws : List (α × Nat)} {s : Nat} (h : s ∉ slots ws) :
    store a ws s = a s :=
  store_of_not_mem a (fun x hx => h (List.mem_map.2 ⟨(x, s), hx, rfl⟩))

def needs (reads : ι → List Nat) : Iteration ι α → List Nat
  | .todo i => reads i
  | .storing _ => []

def Apart (reads : ι → List Nat) (a : Nat → α) (it it' : Iteration ι α) : Prop :=
  (needs reads it).Disjoint (slots (pending body a it')) ∧
    (needs reads it').Disjoint (slots (pending body a it))

/-- What an iteration stores depends on the slots that it reads, and nobody else stores to those. -/
structure Separate (reads : ι → List Nat) (a : Nat → α) (its : List (Iteration ι α)) : Prop where
  apart : its.Pairwise (Apart body reads a)
  own : ∀ i, .todo i ∈ its → ∀ a', (∀ s ∈ reads i, a' s = a s) → body i a' = body i a

variable {body}

theorem flatMap_middle (f : Iteration ι α → List (α × Nat)) (before behind : List (Iteration ι α))
    (it : Iteration ι α) :
    (before ++ it :: behind).flatMap f = before.flatMap f ++ (f it ++ behind.flatMap f) := by
  rw [List.flatMap_append, List.flatMap_cons]

section middle

variable {before behind : List (Iteration ι α)} {it : Iteration ι α} {ws : List (α × Nat)}

theorem todo_mem_middle {i : ι} (h : .todo i ∈ before ++ .storing ws :: behind) :
    .todo i ∈ before ++ it :: behind := by
  rw [List.mem_append, List.mem_cons] at h ⊢
  rcases h with h | h | h
  · exact Or.inl h
  · cases h
  · exact Or.inr (Or.inr h)

theorem pairwise_middle {reads : ι → List Nat} {a : Nat → α} :
    (before ++ it :: behind).Pairwise (Apart body reads a) ↔
      (∀ it' ∈ before ++ behind, Apart body reads a it it') ∧
        (before ++ behind).Pairwise (Apart body reads a) := by
  rw [List.pairwise_middle (fun h => h.symm), List.pairwise_cons]

/-- An iteration goes on, and stores to no more slots than before. -/
theorem Separate.middle {reads : ι → List Nat} {a : Nat → α}
    (h : Separate body reads a (before ++ it :: behind))
    (hslots : slots ws ⊆ slots (pending body a it)) :
    Separate body reads a (before ++ .storing ws :: behind) := by
  obtain ⟨hone, hothers⟩ := pairwise_middle.1 h.apart
  refine ⟨pairwise_middle.2 ⟨fun it' hit' => ⟨fun _ hs => absurd hs List.not_mem_nil, ?_⟩, hothers⟩,
    fun i hi => h.own i (todo_mem_middle hi)⟩
  exact fun s hs hs' => (hone it' hit').2 hs (hslots hs')

theorem Separate.notMem_needs {reads : ι → List Nat} {a : Nat → α} {w : α × Nat}
    (h : Separate body reads a (before ++ .storing (w :: ws) :: behind)) {i : ι}
    (hi : .todo i ∈ before ++ .storing ws :: behind) : w.2 ∉ reads i := by
  have hothers : .todo i ∈ before ++ behind := by
    rw [List.mem_append, List.mem_cons] at hi
    rcases hi with hi | hi | hi
    · exact List.mem_append_left _ hi
    · cases hi
    · exact List.mem_append_right _ hi
  exact fun hw => ((pairwise_middle.1 h.apart).1 _ hothers).2 hw List.mem_cons_self

end middle

/-- Interleaved iterations make the stores that they make one after the other, in another order. -/
theorem Runs.perm {a b : Nat → α} {its : List (Iteration ι α)} {trace : List (α × Nat)}
    {reads : ι → List Nat} (h : Runs body b its trace) (hsep : Separate body reads a its)
    (hread : ∀ i, .todo i ∈ its → ∀ s ∈ reads i, b s = a s) :
    trace.Perm (its.flatMap (pending body a)) := by
  induction h with
  | done b its hdone =>
      have hnil : its.flatMap (pending body a) = [] := by
        rw [List.flatMap_eq_nil_iff]
        intro it hit
        rw [hdone it hit]
        rfl
      rw [hnil]
  | read b before i behind trace _ ih =>
      have hmem : Iteration.todo i ∈ before ++ .todo i :: behind :=
        List.mem_append_right _ List.mem_cons_self
      have hbody : body i b = body i a := hsep.own i hmem b (hread i hmem)
      have hpending : (before ++ .storing (body i b) :: behind).flatMap (pending body a) =
          (before ++ .todo i :: behind).flatMap (pending body a) := by
        rw [flatMap_middle, flatMap_middle, hbody]
        rfl
      rw [← hpending]
      apply ih
      · apply hsep.middle
        rw [hbody]
        exact List.Subset.refl _
      · exact fun i' hi' => hread i' (todo_mem_middle hi')
  | write b before w ws behind trace _ ih =>
      have hperm : ((before ++ .storing (w :: ws) :: behind).flatMap (pending body a)).Perm
          (w :: (before ++ .storing ws :: behind).flatMap (pending body a)) := by
        rw [flatMap_middle, flatMap_middle]
        exact List.perm_middle
      refine (List.Perm.cons w ?_).trans hperm.symm
      apply ih
      · exact hsep.middle (List.subset_cons_self _ _)
      · intro i hi s hs
        have hne : s ≠ w.2 := by
          rintro rfl
          exact hsep.notMem_needs hi hs
        rw [Function.update_of_ne hne]
        exact hread i (todo_mem_middle hi) s hs

/-- It is enough that no iteration stores to what another one reads. -/
theorem Runs.perm_of_reads {a : Nat → α} {is : List ι} {trace : List (α × Nat)}
    (h : Runs body a (is.map .todo) trace) (reads : ι → List Nat)
    (hown : ∀ i ∈ is, ∀ a', (∀ s ∈ reads i, a' s = a s) → body i a' = body i a)
    (hapart : is.Pairwise (fun i j => (reads i).Disjoint (slots (body j a)) ∧
      (reads j).Disjoint (slots (body i a)))) : trace.Perm (is.flatMap (body · a)) := by
  have hpending : (is.map .todo).flatMap (pending body a) = is.flatMap (body · a) := List.flatMap_map ..
  have hsep : Separate body reads a (is.map .todo) := by
    refine ⟨?_, fun i hi => ?_⟩
    · rw [List.pairwise_map]
      exact hapart
    · obtain ⟨i', hi', heq⟩ := List.mem_map.1 hi
      exact hown i (Iteration.todo.inj heq ▸ hi')
  rw [← hpending]
  exact h.perm hsep (fun _ _ _ _ => rfl)

theorem Runs.perm_of_todo {a : Nat → α} {is : List ι} {trace : List (α × Nat)}
    (h : Runs body a (is.map .todo) trace) (hnodup : (slots (is.flatMap (body · a))).Nodup)
    (hown : ∀ i ∈ is, ∀ a', (∀ s ∈ slots (body i a), a' s = a s) → body i a' = body i a) :
    trace.Perm (is.flatMap (body · a)) := by
  refine h.perm_of_reads (fun i => slots (body i a)) hown ?_
  rw [slots, List.map_flatMap, List.nodup_flatMap] at hnodup
  exact hnodup.2.imp (fun hdisjoint => ⟨hdisjoint, hdisjoint.symm⟩)

theorem Runs.mem_slots {a : Nat → α} {its : List (Iteration ι α)} {trace : List (α × Nat)}
    (h : Runs body a its trace) {s : Nat}
    (hpending : ∃ it ∈ its, ∀ a, s ∈ slots (pending body a it)) : s ∈ slots trace := by
  induction h with
  | done a its hdone =>
      obtain ⟨it, hit, hs⟩ := hpending
      have hnil := hs a
      rw [hdone it hit] at hnil
      exact hnil
  | read a before i behind trace _ ih =>
      apply ih
      obtain ⟨it, hit, hs⟩ := hpending
      rw [List.mem_append, List.mem_cons] at hit
      rcases hit with hit | rfl | hit
      · exact ⟨it, List.mem_append_left _ hit, hs⟩
      · exact ⟨.storing (body i a), List.mem_append_right _ List.mem_cons_self, fun _ => hs a⟩
      · exact ⟨it, List.mem_append_right _ (List.mem_cons_of_mem _ hit), hs⟩
  | write a before w ws behind trace _ ih =>
      obtain ⟨it, hit, hs⟩ := hpending
      rw [slots, List.map_cons, List.mem_cons]
      rw [List.mem_append, List.mem_cons] at hit
      rcases hit with hit | rfl | hit
      · exact Or.inr (ih ⟨it, List.mem_append_left _ hit, hs⟩)
      · rcases List.mem_cons.1 (hs a) with hw | hws
        · exact Or.inl hw
        · exact Or.inr (ih ⟨.storing ws, List.mem_append_right _ List.mem_cons_self, fun _ => hws⟩)
      · exact Or.inr (ih ⟨it, List.mem_append_right _ (List.mem_cons_of_mem _ hit), hs⟩)

/-- All stores of a run are those of some iteration. -/
theorem Runs.exists_pending {a : Nat → α} {its : List (Iteration ι α)} {trace : List (α × Nat)}
    (h : Runs body a its trace) {w : α × Nat} (hw : w ∈ trace) :
    ∃ it ∈ its, ∃ a', w ∈ pending body a' it := by
  induction h with
  | done a its hdone => exact absurd hw List.not_mem_nil
  | read a before i behind trace _ ih =>
      obtain ⟨it, hit, a', hw⟩ := ih hw
      rw [List.mem_append, List.mem_cons] at hit
      rcases hit with hit | rfl | hit
      · exact ⟨it, List.mem_append_left _ hit, a', hw⟩
      · exact ⟨.todo i, List.mem_append_right _ List.mem_cons_self, a, hw⟩
      · exact ⟨it, List.mem_append_right _ (List.mem_cons_of_mem _ hit), a', hw⟩
  | write a before w' ws behind trace _ ih =>
      rcases List.mem_cons.1 hw with rfl | hw
      · exact ⟨_, List.mem_append_right _ List.mem_cons_self, a, List.mem_cons_self⟩
      · obtain ⟨it, hit, a', hw⟩ := ih hw
        rw [List.mem_append, List.mem_cons] at hit
        rcases hit with hit | rfl | hit
        · exact ⟨it, List.mem_append_left _ hit, a', hw⟩
        · exact ⟨_, List.mem_append_right _ List.mem_cons_self, a', List.mem_cons_of_mem _ hw⟩
        · exact ⟨it, List.mem_append_right _ (List.mem_cons_of_mem _ hit), a', hw⟩

def inOrder (body : ι → (Nat → α) → List (α × Nat)) : (Nat → α) → List ι → List (α × Nat)
  | _, [] => []
  | a, i :: is => body i a ++ inOrder body (store a (body i a)) is

theorem Runs.behind {a : Nat → α} {before behind : List (Iteration ι α)} {trace : List (α × Nat)}
    (ws : List (α × Nat)) (h : Runs body (store a ws) (before ++ .storing [] :: behind) trace) :
    Runs body a (before ++ .storing ws :: behind) (ws ++ trace) := by
  induction ws generalizing a with
  | nil => exact h
  | cons w ws ih => exact .write a before w ws behind (ws ++ trace) (ih h)

theorem runs_inOrder (a : Nat → α) {before : List (Iteration ι α)}
    (hbefore : ∀ it ∈ before, it = .storing []) (is : List ι) :
    Runs body a (before ++ is.map .todo) (inOrder body a is) := by
  induction is generalizing a before with
  | nil =>
      rw [List.map_nil, List.append_nil]
      exact .done a before hbefore
  | cons i is ih =>
      refine .read a before i _ _ (.behind (body i a) ?_)
      rw [List.append_cons]
      apply ih
      intro it hit
      rcases List.mem_append.1 hit with hit | hit
      · exact hbefore it hit
      · exact List.mem_singleton.1 hit

/-- The iterations can run one after the other. -/
theorem runs_todo (a : Nat → α) (is : List ι) : Runs body a (is.map .todo) (inOrder body a is) :=
  runs_inOrder a (fun _ h => absurd h List.not_mem_nil) is

end RTBuild.Library.ParallelFor
