import RTBuild.Emission

namespace RTBuild

open Library.Task

def servedBlock : BuildEvent → Option (Nat × Nat)
  | .ask (.malloc bytes _) (some base) => some (base, bytes)
  | _ => none

def blocks (t : List BuildEvent) : List (Nat × Nat) := t.filterMap servedBlock

variable {t : List BuildEvent} {endBytes cur cur' : Nat}

theorem servedBlock_eq_some {e : BuildEvent} {block : Nat × Nat} :
    servedBlock e = some block ↔ ∃ align, e = .ask (.malloc block.2 align) (some block.1) := by
  constructor
  · intro h
    rcases e with ⟨_ | _, _ | base⟩ | _
    all_goals cases h
    exact ⟨_, rfl⟩
  · rintro ⟨align, rfl⟩
    rfl

theorem mem_blocks {block : Nat × Nat} :
    block ∈ blocks t ↔ ∃ align, .ask (.malloc block.2 align) (some block.1) ∈ t := by
  rw [blocks, List.mem_filterMap]
  constructor
  · rintro ⟨e, he, heq⟩
    obtain ⟨align, rfl⟩ := servedBlock_eq_some.1 heq
    exact ⟨align, he⟩
  · rintro ⟨align, he⟩
    exact ⟨_, he, rfl⟩

structure HandedOut (endBytes cur cur' : Nat) (list : List (Nat × Nat)) : Prop where
  le : cur ≤ cur'
  inside : ∀ block ∈ list, cur ≤ block.1 ∧ block.1 + block.2 ≤ cur' ∧ block.1 + block.2 < endBytes
  apart : list.Pairwise (fun x y => x.1 + x.2 ≤ y.1)

theorem HandedOut.cons {cur₁ : Nat} {q : Query} {a : Option Nat}
    (hserve : Serves endBytes cur q a cur₁) (h : HandedOut endBytes cur₁ cur' (blocks t)) :
    HandedOut endBytes cur cur' (blocks (.ask q a :: t)) := by
  cases hserve with
  | malloc hserve =>
      cases hserve with
      | full hfull => exact h
      | taken htaken =>
          have hle := h.le
          simp only [blocks, List.filterMap_cons, servedBlock]
          refine ⟨by omega, List.forall_mem_cons.2 ⟨⟨le_rfl, hle, htaken⟩, fun block hblock => ?_⟩,
            List.pairwise_cons.2 ⟨fun block hblock => (h.inside block hblock).1, h.apart⟩⟩
          obtain ⟨hbase, hrest⟩ := h.inside block hblock
          exact ⟨(Nat.le_add_right _ _).trans hbase, hrest⟩
      | overshoot hover =>
          refine ⟨(Nat.le_add_right _ _).trans h.le, fun block hblock => ?_, h.apart⟩
          obtain ⟨hbase, hrest⟩ := h.inside block hblock
          exact ⟨(Nat.le_add_right _ _).trans hbase, hrest⟩
  | bytesAllocated => exact h

/-- The blocks of a run over a buffer are disjoint and inside the buffer. -/
theorem handedOut (h : Answered (Serves endBytes) cur t cur') :
    HandedOut endBytes cur cur' (blocks t) := by
  induction h with
  | nil cur => exact ⟨le_rfl, fun _ hmem => absurd hmem List.not_mem_nil, .nil⟩
  | ask hserve ht ih => exact ih.cons hserve
  | emit ht ih => exact ih

def NeverFull (t : List BuildEvent) : Prop := ∀ bytes align, .ask (.malloc bytes align) none ∉ t

theorem NeverFull.mono {t' : List BuildEvent} (h : NeverFull t) (hsub : ∀ e ∈ t', e ∈ t) :
    NeverFull t' :=
  fun bytes align hmem => h bytes align (hsub _ hmem)

theorem NeverFull.cur_lt (hnever : NeverFull t) (h : Answered (Serves endBytes) cur t cur')
    (hlt : cur < endBytes) : cur' < endBytes := by
  induction h with
  | nil cur => exact hlt
  | ask hserve ht ih =>
      have hrest := hnever.mono (fun e he => List.mem_cons_of_mem _ he)
      cases hserve with
      | malloc hserve =>
          cases hserve with
          | full hfull => exact absurd (List.mem_cons_self ..) (hnever _ _)
          | taken htaken => exact ih hrest htaken
          | overshoot hover => exact absurd (List.mem_cons_self ..) (hnever _ _)
      | bytesAllocated => exact ih hrest hlt
  | emit ht ih => exact ih (hnever.mono (fun e he => List.mem_cons_of_mem _ he)) hlt

theorem blocks_eq_nil (h : Answered (Serves endBytes) cur t cur') (hle : endBytes ≤ cur) :
    blocks t = [] := by
  have hout := handedOut h
  refine List.eq_nil_iff_forall_not_mem.2 (fun block hblock => ?_)
  have hbase := (hout.inside block hblock).1
  have hlt := (hout.inside block hblock).2.2
  omega

end RTBuild
