import RTBuild.Bytes
import RTBuild.Memory

namespace RTBuild

open Library.Task Allocator

/-- What a thread does with the current pointer of the allocator at once. -/
inductive Operation
  | loadEnd (bytes align : Nat)
  | loadPadding (bytes align : Nat)
  | fetchAdd (bytes align extra : Nat)
  | bytesAllocated

abbrev OperationTask := Prog Operation Nat Action Error ReductionTy

abbrev OperationEvent := Event Operation Nat Action

abbrev OperationRun := Run (Q := Operation) (A := Nat) (E := Action) (X := Error) ReductionTy.valid

inductive Performs : Nat → Operation → Nat → Nat → Prop
  | loadEnd (cur bytes align) : Performs cur (.loadEnd bytes align) cur cur
  | loadPadding (cur bytes align) : Performs cur (.loadPadding bytes align) cur cur
  | fetchAdd (cur bytes align extra) :
      Performs cur (.fetchAdd bytes align extra) cur (wrap (cur + (bytes + extra)))
  | bytesAllocated (cur) : Performs cur .bytesAllocated cur cur

def mallocResult (endBytes bytes extra curOld : Nat) : Option Nat :=
  if endBytes ≤ wrap (curOld + (bytes + extra)) then none else some (curOld + extra)

section operations

variable (endBytes : Nat)

def mallocAdd (bytes align extra : Nat) (k : Option Nat → OperationTask) : OperationTask :=
  .ask (.fetchAdd bytes align extra) (fun curOld => k (mallocResult endBytes bytes extra curOld))

def mallocPad (bytes align : Nat) (k : Option Nat → OperationTask) : OperationTask :=
  .ask (.loadPadding bytes align) (fun cur => mallocAdd endBytes bytes align (padding align cur) k)

/-- Allocator::malloc as its three accesses to the current pointer. -/
def malloc (bytes align : Nat) (k : Option Nat → OperationTask) : OperationTask :=
  .ask (.loadEnd bytes align) (fun cur =>
    if endBytes ≤ cur then k none else mallocPad endBytes bytes align k)

def perform : Query → (Option Nat → OperationTask) → OperationTask
  | .malloc bytes align, k => malloc endBytes bytes align k
  | .bytesAllocated, k => .ask .bytesAllocated (fun cur => k (some cur))

/-- The access at which a call takes effect. -/
def effect : OperationEvent → Option BuildEvent
  | .ask (.loadEnd bytes align) cur =>
      if endBytes ≤ cur then some (.ask (.malloc bytes align) none) else none
  | .ask (.loadPadding _ _) _ => none
  | .ask (.fetchAdd bytes align extra) curOld =>
      some (.ask (.malloc bytes align) (mallocResult endBytes bytes extra curOld))
  | .ask .bytesAllocated cur => some (.ask .bytesAllocated (some cur))
  | .emit e => some (.emit e)

/-- What is left of a call of malloc(bytes,64) at each place of a thread. -/
def rest (k : Option Nat → OperationTask) : Pc → Option OperationTask
  | .idle => none
  | .loadEnd bytes => some (malloc endBytes bytes 64 k)
  | .loadPadding bytes => some (mallocPad endBytes bytes 64 k)
  | .fetchAdd bytes extra => some (mallocAdd endBytes bytes 64 extra k)
  | .compare bytes extra curOld => some (k (mallocResult endBytes bytes extra curOld))

end operations

/-- The padding that a thread adds comes from a load before it, perhaps an old one. -/
def Padded (l : List OperationEvent) : OperationEvent → Prop
  | .ask (.fetchAdd bytes align extra) _ =>
      ∃ cur, .ask (.loadPadding bytes align) cur ∈ l ∧ extra = padding align cur
  | _ => True

theorem Padded.mono {l l' : List OperationEvent} {e : OperationEvent} (hsub : l ⊆ l')
    (h : Padded l e) : Padded l' e := by
  rcases e with ⟨_ | _ | ⟨bytes, align, extra⟩ | _, a⟩ | e
  · trivial
  · trivial
  · obtain ⟨cur, hmem, rfl⟩ := h
    exact ⟨cur, hsub hmem, rfl⟩
  · trivial
  · trivial

variable {endBytes : Nat}

theorem ordered_malloc {bytes align cur cur' curOld : Nat} :
    Ordered Padded [.ask (.loadEnd bytes align) cur, .ask (.loadPadding bytes align) cur',
      .ask (.fetchAdd bytes align (padding align cur')) curOld] := by
  intro t₁ x t₂ heq
  rcases t₁ with _ | ⟨e, _ | ⟨e', _ | ⟨e'', t₁⟩⟩⟩
  · obtain ⟨rfl, -⟩ := List.cons.inj heq
    trivial
  · simp only [List.cons_append, List.nil_append, List.cons.injEq] at heq
    obtain ⟨-, rfl, -⟩ := heq
    trivial
  · simp only [List.cons_append, List.nil_append, List.cons.injEq] at heq
    obtain ⟨-, rfl, rfl, -⟩ := heq
    exact ⟨cur', List.mem_cons_of_mem _ List.mem_cons_self, rfl⟩
  · simp at heq

theorem malloc_run {bytes align : Nat} {k : Option Nat → OperationTask} {t : List OperationEvent}
    {o : BuildOutcome} (h : OperationRun (malloc endBytes bytes align k) t o) :
    ∃ a t₁ t₂, t = t₁ ++ t₂ ∧ t₁.filterMap (effect endBytes) = [.ask (.malloc bytes align) a] ∧
      Ordered Padded t₁ ∧ OperationRun (k a) t₂ o := by
  cases h with
  | ask cur h =>
      by_cases hfull : endBytes ≤ cur
      · simp only [if_pos hfull] at h
        refine ⟨none, [.ask (.loadEnd bytes align) cur], _, rfl, ?_, ?_, h⟩
        · simp [effect, hfull]
        · exact .cons (fun l l' e hsub hpadded => hpadded.mono hsub) trivial .nil
      · simp only [if_neg hfull] at h
        cases h with
        | ask cur' h =>
            cases h with
            | ask curOld h =>
                have hnone : effect endBytes (.ask (.loadEnd bytes align) cur) = none := if_neg hfull
                refine ⟨_, [.ask (.loadEnd bytes align) cur, _, _], _, rfl, ?_, ordered_malloc, h⟩
                rw [List.filterMap_cons_none hnone]
                rfl

theorem perform_implements :
    Implements ReductionTy.valid (perform endBytes) (effect endBytes) Padded where
  emit e := rfl
  allowed l e := trivial
  mono l l' e hsub h := h.mono hsub
  run q k t o h := by
    cases q with
    | malloc bytes align => exact malloc_run h
    | bytesAllocated =>
        cases h with
        | ask cur h =>
            refine ⟨some cur, [.ask .bytesAllocated cur], _, rfl, rfl, ?_, h⟩
            exact .cons (fun l l' e hsub hpadded => hpadded.mono hsub) trivial .nil

def LoadsAligned (l : List OperationEvent) : Prop :=
  ∀ bytes align c, .ask (.loadPadding bytes align) c ∈ l → c % 64 = 0

theorem LoadsAligned.snoc {l : List OperationEvent} {e : OperationEvent} (h : LoadsAligned l)
    (he : ∀ bytes align c, e = .ask (.loadPadding bytes align) c → c % 64 = 0) :
    LoadsAligned (l ++ [e]) := by
  intro bytes align c hmem
  rcases List.mem_append.1 hmem with hmem | hmem
  · exact h bytes align c hmem
  · exact he bytes align c (List.mem_singleton.1 hmem).symm

theorem fetchAdd_serves {cur bytes align : Nat} (hlt : cur + bytes < 2 ^ 64) :
    Serves endBytes cur (.malloc bytes align) (mallocResult endBytes bytes 0 cur)
      (wrap (cur + (bytes + 0))) := by
  have hwrap : wrap (cur + (bytes + 0)) = cur + bytes := Nat.mod_eq_of_lt hlt
  rw [mallocResult, hwrap]
  by_cases hover : endBytes ≤ cur + bytes
  · rw [if_pos hover]
    exact .malloc (.overshoot hover)
  · rw [if_neg hover, Nat.add_zero]
    exact .malloc (.taken (Nat.lt_of_not_le hover))

section access

variable {seen t : List OperationEvent} {q : Operation} {cur a cur₁ cur' : Nat}

/-- An access that ends a call serves it, and all others leave the pointer as it is. -/
theorem Performs.serves (h : Performs cur q a cur₁) (hpadded : Padded seen (.ask q a))
    (hseen : LoadsAligned seen) (hcur : cur % 64 = 0)
    (hcells : WholeCells ([Event.ask q a].filterMap (effect endBytes)))
    (hlt : cur + requestedBytes ([Event.ask q a].filterMap (effect endBytes)) < 2 ^ 64) :
    Answered (Serves endBytes) cur ([Event.ask q a].filterMap (effect endBytes)) cur₁ ∧
      cur₁ % 64 = 0 ∧
      cur₁ ≤ cur + requestedBytes ([Event.ask q a].filterMap (effect endBytes)) := by
  cases h with
  | loadEnd bytes align =>
      refine ⟨?_, hcur, Nat.le_add_right _ _⟩
      by_cases hfull : endBytes ≤ cur
      · have hsome : effect endBytes (.ask (.loadEnd bytes align) cur) =
            some (.ask (.malloc bytes align) none) := if_pos hfull
        rw [List.filterMap_cons_some hsome]
        exact .ask (.malloc (.full hfull)) (.nil cur)
      · have hnone : effect endBytes (.ask (.loadEnd bytes align) cur) = none := if_neg hfull
        rw [List.filterMap_cons_none hnone]
        exact .nil cur
  | loadPadding bytes align => exact ⟨.nil cur, hcur, Nat.le_add_right _ _⟩
  | fetchAdd bytes align extra =>
      obtain ⟨c, hmem, hextra⟩ := hpadded
      obtain ⟨hmod, halign⟩ := hcells bytes align _ List.mem_cons_self
      obtain rfl : extra = 0 := hextra.trans (padding_eq_zero halign (hseen bytes align c hmem))
      have hbytes : cur + bytes < 2 ^ 64 := hlt
      have hwrap : wrap (cur + (bytes + 0)) = cur + bytes := Nat.mod_eq_of_lt hbytes
      refine ⟨.ask (fetchAdd_serves hbytes) (.nil _), ?_, hwrap.le⟩
      rw [hwrap]
      omega
  | bytesAllocated => exact ⟨.ask (.bytesAllocated cur) (.nil cur), hcur, Nat.le_add_right _ _⟩

/-- The list of events before the trace keeps the loads that paddings come from. -/
theorem answered_of_performs (h : Answered Performs cur t cur') (hpadded : Ordered Padded (seen ++ t))
    (hseen : LoadsAligned seen) (hcur : cur % 64 = 0)
    (hcells : WholeCells (t.filterMap (effect endBytes)))
    (hlt : cur + requestedBytes (t.filterMap (effect endBytes)) < 2 ^ 64) :
    Answered (Serves endBytes) cur (t.filterMap (effect endBytes)) cur' := by
  induction h generalizing seen with
  | nil cur => exact .nil cur
  | @emit cur cur' e t ht ih =>
      have hrest : WholeCells (t.filterMap (effect endBytes)) :=
        fun bytes align a he => hcells bytes align a (List.mem_cons_of_mem _ he)
      have hsum : cur + requestedBytes (t.filterMap (effect endBytes)) < 2 ^ 64 := by
        rw [← Nat.zero_add (requestedBytes _)]
        exact hlt
      rw [List.append_cons] at hpadded
      exact .emit (ih hpadded (hseen.snoc (fun _ _ _ heq => nomatch heq)) hcur hrest hsum)
  | @ask cur cur₁ cur' q a t hperform ht ih =>
      have happend : (Event.ask q a :: t).filterMap (effect endBytes) =
          [Event.ask q a].filterMap (effect endBytes) ++ t.filterMap (effect endBytes) :=
        List.filterMap_append (l := [Event.ask q a])
      rw [happend] at hcells hlt ⊢
      rw [requestedBytes_append] at hlt
      obtain ⟨hfirst, hcur₁, hle⟩ := hperform.serves (hpadded seen _ t rfl) hseen hcur
        (fun bytes align a he => hcells bytes align a (List.mem_append_left _ he)) (by omega)
      have hseen' : LoadsAligned (seen ++ [.ask q a]) := by
        refine hseen.snoc (fun bytes align c heq => ?_)
        cases heq
        cases hperform
        exact hcur
      rw [List.append_cons] at hpadded
      exact hfirst.append (ih hpadded hseen' hcur₁
        (fun bytes align a he => hcells bytes align a (List.mem_append_right _ he)) (by omega))

end access

theorem bufferRun_of_performs {p : BuildTask} {t : List OperationEvent} {o : BuildOutcome}
    {cur cur' : Nat} (hrun : OperationRun (p.implement (perform endBytes)) t o)
    (hperform : Answered Performs cur t cur') (hcur : cur % 64 = 0)
    (hcells : WholeCells (t.filterMap (effect endBytes)))
    (hlt : cur + requestedBytes (t.filterMap (effect endBytes)) < 2 ^ 64) :
    BufferRun endBytes p cur (t.filterMap (effect endBytes)) o cur' := by
  obtain ⟨hbuild, hordered⟩ := perform_implements.of_run hrun
  have hordered' : Ordered Padded ([] ++ t) := hordered
  exact ⟨hbuild, answered_of_performs hperform hordered'
    (fun _ _ _ hmem => absurd hmem List.not_mem_nil) hcur hcells hlt⟩

section build

variable {b : BuilderT} {fuel : Nat} {prims : Nat → PrimRef} {pinfo : PrimInfoRange}
  {t : List BuildEvent} {o : BuildOutcome}

theorem buildBvh_wholeCells {root : Option Nat} (h : BuildRun (buildBvh b fuel prims pinfo root) t o) :
    WholeCells t := by
  rcases buildBvh_run h with ⟨-, rfl, -⟩ | ⟨-, h⟩
  · intro bytes align a he
    cases List.mem_singleton.1 he
  · exact Plan.wholeCells h

theorem mallocRoots_wholeCells (header root : Option Nat) : WholeCells (mallocRoots header root) := by
  intro bytes align a he
  simp only [mallocRoots, List.mem_cons, List.not_mem_nil, or_false] at he
  rcases he with he | he | he <;> cases he
  · decide
  · decide

theorem build_wholeCells (h : BuildRun (build b fuel prims pinfo) t o) : WholeCells t := by
  cases build_run h with
  | threw header root t x hbvh =>
      exact (mallocRoots_wholeCells header root).append (buildBvh_wholeCells hbvh)
  | retry header root t v hbvh hv =>
      exact (mallocRoots_wholeCells header root).append (buildBvh_wholeCells hbvh)
  | done header root t v bytes hbvh hv =>
      refine (mallocRoots_wholeCells header root).append ((buildBvh_wholeCells hbvh).append ?_)
      intro bytes align a he
      simp [doneEvents, storeEvents] at he

theorem build_bytes_le (h : BuildRun (build b fuel prims pinfo) t o) :
    requestedBytes t ≤ builtBytes b fuel prims pinfo := by
  have hroots : ∀ header root, requestedBytes (mallocRoots header root) = headerBytes + nodeBytes :=
    fun header root => rfl
  cases build_run h with
  | threw header root t x hbvh =>
      rw [requestedBytes_append, hroots]
      exact buildBvh_bytes_le hbvh
  | retry header root t v hbvh hv =>
      rw [requestedBytes_append, hroots]
      exact buildBvh_bytes_le hbvh
  | done header root t v bytes hbvh hv =>
      rw [requestedBytes_append, requestedBytes_append, hroots]
      exact buildBvh_bytes_le hbvh

/-- A build over a buffer takes its blocks as if every call of malloc took effect at once, however
the tasks take turns between the accesses to the current pointer. -/
theorem build_of_performs {t : List OperationEvent} {cur' : Nat}
    (hrun : OperationRun ((build b fuel prims pinfo).implement (perform endBytes)) t o)
    (hperform : Answered Performs 0 t cur') (hlt : builtBytes b fuel prims pinfo < 2 ^ 64) :
    BufferRun endBytes (build b fuel prims pinfo) 0 (t.filterMap (effect endBytes)) o cur' := by
  have hbuild := (perform_implements.of_run hrun).1
  refine bufferRun_of_performs hrun hperform rfl (build_wholeCells hbuild) ?_
  rw [Nat.zero_add]
  exact (build_bytes_le hbuild).trans_lt hlt

end build

section threads

variable {T : Type} [DecidableEq T] {s s' : State T}

/-- A step of a thread begins a call, is the access that its call is at, or ends it. -/
theorem step_performs (h : Allocator.Step endBytes s s') (k : Option Nat → OperationTask) :
    (∃ t bytes, s.pc t = .idle ∧ s' = s.move t (.loadEnd bytes)) ∨
      (∃ t bytes result, rest endBytes k (s.pc t) = some (k result) ∧ s' = s.finish t bytes result) ∨
      ∃ t q f a, rest endBytes k (s.pc t) = some (.ask q f) ∧ Performs s.cur q a s'.cur ∧
        (rest endBytes k (s'.pc t) = some (f a) ∨
          ∃ bytes, s' = s.finish t bytes none ∧ f a = k none) := by
  cases h with
  | call t bytes hpc hpos hmod => exact Or.inl ⟨t, bytes, hpc, rfl⟩
  | full t bytes hpc hcur =>
      refine Or.inr (Or.inr ⟨t, _, _, s.cur, by rw [hpc]; rfl, .loadEnd .., Or.inr ⟨bytes, rfl, ?_⟩⟩)
      exact if_pos hcur
  | room t bytes hpc hcur =>
      refine Or.inr (Or.inr ⟨t, _, _, s.cur, by rw [hpc]; rfl, .loadEnd .., Or.inl ?_⟩)
      rw [move_pc_self, if_neg (Nat.not_le.2 hcur)]
      rfl
  | pad t bytes hpc =>
      refine Or.inr (Or.inr ⟨t, _, _, s.cur, by rw [hpc]; rfl, .loadPadding .., Or.inl ?_⟩)
      rw [move_pc_self]
      rfl
  | add t bytes extra hpc =>
      refine Or.inr (Or.inr ⟨t, _, _, s.cur, by rw [hpc]; rfl, .fetchAdd .., Or.inl ?_⟩)
      simp [State.take, rest]
  | fail t bytes extra curOld hpc hcur =>
      refine Or.inr (Or.inl ⟨t, bytes, none, ?_, rfl⟩)
      rw [hpc, rest, mallocResult, if_pos hcur]
  | succeed t bytes extra curOld hpc hcur =>
      refine Or.inr (Or.inl ⟨t, bytes, some (curOld + extra), ?_, rfl⟩)
      rw [hpc, rest, mallocResult, if_neg (Nat.not_le.2 hcur)]

end threads

end RTBuild
