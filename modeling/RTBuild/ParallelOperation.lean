import RTBuild.Library.Transition

namespace RTBuild.ParallelOperation

open Relation Library.Transition

inductive ZeResult
  | success
  | errorUnknown
  | errorInvalidArgument
  | errorInvalidEnumeration
  | errorInvalidNullPointer
  | errorHandleObjectInUse
  | rtasBuildDeferred
  | rtasBuildRetry
  deriving DecidableEq, Repr

inductive Operation
  | build
  | getProperties
  | join
  deriving DecidableEq, Repr

/-- Where a client is inside a call, named by the atomic access that comes
next. Builds are numbered in the order in which they found the handle free. -/
inductive Pc
  | idle
  | buildLoad
  | buildStore (b : Nat)
  | buildRun (b : Nat)
  | propertiesLoad
  | joinWait
  | joinStore (waited : Option Nat)
  | joinLoad (waited : Option Nat)
  deriving DecidableEq, Repr

inductive Task
  | none
  | accepted
  | submitted
  | finished (code : ZeResult)
  deriving DecidableEq, Repr

def Task.Unfinished (task : Task) : Prop := task = .accepted ∨ task = .submitted

inductive Return
  | build (result : ZeResult)
  | getProperties (result : ZeResult)
  | join (waited : Option Nat) (result : ZeResult)
  deriving DecidableEq, Repr

/-- The handle with the clients that use it. The build that a Join waits for is
the one submitted last when its wait returns. -/
structure State (T : Type) where
  objectInUse : Bool
  errorCode : ZeResult
  pc : T → Pc
  task : Nat → Task
  builds : Nat
  lastSubmitted : Option Nat
  lastFinished : Option Nat
  returned : List (T × Return)

def State.create (T : Type) : State T :=
  ⟨false, .success, fun _ => .idle, fun _ => .none, 0, none, none, []⟩

inductive Event (T : Type)
  | call (t : T) (op : Operation)
  | advance (t : T)
  | finish (b : Nat) (code : ZeResult)

variable {T : Type} [DecidableEq T]

def Operation.start : Operation → Pc
  | .build => .buildLoad
  | .getProperties => .propertiesLoad
  | .join => .joinWait

def State.move (s : State T) (t : T) (pc : Pc) : State T := { s with pc := Function.update s.pc t pc }

def State.ret (s : State T) (t : T) (r : Return) : State T :=
  { s.move t .idle with returned := (t, r) :: s.returned }

def State.setTask (s : State T) (b : Nat) (task : Task) : State T :=
  { s with task := Function.update s.task b task }

def State.advance (s : State T) (t : T) : State T :=
  match s.pc t with
  | .idle => s
  | .buildLoad =>
      if s.objectInUse then s.ret t (.build .errorHandleObjectInUse)
      else { (s.move t (.buildStore s.builds)).setTask s.builds .accepted with builds := s.builds + 1 }
  | .buildStore b => { s.move t (.buildRun b) with objectInUse := true }
  | .buildRun b =>
      { (s.ret t (.build .rtasBuildDeferred)).setTask b .submitted with lastSubmitted := some b }
  | .propertiesLoad =>
      s.ret t (.getProperties (if s.objectInUse then .success else .errorInvalidArgument))
  | .joinWait => s.move t (.joinStore s.lastSubmitted)
  | .joinStore waited => { s.move t (.joinLoad waited) with objectInUse := false }
  | .joinLoad waited => s.ret t (.join waited s.errorCode)

def State.next (s : State T) : Event T → State T
  | .call t op => s.move t op.start
  | .advance t => s.advance t
  | .finish b code => { s.setTask b (.finished code) with errorCode := code, lastFinished := some b }

def Enabled (s : State T) : Event T → Prop
  | .call t _ => s.pc t = .idle
  | .advance t => s.pc t ≠ .idle ∧ (s.pc t = .joinWait → ∀ b, s.task b ≠ .submitted)
  | .finish b _ => s.task b = .submitted

def Step (s s' : State T) : Prop := ∃ e, Enabled s e ∧ s' = s.next e

structure Safe (s : State T) : Prop where
  one_build : ∀ b b', (s.task b).Unfinished → (s.task b').Unfinished → b = b'
  in_use : ∀ b, s.task b = .submitted → s.objectInUse = true
  join_code : ∀ t b code, (t, .join (some b) code) ∈ s.returned → s.task b = .finished code

def Rejects (s : State T) (e : Event T) : Prop :=
  ∀ t b, e = .advance t → s.pc t = .buildLoad → (s.task b).Unfinished →
    s.next e = s.ret t (.build .errorHandleObjectInUse)

/-- When the unguarded accesses do no harm. No Build finds the handle free
between the load and the store of another one, no Join clears the flag while a
build that has set it is unfinished, and no Join loads the error code after a
later build has replaced the one it waited for. -/
def Exclusive (s : State T) : Event T → Prop
  | .call _ _ => True
  | .finish _ _ => True
  | .advance t =>
      match s.pc t with
      | .buildLoad => s.objectInUse = false → ∀ u b, s.pc u ≠ .buildStore b
      | .joinStore _ => (∀ u b, s.pc u ≠ .buildRun b) ∧ ∀ b, s.task b ≠ .submitted
      | .joinLoad (some b) => s.lastFinished = some b
      | _ => True

def ExclusiveStep (s s' : State T) : Prop := ∃ e, Enabled s e ∧ Exclusive s e ∧ s' = s.next e

def Pc.build : Pc → Option Nat
  | .buildStore b | .buildRun b => some b
  | _ => none

structure Inv (s : State T) : Prop where
  task_none : ∀ b, s.builds ≤ b → s.task b = .none
  pc_accepted : ∀ t b, (s.pc t).build = some b → s.task b = .accepted
  accepted_pc : ∀ b, s.task b = .accepted → ∃ t, (s.pc t).build = some b
  pc_unique : ∀ t u b, (s.pc t).build = some b → (s.pc u).build = some b → t = u
  one_build : ∀ b b', (s.task b).Unfinished → (s.task b').Unfinished → b = b'
  run_in_use : ∀ t b, s.pc t = .buildRun b → s.objectInUse = true
  submitted_in_use : ∀ b, s.task b = .submitted → s.objectInUse = true
  error_code : ∀ b, s.lastFinished = some b → s.task b = .finished s.errorCode
  join_code : ∀ t b code, (t, .join (some b) code) ∈ s.returned → s.task b = .finished code

@[simp] theorem move_pc_self (s : State T) (t : T) (pc : Pc) : (s.move t pc).pc t = pc := by
  simp [State.move]

@[simp] theorem move_pc_of_ne (s : State T) {t u : T} (pc : Pc) (h : u ≠ t) :
    (s.move t pc).pc u = s.pc u := by
  simp [State.move, h]

variable {s s' : State T}

omit [DecidableEq T] in
theorem Inv.create : Inv (State.create T) where
  task_none := fun _ _ => rfl
  pc_accepted := fun _ _ h => nomatch h
  accepted_pc := fun _ h => nomatch h
  pc_unique := fun _ _ _ h => nomatch h
  one_build := fun _ _ h => by rcases h with h | h <;> exact nomatch h
  run_in_use := fun _ _ h => nomatch h
  submitted_in_use := fun _ h => nomatch h
  error_code := fun _ h => nomatch h
  join_code := fun _ _ _ h => nomatch h

/-- A client that moves inside a call other than Build, or into or out of any
call, says nothing about the builds. -/
theorem build_move {t u : T} {pc : Pc} (hnew : pc.build = (s.pc t).build) :
    ((s.move t pc).pc u).build = (s.pc u).build := by
  by_cases hu : u = t
  · subst hu
    rw [move_pc_self, hnew]
  · rw [move_pc_of_ne s pc hu]

theorem Inv.move (h : Inv s) {t : T} {pc : Pc} (hnew : pc.build = (s.pc t).build)
    (hrun : ∀ b, pc = .buildRun b → s.objectInUse = true) : Inv (s.move t pc) where
  task_none := h.task_none
  pc_accepted := fun u b hu => h.pc_accepted u b (build_move hnew ▸ hu)
  accepted_pc := fun b hb => (h.accepted_pc b hb).imp fun u hu => (build_move hnew).trans hu
  pc_unique := fun u v b hu hv => h.pc_unique u v b (build_move hnew ▸ hu) (build_move hnew ▸ hv)
  one_build := h.one_build
  run_in_use := by
    intro u b hu
    by_cases hut : u = t
    · subst hut
      exact hrun b ((move_pc_self s u pc).symm.trans hu)
    · exact h.run_in_use u b ((move_pc_of_ne s pc hut).symm.trans hu)
  submitted_in_use := h.submitted_in_use
  error_code := h.error_code
  join_code := h.join_code

theorem Inv.ret (h : Inv s) {t : T} (hold : (s.pc t).build = none) {r : Return}
    (hr : ∀ b code, r = .join (some b) code → s.task b = .finished code) : Inv (s.ret t r) := by
  have hm : Inv (s.move t .idle) := h.move hold.symm (fun _ hpc => nomatch hpc)
  refine { hm with join_code := ?_ }
  intro u b code hmem
  rcases List.mem_cons.1 hmem with heq | hmem
  · exact hr b code (Prod.mk.inj heq).2.symm
  · exact h.join_code u b code hmem

omit [DecidableEq T] in
theorem Inv.setInUse (h : Inv s) : Inv { s with objectInUse := true } :=
  { h with run_in_use := fun _ _ _ => rfl, submitted_in_use := fun _ _ => rfl }

omit [DecidableEq T] in
theorem Inv.clearInUse (h : Inv s) (hrun : ∀ t b, s.pc t ≠ .buildRun b)
    (hsubmitted : ∀ b, s.task b ≠ .submitted) : Inv { s with objectInUse := false } :=
  { h with
    run_in_use := fun t b ht => absurd ht (hrun t b)
    submitted_in_use := fun b hb => absurd hb (hsubmitted b) }

omit [DecidableEq T] in
/-- With the flag down and nobody before its store, no build is unfinished. -/
theorem Inv.none_unfinished (h : Inv s) (huse : s.objectInUse = false)
    (hstore : ∀ u b, s.pc u ≠ .buildStore b) (b : Nat) : ¬ (s.task b).Unfinished := by
  rintro (hacc | hsub)
  · obtain ⟨u, hu⟩ := h.accepted_pc b hacc
    cases hpc : s.pc u with
    | buildStore c => exact hstore u c hpc
    | buildRun c => simp [h.run_in_use u c hpc] at huse
    | _ => simp [hpc, Pc.build] at hu
  · simp [h.submitted_in_use b hsub] at huse

theorem Inv.accept (h : Inv s) {t : T} (hpc : s.pc t = .buildLoad)
    (hfree : ∀ b, ¬ (s.task b).Unfinished) :
    Inv { (s.move t (.buildStore s.builds)).setTask s.builds .accepted with
      builds := s.builds + 1 } := by
  have hnew : ∀ b, Function.update s.task s.builds .accepted b = .none ∨ b = s.builds ∨
      ∃ code, Function.update s.task s.builds .accepted b = .finished code ∧
        s.task b = .finished code := by
    intro b
    by_cases hb : b = s.builds
    · exact Or.inr (Or.inl hb)
    · rw [Function.update_of_ne hb]
      cases htask : s.task b with
      | none => exact Or.inl rfl
      | accepted => exact absurd (Or.inl htask) (hfree b)
      | submitted => exact absurd (Or.inr htask) (hfree b)
      | finished code => exact Or.inr (Or.inr ⟨code, rfl, rfl⟩)
  have hfinished : ∀ {b code}, s.task b = .finished code →
      Function.update s.task s.builds .accepted b = .finished code := by
    intro b code hb
    have hne : b ≠ s.builds := by
      rintro rfl
      simp [h.task_none s.builds (Nat.le_refl _)] at hb
    rw [Function.update_of_ne hne, hb]
  have hother : ∀ {u b}, u ≠ t → (s.pc u).build = some b → False :=
    fun _ hu => hfree _ (Or.inl (h.pc_accepted _ _ hu))
  have hbuild : ∀ {u b}, ((s.move t (.buildStore s.builds)).pc u).build = some b →
      u = t ∧ b = s.builds := by
    intro u b hu
    by_cases hut : u = t
    · subst hut
      rw [move_pc_self] at hu
      exact ⟨rfl, (Option.some.inj hu).symm⟩
    · rw [move_pc_of_ne s _ hut] at hu
      exact (hother hut hu).elim
  have honly : ∀ {b}, Task.Unfinished (Function.update s.task s.builds .accepted b) → b = s.builds := by
    intro b hb
    rcases hnew b with hn | hb' | ⟨code, hf, -⟩
    · rcases hb with hb | hb <;> rw [hn] at hb <;> exact nomatch hb
    · exact hb'
    · rcases hb with hb | hb <;> rw [hf] at hb <;> exact nomatch hb
  have haccepted : Function.update s.task s.builds .accepted s.builds = .accepted :=
    Function.update_self ..
  have hsubmitted : ∀ b, Function.update s.task s.builds .accepted b ≠ .submitted := by
    intro b hb
    have hb' := honly (Or.inr hb)
    subst hb'
    rw [haccepted] at hb
    exact nomatch hb
  constructor
  · intro b hb
    have hne : b ≠ s.builds := by
      rintro rfl
      exact absurd hb (Nat.not_succ_le_self _)
    exact (Function.update_of_ne hne ..).trans (h.task_none b (Nat.le_of_succ_le hb))
  · intro u b hu
    obtain ⟨-, rfl⟩ := hbuild hu
    exact haccepted
  · intro b hb
    obtain rfl := honly (Or.inl hb)
    exact ⟨t, congrArg Pc.build (move_pc_self s t _)⟩
  · exact fun u v b hu hv => (hbuild hu).1.trans (hbuild hv).1.symm
  · exact fun b b' hb hb' => (honly hb).trans (honly hb').symm
  · intro u b hu
    by_cases hut : u = t
    · subst hut
      exact nomatch (move_pc_self s u _).symm.trans hu
    · exact (hother hut (congrArg Pc.build ((move_pc_of_ne s _ hut).symm.trans hu))).elim
  · exact fun b hb => absurd hb (hsubmitted b)
  · exact fun b hb => hfinished (h.error_code b hb)
  · exact fun u b code hmem => hfinished (h.join_code u b code hmem)

theorem Inv.submit (h : Inv s) {t : T} {b : Nat} (hpc : s.pc t = .buildRun b) :
    Inv { (s.ret t (.build .rtasBuildDeferred)).setTask b .submitted with lastSubmitted := some b } := by
  have hacc : s.task b = .accepted := h.pc_accepted t b (by rw [hpc]; rfl)
  have honly : ∀ {c}, (s.task c).Unfinished → c = b := fun hc => h.one_build _ b hc (Or.inl hacc)
  have hother : ∀ {c}, c ≠ b → Function.update s.task b .submitted c = s.task c :=
    fun hc => Function.update_of_ne hc ..
  have hself : Function.update s.task b .submitted b = .submitted := Function.update_self ..
  have hfinished : ∀ {c code}, s.task c = .finished code →
      Function.update s.task b .submitted c = .finished code := by
    intro c code hc
    have hne : c ≠ b := by
      rintro rfl
      rw [hacc] at hc
      exact nomatch hc
    rw [hother hne, hc]
  have hbuild : ∀ {u c}, ((s.move t .idle).pc u).build = some c → False := by
    intro u c hu
    by_cases hut : u = t
    · subst hut
      rw [move_pc_self] at hu
      exact nomatch hu
    · rw [move_pc_of_ne s _ hut] at hu
      obtain rfl := honly (Or.inl (h.pc_accepted u c hu))
      exact hut (h.pc_unique u t c hu (by rw [hpc]; rfl))
  have hunfinished : ∀ {c}, Task.Unfinished (Function.update s.task b .submitted c) → c = b := by
    intro c hc
    by_contra hne
    rw [hother hne] at hc
    exact hne (honly hc)
  have huse := h.run_in_use t b hpc
  constructor
  · intro c hc
    have hne : c ≠ b := by
      rintro rfl
      rw [h.task_none c hc] at hacc
      exact nomatch hacc
    exact (hother hne).trans (h.task_none c hc)
  · exact fun u c hu => (hbuild hu).elim
  · intro c hc
    obtain rfl := hunfinished (Or.inl hc)
    exact nomatch hself.symm.trans hc
  · exact fun u v c hu _ => (hbuild hu).elim
  · exact fun c c' hc hc' => (hunfinished hc).trans (hunfinished hc').symm
  · exact fun u c hu => huse
  · exact fun c hc => huse
  · exact fun c hc => hfinished (h.error_code c hc)
  · intro u c code hmem
    rcases List.mem_cons.1 hmem with heq | hmem
    · exact nomatch (Prod.mk.inj heq).2
    · exact hfinished (h.join_code u c code hmem)

theorem Inv.finish (h : Inv s) {b : Nat} (hsub : s.task b = .submitted) (code : ZeResult) :
    Inv (s.next (.finish b code)) := by
  have honly : ∀ {c}, (s.task c).Unfinished → c = b := fun hc => h.one_build _ b hc (Or.inr hsub)
  have hother : ∀ {c}, c ≠ b → Function.update s.task b (.finished code) c = s.task c :=
    fun hc => Function.update_of_ne hc ..
  have hself : Function.update s.task b (.finished code) b = .finished code := Function.update_self ..
  have hdone : ∀ {c}, ¬ Task.Unfinished (Function.update s.task b (.finished code) c) := by
    intro c hc
    by_cases hcb : c = b
    · subst hcb
      rcases hc with hc | hc <;> exact nomatch hself.symm.trans hc
    · rw [hother hcb] at hc
      exact hcb (honly hc)
  have hne : ∀ {c task}, s.task c = task → task ≠ .submitted → c ≠ b := by
    rintro c task hc htask rfl
    exact htask (hc.symm.trans hsub)
  constructor
  · intro c hc
    have htask := h.task_none c hc
    exact (hother (hne htask (by simp))).trans htask
  · intro u c hu
    have htask := h.pc_accepted u c hu
    exact (hother (hne htask (by simp))).trans htask
  · exact fun c hc => absurd (Or.inl hc) hdone
  · exact h.pc_unique
  · exact fun c c' hc _ => absurd hc hdone
  · exact h.run_in_use
  · exact fun c hc => absurd (Or.inr hc) hdone
  · intro c hc
    obtain rfl := Option.some.inj hc
    exact hself
  · intro u c code' hmem
    have htask := h.join_code u c code' hmem
    exact (hother (hne htask (by simp))).trans htask

theorem Inv.advance (h : Inv s) {t : T} (hexcl : Exclusive s (.advance t)) : Inv (s.advance t) := by
  cases hpc : s.pc t with
  | idle => simpa only [State.advance, hpc] using h
  | buildLoad =>
      simp only [State.advance, hpc]
      simp only [Exclusive, hpc] at hexcl
      split
      · exact h.ret (by rw [hpc]; rfl) (fun _ _ hr => nomatch hr)
      · have huse : s.objectInUse = false := Bool.eq_false_iff.2 ‹_›
        exact h.accept hpc (h.none_unfinished huse (hexcl huse))
  | buildStore b =>
      simp only [State.advance, hpc]
      exact h.setInUse.move (by rw [hpc]; rfl) (fun _ _ => rfl)
  | buildRun b =>
      simp only [State.advance, hpc]
      exact h.submit hpc
  | propertiesLoad =>
      simp only [State.advance, hpc]
      exact h.ret (by rw [hpc]; rfl) (fun _ _ hr => nomatch hr)
  | joinWait =>
      simp only [State.advance, hpc]
      exact h.move (by rw [hpc]; rfl) (fun _ hr => nomatch hr)
  | joinStore waited =>
      simp only [State.advance, hpc]
      simp only [Exclusive, hpc] at hexcl
      exact (h.clearInUse hexcl.1 hexcl.2).move (by rw [hpc]; rfl) (fun _ hr => nomatch hr)
  | joinLoad waited =>
      simp only [State.advance, hpc]
      refine h.ret (by rw [hpc]; rfl) ?_
      intro b code hr
      obtain ⟨rfl, rfl⟩ := Return.join.inj hr
      simp only [Exclusive, hpc] at hexcl
      exact h.error_code b hexcl

theorem Inv.step (h : Inv s) (hstep : ExclusiveStep s s') : Inv s' := by
  obtain ⟨e, hen, hexcl, rfl⟩ := hstep
  cases e with
  | call t op =>
      have hpc : s.pc t = .idle := hen
      refine h.move (by rw [hpc]; cases op <;> rfl) (fun b hb => ?_)
      cases op <;> exact nomatch hb
  | advance t => exact h.advance hexcl
  | finish b code => exact h.finish hen code

theorem Inv.reachable (h : ReflTransGen ExclusiveStep (State.create T) s) : Inv s :=
  preserved (fun _ _ hs hstep => hs.step hstep) h Inv.create

omit [DecidableEq T] in
theorem Inv.safe (h : Inv s) : Safe s :=
  ⟨h.one_build, h.submitted_in_use, h.join_code⟩

theorem Inv.rejects (h : Inv s) {e : Event T} (hexcl : Exclusive s e) : Rejects s e := by
  rintro t b rfl hpc hb
  simp only [Exclusive, hpc] at hexcl
  have huse : s.objectInUse = true := by
    by_contra huse
    rw [Bool.not_eq_true] at huse
    exact h.none_unfinished huse (hexcl huse) b hb
  simp only [State.next, State.advance, hpc, huse, if_true]

/-- Each excluded access breaks the protocol at once, or as soon as the task is submitted. -/
theorem Inv.unsafe_accept (h : Inv s) {t u : T} {b : Nat} (hpc : s.pc t = .buildLoad)
    (huse : s.objectInUse = false) (hstore : s.pc u = .buildStore b) : ¬ Safe (s.advance t) := by
  intro hsafe
  have hacc : s.task b = .accepted := h.pc_accepted u b (by rw [hstore]; rfl)
  have hne : b ≠ s.builds := by
    rintro rfl
    exact nomatch (h.task_none s.builds (Nat.le_refl _)).symm.trans hacc
  refine hne (hsafe.one_build b s.builds (Or.inl ?_) (Or.inl ?_))
  · simpa [State.advance, hpc, huse, State.setTask, State.move, hne] using hacc
  · simp [State.advance, hpc, huse, State.setTask]

theorem advance_joinStore {t : T} {waited : Option Nat} (hpc : s.pc t = .joinStore waited) :
    s.advance t = { s.move t (.joinLoad waited) with objectInUse := false } := by
  simp only [State.advance, hpc]

theorem unsafe_clear {t : T} {b : Nat} {waited : Option Nat} (hpc : s.pc t = .joinStore waited)
    (hsub : s.task b = .submitted) : ¬ Safe (s.advance t) := by
  rw [advance_joinStore hpc]
  exact fun hsafe => nomatch hsafe.in_use b hsub

theorem unsafe_run {u : T} {b : Nat} (huse : s.objectInUse = false) (hrun : s.pc u = .buildRun b) :
    ¬ Safe (s.advance u) := by
  intro hsafe
  simp only [State.advance, hrun] at hsafe
  exact nomatch huse.symm.trans (hsafe.in_use b (Function.update_self ..))

theorem unsafe_clear_run {t u : T} {b : Nat} {waited : Option Nat} (hpc : s.pc t = .joinStore waited)
    (hrun : s.pc u = .buildRun b) : ¬ Safe ((s.advance t).advance u) := by
  have hne : u ≠ t := by
    rintro rfl
    exact nomatch hpc.symm.trans hrun
  rw [advance_joinStore hpc]
  exact unsafe_run rfl ((move_pc_of_ne s _ hne).trans hrun)

theorem unsafe_load {t : T} {b : Nat} (hpc : s.pc t = .joinLoad (some b))
    (hcode : s.task b ≠ .finished s.errorCode) : ¬ Safe (s.advance t) := by
  intro hsafe
  simp only [State.advance, hpc] at hsafe
  exact hcode (hsafe.join_code t b s.errorCode (List.mem_cons_self ..))

/-- While the exclusive steps are kept to, a handle has one build at a time,
its flag covers that build, and every Join reports the build it waited for. -/
theorem parallelOperation_safe (s : State T) (hrun : ReflTransGen ExclusiveStep (State.create T) s) :
    Safe s ∧ ∀ e, Enabled s e → Exclusive s e → Rejects s e :=
  have h := Inv.reachable hrun
  ⟨h.safe, fun _ _ hexcl => h.rejects hexcl⟩

def State.run (s : State T) (events : List (Event T)) : State T := events.foldl State.next s

def EnabledRun : State T → List (Event T) → Prop
  | _, [] => True
  | s, e :: es => Enabled s e ∧ EnabledRun (s.next e) es

def ExclusiveRun : State T → List (Event T) → Prop
  | _, [] => True
  | s, e :: es => Exclusive s e ∧ ExclusiveRun (s.next e) es

theorem run_steps (s : State T) (es : List (Event T)) (h : EnabledRun s es) :
    ReflTransGen Step s (s.run es) := by
  induction es generalizing s with
  | nil => exact ReflTransGen.refl
  | cons e es ih => exact ReflTransGen.head ⟨e, h.1, rfl⟩ (ih (s.next e) h.2)

theorem run_exclusiveSteps (s : State T) (es : List (Event T)) (h : EnabledRun s es)
    (hexcl : ExclusiveRun s es) : ReflTransGen ExclusiveStep s (s.run es) := by
  induction es generalizing s with
  | nil => exact ReflTransGen.refl
  | cons e es ih => exact ReflTransGen.head ⟨e, h.1, hexcl.1, rfl⟩ (ih (s.next e) h.2 hexcl.2)

def buildAndJoin : List (Event Bool) :=
  [.call false .build, .advance false, .advance false, .advance false, .call false .join,
    .call true .join, .finish 0 .rtasBuildRetry, .advance false, .advance true, .advance false,
    .advance false, .advance true, .advance true]

theorem buildAndJoin_exclusive :
    ReflTransGen ExclusiveStep (State.create Bool) ((State.create Bool).run buildAndJoin) := by
  refine run_exclusiveSteps _ _ ?_ ?_
  · simp [EnabledRun, buildAndJoin, Enabled, State.next, State.advance, State.move, State.ret,
      State.setTask, State.create, Operation.start, Function.update_apply]
    intro b
    split <;> simp
  · simp [ExclusiveRun, buildAndJoin, Exclusive, State.next, State.advance, State.move, State.ret,
      State.setTask, State.create, Operation.start, Function.update_apply]
    intro b
    split <;> simp

theorem parallelOperation_safe_buildAndJoin :
    Safe ((State.create Bool).run buildAndJoin) ∧
      ∀ e, Enabled ((State.create Bool).run buildAndJoin) e →
        Exclusive ((State.create Bool).run buildAndJoin) e →
        Rejects ((State.create Bool).run buildAndJoin) e :=
  parallelOperation_safe _ buildAndJoin_exclusive

def twoBuilds : List (Event Bool) :=
  [.call false .build, .call true .build, .advance false, .advance true]

theorem not_safe_twoBuilds :
    ¬ ∀ s : State Bool, ReflTransGen Step (State.create Bool) s →
      Safe s ∧ ∀ e, Enabled s e → Rejects s e := by
  intro h
  have hrun : ReflTransGen Step (State.create Bool) ((State.create Bool).run twoBuilds) :=
    run_steps _ _ (by
      simp [EnabledRun, twoBuilds, Enabled, State.next, State.advance, State.move, State.setTask,
        State.create, Operation.start, Function.update_apply])
  have hsafe := (h _ hrun).1
  exact absurd (hsafe.one_build 0 1 (Or.inl rfl) (Or.inl rfl)) (by decide)

end RTBuild.ParallelOperation
