import RTBuild.Library.Transition

namespace RTBuild.ZeWrapper

open Relation Library.Transition

inductive ApiTy
  | ext
  | exp
  deriving DecidableEq, Repr

def ApiTy.other : ApiTy → ApiTy
  | .ext => .exp
  | .exp => .ext

inductive RtasBuildMode
  | invalid
  | internal
  | levelZero
  deriving DecidableEq, Repr

inductive ZeResult
  | success
  | errorUnknown
  | errorDependencyUnavailable
  | other (code : Nat)
  deriving DecidableEq, Repr

inductive BaseFunc
  | memFree
  | memAllocShared
  | memAllocDevice
  | driverGetExtensionProperties
  | deviceGetProperties
  | deviceGetModuleProperties
  | commandListAppendMemoryCopy
  | commandQueueExecuteCommandLists
  | commandListCreate
  | commandListClose
  | commandListDestroy
  deriving DecidableEq, Repr

inductive RtasFunc
  | builderCreate
  | builderDestroy
  | formatCompatibilityCheck
  | builderGetBuildProperties
  | builderBuild
  | builderCommandListAppendCopy
  | parallelOperationCreate
  | parallelOperationDestroy
  | parallelOperationGetProperties
  | parallelOperationJoin
  deriving DecidableEq, Repr

inductive Symbol
  | base (f : BaseFunc)
  | rtas (aty : ApiTy) (f : RtasFunc)
  deriving DecidableEq, Repr

inductive Impl
  | internal
  | levelZero
  deriving DecidableEq, Repr

/-- What the wrapper is compiled with, and which symbols it finds. Without a handle they are looked up
in what the process has loaded already. -/
structure Env where
  internalBuilder : Bool
  finds : Bool → Symbol → Bool

structure State where
  handle : Bool
  base : BaseFunc → Bool
  table : ApiTy → RtasFunc → Option Impl
  rtasBuilder : RtasBuildMode

def State.initial : State := ⟨false, fun _ => false, fun _ _ => none, .invalid⟩

namespace State

variable (env : Env) (s : State)

def setBase (f : BaseFunc) : State := { s with base := fun f' => s.base f' || decide (f' = f) }

def set (aty : ApiTy) (f : RtasFunc) (impl : Impl) : State :=
  { s with table := fun aty' f' => if aty' = aty ∧ f' = f then some impl else s.table aty' f' }

def findSymbols {α : Type} (symbol : α → Symbol) (store : State → α → State) :
    List α → State → State × Bool
  | [], s => (s, true)
  | a :: as, s =>
      if env.finds s.handle (symbol a) then findSymbols symbol store as (store s a) else (s, false)

def baseFuncs : List BaseFunc :=
  [.memFree, .memAllocShared, .memAllocDevice, .driverGetExtensionProperties, .deviceGetProperties,
    .deviceGetModuleProperties, .commandListAppendMemoryCopy, .commandQueueExecuteCommandLists,
    .commandListCreate, .commandListClose, .commandListDestroy]

def otherFuncs : ApiTy → List RtasFunc
  | .exp => [.formatCompatibilityCheck, .builderGetBuildProperties, .builderBuild,
      .parallelOperationCreate, .parallelOperationDestroy, .parallelOperationGetProperties,
      .parallelOperationJoin]
  | .ext => [.formatCompatibilityCheck, .builderGetBuildProperties, .builderBuild,
      .builderCommandListAppendCopy, .parallelOperationCreate, .parallelOperationDestroy,
      .parallelOperationGetProperties, .parallelOperationJoin]

def internalFuncs : List RtasFunc :=
  [.builderCreate, .builderDestroy, .formatCompatibilityCheck, .builderGetBuildProperties,
    .builderBuild, .parallelOperationCreate, .parallelOperationDestroy,
    .parallelOperationGetProperties, .parallelOperationJoin]

/-- ZeWrapper::init. The handle is there before the symbols are. -/
def init (loads : Bool) : State × ZeResult :=
  if s.handle then (s, .success)
  else if loads then
    match findSymbols env .base setBase baseFuncs { s with handle := true } with
    | (s, true) => (s, .success)
    | (s, false) => (s, .errorUnknown)
  else (s, .errorUnknown)

/-- The result is none where an exception is thrown. The builder that is created to try it out gets
destroyed again. -/
def selectLevelZeroRTASBuilder (aty : ApiTy) (err : ZeResult) : State × Option ZeResult :=
  if s.rtasBuilder = .levelZero then (s, some .success)
  else if env.finds s.handle (.rtas aty .builderCreate) &&
      env.finds s.handle (.rtas aty .builderDestroy) then
    if err = .errorDependencyUnavailable then (s, some err)
    else
      match findSymbols env (.rtas aty) (fun s f => s.set aty f .levelZero) (otherFuncs aty)
          ((s.set aty .builderCreate .levelZero).set aty .builderDestroy .levelZero) with
      | (s, true) => ({ s with rtasBuilder := .levelZero }, some .success)
      | (s, false) => (s, none)
  else (s, none)

def selectInternalRTASBuilder : State × Option ZeResult :=
  if env.internalBuilder then
    if s.rtasBuilder = .internal then (s, some .success)
    else
      let s := internalFuncs.foldl (fun s f => s.set .exp f .internal) s
      let s := internalFuncs.foldl (fun s f => s.set .ext f .internal) s
      ({ s with rtasBuilder := .internal }, some .success)
  else (s, none)

def initRTASBuilder (aty : ApiTy) (err : ZeResult) (mode : RtasBuildMode) : State × ZeResult :=
  if s.rtasBuilder = mode then (s, .success)
  else
    let (s, result) := match mode with
      | .internal => s.selectInternalRTASBuilder env
      | .levelZero => s.selectLevelZeroRTASBuilder env aty err
      | .invalid => (s, none)
    (s, result.getD .errorUnknown)

/-- The implementation that a call reaches. Without one the call throws. There is no copy function in
the EXP API, whose copies are those of Level Zero. -/
def call (aty : ApiTy) (f : RtasFunc) : Option Impl :=
  if s.handle then
    match aty, f with
    | .exp, .builderCommandListAppendCopy =>
        if s.base .commandListAppendMemoryCopy then some .levelZero else none
    | _, _ => s.table aty f
  else none

variable {env : Env} {s : State}

theorem findSymbols_eq {α : Type} {symbol : α → Symbol} {store : State → α → State}
    (hstore : ∀ s a, (store s a).handle = s.handle) (l : List α) :
    findSymbols env symbol store l s =
      ((l.takeWhile (fun a => env.finds s.handle (symbol a))).foldl store s,
        l.all (fun a => env.finds s.handle (symbol a))) := by
  induction l generalizing s with
  | nil => rfl
  | cons a as ih =>
      rw [findSymbols, List.takeWhile_cons, List.all_cons]
      by_cases ha : env.finds s.handle (symbol a) = true
      · rw [if_pos ha, if_pos ha, ih, hstore, ha, Bool.true_and, List.foldl_cons]
      · rw [if_neg ha, if_neg ha, Bool.eq_false_iff.2 ha, Bool.false_and, List.foldl_nil]

def setAll (aty : ApiTy) (fs : List RtasFunc) (impl : Impl) (s : State) : State :=
  { s with table := fun aty' f' => if aty' = aty ∧ f' ∈ fs then some impl else s.table aty' f' }

theorem foldl_set (aty : ApiTy) (fs : List RtasFunc) (impl : Impl) :
    fs.foldl (fun s f => s.set aty f impl) s = s.setAll aty fs impl := by
  induction fs generalizing s with
  | nil => simp [setAll]
  | cons f fs ih =>
      rw [List.foldl_cons, ih, set, setAll, setAll]
      congr 1
      funext aty' f'
      by_cases haty : aty' = aty
      · simp only [haty, true_and, List.mem_cons]
        by_cases hf : f' ∈ fs
        · rw [if_pos hf, if_pos (Or.inr hf)]
        · simp only [hf, if_false, or_false]
      · simp only [haty, false_and, if_false]

theorem findSymbols_set (aty : ApiTy) (fs : List RtasFunc) :
    findSymbols env (.rtas aty) (fun s f => s.set aty f .levelZero) fs s =
      (s.setAll aty (fs.takeWhile (fun f => env.finds s.handle (.rtas aty f))) .levelZero,
        fs.all (fun f => env.finds s.handle (.rtas aty f))) := by
  have hstore : ∀ (s : State) f, (s.set aty f .levelZero).handle = s.handle := fun _ _ => rfl
  rw [findSymbols_eq hstore, foldl_set]

theorem setBase_fields (fs : List BaseFunc) :
    (fs.foldl setBase s).handle = s.handle ∧ (fs.foldl setBase s).table = s.table ∧
      (fs.foldl setBase s).rtasBuilder = s.rtasBuilder := by
  induction fs generalizing s with
  | nil => exact ⟨rfl, rfl, rfl⟩
  | cons f fs ih => exact ih

def useInternal (s : State) : State :=
  { setAll .ext internalFuncs .internal (setAll .exp internalFuncs .internal s) with
    rtasBuilder := .internal }

def useLevelZero (aty : ApiTy) (s : State) : State :=
  { setAll aty (otherFuncs aty) .levelZero
      ((s.set aty .builderCreate .levelZero).set aty .builderDestroy .levelZero) with
    rtasBuilder := .levelZero }

def useSome (aty : ApiTy) (fs : List RtasFunc) (s : State) : State :=
  setAll aty fs .levelZero ((s.set aty .builderCreate .levelZero).set aty .builderDestroy .levelZero)

end State

structure Env.Offers (env : Env) (handle : Bool) (aty : ApiTy) : Prop where
  create : env.finds handle (.rtas aty .builderCreate) = true
  destroy : env.finds handle (.rtas aty .builderDestroy) = true

def Env.OffersAll (env : Env) (handle : Bool) (aty : ApiTy) : Prop :=
  ∀ f ∈ State.otherFuncs aty, env.finds handle (.rtas aty f) = true

def Env.found (env : Env) (handle : Bool) (aty : ApiTy) : List RtasFunc :=
  (State.otherFuncs aty).takeWhile (fun f => env.finds handle (.rtas aty f))

def Env.Complete (env : Env) : Prop := ∀ handle aty, env.Offers handle aty → env.OffersAll handle aty

namespace State

variable {env : Env} {s : State}

inductive Request (env : Env) (s : State) (aty : ApiTy) (err : ZeResult) (mode : RtasBuildMode) :
    State × ZeResult → Prop
  | again (hmode : s.rtasBuilder = mode) : Request env s aty err mode (s, .success)
  | refused (hne : s.rtasBuilder ≠ mode) (result : ZeResult) (hresult : result ≠ .success)
      (hinternal : mode = .internal → env.internalBuilder = false)
      (hlevelZero : mode = .levelZero → env.Offers s.handle aty → err = .errorDependencyUnavailable) :
      Request env s aty err mode (s, result)
  | internal (hmode : mode = .internal) (hne : s.rtasBuilder ≠ .internal)
      (hbuilder : env.internalBuilder = true) : Request env s aty err mode (s.useInternal, .success)
  | levelZero (hmode : mode = .levelZero) (hne : s.rtasBuilder ≠ .levelZero)
      (hoffers : env.Offers s.handle aty) (hall : env.OffersAll s.handle aty) :
      Request env s aty err mode (s.useLevelZero aty, .success)
  | broken (hmode : mode = .levelZero) (hne : s.rtasBuilder ≠ .levelZero)
      (hoffers : env.Offers s.handle aty) (hall : ¬env.OffersAll s.handle aty) :
      Request env s aty err mode (s.useSome aty (env.found s.handle aty), .errorUnknown)

theorem initRTASBuilder_request (env : Env) (s : State) (aty : ApiTy) (err : ZeResult)
    (mode : RtasBuildMode) : Request env s aty err mode (s.initRTASBuilder env aty err mode) := by
  unfold initRTASBuilder
  split
  next hmode => exact .again hmode
  next hmode =>
    cases mode with
    | invalid =>
        exact .refused hmode _ (fun h => by cases h) (fun h => by cases h) (fun h => by cases h)
    | internal =>
        simp only [selectInternalRTASBuilder, if_neg hmode, foldl_set]
        split
        next hbuilder => exact .internal rfl hmode hbuilder
        next hbuilder =>
          exact .refused hmode _ (fun h => by cases h) (fun _ => Bool.eq_false_iff.2 hbuilder)
            (fun h => by cases h)
    | levelZero =>
        simp only [selectLevelZeroRTASBuilder, if_neg hmode]
        split
        next hfinds =>
          obtain ⟨hcreate, hdestroy⟩ := Bool.and_eq_true_iff.1 hfinds
          split
          next herr =>
            rw [herr]
            exact .refused hmode _ (fun h => by cases h) (fun h => by cases h) (fun _ _ => rfl)
          next =>
            simp only [findSymbols_set]
            split
            next hfound =>
              obtain ⟨rfl, hall⟩ := Prod.mk.inj hfound
              have hoffers : env.OffersAll s.handle aty := List.all_eq_true.1 hall
              have htake := List.takeWhile_eq_self_iff.2 hoffers
              simp only [set, htake]
              exact .levelZero rfl hmode ⟨hcreate, hdestroy⟩ hoffers
            next hfound =>
              obtain ⟨rfl, hall⟩ := Prod.mk.inj hfound
              refine .broken rfl hmode ⟨hcreate, hdestroy⟩ (fun hoffers => ?_)
              cases (List.all_eq_true.2 hoffers).symm.trans hall
        next hfinds =>
          refine .refused hmode _ (fun h => by cases h) (fun h => by cases h) (fun _ hoffers => ?_)
          exact absurd (Bool.and_eq_true_iff.2 ⟨hoffers.create, hoffers.destroy⟩) hfinds

def Serves (s : State) (aty : ApiTy) (impl : Option Impl) : Prop :=
  ∀ f ∈ internalFuncs, s.table aty f = impl

theorem Serves.unique {aty : ApiTy} {impl impl' : Option Impl} (h : s.Serves aty impl)
    (h' : s.Serves aty impl') : impl = impl' :=
  (h .builderCreate (by decide)).symm.trans (h' .builderCreate (by decide))

theorem serves_useInternal (s : State) (aty : ApiTy) : s.useInternal.Serves aty (some .internal) := by
  intro f hf
  cases aty with
  | ext => exact if_pos ⟨rfl, hf⟩
  | exp => simp [useInternal, setAll, hf]

theorem serves_useLevelZero (s : State) (aty : ApiTy) :
    (s.useLevelZero aty).Serves aty (some .levelZero) := by
  intro f hf
  by_cases hother : f ∈ otherFuncs aty
  · exact if_pos ⟨rfl, hother⟩
  · have hcases : f = .builderCreate ∨ f = .builderDestroy := by
      revert hother
      cases aty <;> revert f <;> decide
    rcases hcases with rfl | rfl
    · simp [useLevelZero, setAll, set, hother]
    · simp [useLevelZero, setAll, set, hother]

theorem serves_useLevelZero_other (s : State) {aty aty' : ApiTy} (h : aty' ≠ aty)
    {impl : Option Impl} (hs : s.Serves aty' impl) : (s.useLevelZero aty).Serves aty' impl := by
  intro f hf
  rw [← hs f hf]
  simp [useLevelZero, setAll, set, h]

/-- Each API is served by one implementation or by none, and Level Zero serves one API at most. -/
structure Selected (s : State) : Prop where
  invalid : s.rtasBuilder = .invalid → ∀ aty, s.Serves aty none
  internal : s.rtasBuilder = .internal → ∀ aty, s.Serves aty (some .internal)
  levelZero : s.rtasBuilder = .levelZero → ∃ aty, s.Serves aty (some .levelZero) ∧
    (s.Serves aty.other none ∨ s.Serves aty.other (some .internal))

theorem other_ne (aty : ApiTy) : aty.other ≠ aty := by cases aty <;> decide

theorem eq_or_other (aty aty' : ApiTy) : aty' = aty ∨ aty' = aty.other := by
  cases aty <;> cases aty' <;> decide

/-- A request that Level Zero does not break off keeps an implementation for each API. -/
theorem Selected.request (h : s.Selected) {aty : ApiTy} {err : ZeResult} {mode : RtasBuildMode}
    {out : State × ZeResult}
    (hcomplete : mode = .levelZero → env.Offers s.handle aty → env.OffersAll s.handle aty)
    (hrequest : Request env s aty err mode out) : out.1.Selected := by
  cases hrequest with
  | again hmode => exact h
  | refused hne result hresult hinternal hlevelZero => exact h
  | internal hmode hne hbuilder =>
      exact ⟨fun h => (by cases h), fun _ aty => s.serves_useInternal aty, fun h => (by cases h)⟩
  | levelZero hmode hne hoffers hall =>
      refine ⟨fun h => (by cases h), fun h => (by cases h), fun _ => ?_⟩
      refine ⟨aty, s.serves_useLevelZero aty, ?_⟩
      cases hold : s.rtasBuilder with
      | invalid =>
          exact Or.inl (s.serves_useLevelZero_other (other_ne aty) (h.invalid hold _))
      | internal =>
          exact Or.inr (s.serves_useLevelZero_other (other_ne aty) (h.internal hold _))
      | levelZero => exact absurd hold hne
  | broken hmode hne hoffers hall => exact absurd (hcomplete hmode hoffers) hall

theorem init_fields (env : Env) (s : State) (loads : Bool) :
    (s.init env loads).1.table = s.table ∧ (s.init env loads).1.rtasBuilder = s.rtasBuilder ∧
      (s.init env loads).1.handle = (s.handle || loads) := by
  unfold init
  by_cases hhandle : s.handle = true
  · rw [if_pos hhandle, hhandle]
    exact ⟨rfl, rfl, rfl⟩
  · rw [if_neg hhandle, Bool.eq_false_iff.2 hhandle]
    cases loads with
    | false => exact ⟨rfl, rfl, Bool.eq_false_iff.2 hhandle⟩
    | true =>
        have hstore : ∀ (s : State) f, (s.setBase f).handle = s.handle := fun _ _ => rfl
        rw [if_pos rfl, findSymbols_eq hstore]
        split
        all_goals
          rename_i hfound
          obtain ⟨rfl, -⟩ := Prod.mk.inj hfound
          obtain ⟨hhandle, htable, hmode⟩ := setBase_fields (s := { s with handle := true })
            (baseFuncs.takeWhile (fun f => env.finds true (.base f)))
          exact ⟨htable, hmode, hhandle⟩

end State

inductive ObjectKind
  | builder
  | parallelOperation
  deriving DecidableEq, Repr

def ObjectKind.create : ObjectKind → RtasFunc
  | .builder => .builderCreate
  | .parallelOperation => .parallelOperationCreate

/-- The functions that an object is passed to. A build takes both kinds. -/
def ObjectKind.takers : ObjectKind → List RtasFunc
  | .builder => [.builderDestroy, .builderGetBuildProperties, .builderBuild]
  | .parallelOperation => [.builderBuild, .parallelOperationDestroy, .parallelOperationGetProperties,
      .parallelOperationJoin]

structure Object where
  kind : ObjectKind
  aty : ApiTy
  impl : Impl
  deriving DecidableEq, Repr

/-- The wrapper with the objects that its callers have. -/
structure System where
  state : State
  objects : List Object

def System.initial : System := ⟨.initial, []⟩

/-- The calls of a program that requests only some modes. -/
inductive Step (env : Env) (modes : Set RtasBuildMode) (sys : System) : System → Prop
  | init (loads : Bool) : Step env modes sys { sys with state := (sys.state.init env loads).1 }
  | initRTASBuilder (aty : ApiTy) (err : ZeResult) (mode : RtasBuildMode) (hmode : mode ∈ modes) :
      Step env modes sys { sys with state := (sys.state.initRTASBuilder env aty err mode).1 }
  | create (kind : ObjectKind) (aty : ApiTy) (impl : Impl)
      (hcall : sys.state.call aty kind.create = some impl) :
      Step env modes sys { sys with objects := ⟨kind, aty, impl⟩ :: sys.objects }
  | destroy (obj : Object) : Step env modes sys { sys with objects := sys.objects.erase obj }

variable {env : Env} {modes : Set RtasBuildMode} {sys sys' : System}

def Reachable (env : Env) (modes : Set RtasBuildMode) : System → Prop :=
  ReflTransGen (Step env modes) .initial

theorem call_eq {s : State} {aty : ApiTy} {f : RtasFunc} (hf : f ∈ State.internalFuncs) :
    s.call aty f = if s.handle then s.table aty f else none := by
  cases aty with
  | ext => cases f <;> rfl
  | exp =>
      cases f with
      | builderCommandListAppendCopy => exact absurd hf (by decide)
      | _ => rfl

section selected

theorem selected_initial : State.initial.Selected :=
  ⟨fun _ _ _ _ => rfl, fun h => (by cases h), fun h => (by cases h)⟩

theorem Step.selected (hcomplete : env.Complete) (h : sys.state.Selected)
    (hstep : Step env modes sys sys') : sys'.state.Selected := by
  cases hstep with
  | init loads =>
      obtain ⟨htable, hmode, -⟩ := State.init_fields env sys.state loads
      refine ⟨?_, ?_, ?_⟩
      all_goals simp only [State.Serves, htable, hmode]
      · exact h.invalid
      · exact h.internal
      · exact h.levelZero
  | initRTASBuilder aty err mode hmode =>
      exact h.request (fun _ => hcomplete _ _) (State.initRTASBuilder_request env sys.state aty err mode)
  | create kind aty impl hcall => exact h
  | destroy obj => exact h

/-- What is stored of Level Zero, with the functions that are looked up first. -/
theorem table_useSome (s : State) (aty aty' : ApiTy) (fs : List RtasFunc) (f : RtasFunc) :
    (s.useSome aty fs).table aty' f = if aty' = aty ∧ f ∈ .builderCreate :: .builderDestroy :: fs then
      some .levelZero else s.table aty' f := by
  by_cases haty : aty' = aty
  · simp only [State.useSome, State.setAll, State.set, haty, true_and, List.mem_cons]
    split_ifs <;> tauto
  · simp [State.useSome, State.setAll, State.set, haty]

theorem all_of_mem_takeWhile {α : Type} {p : α → Bool} {l : List α} {x : α} (hx : x ∉ l)
    (h : x ∈ (l ++ [x]).takeWhile p) : ∀ a ∈ l ++ [x], p a = true := by
  induction l with
  | nil => exact fun a ha => List.mem_takeWhile_imp (List.mem_singleton.1 ha ▸ h)
  | cons b l ih =>
      rw [List.cons_append, List.takeWhile_cons] at h
      split at h
      next hb =>
        refine List.forall_mem_cons.2 ⟨hb, ih (fun hmem => hx (List.mem_cons_of_mem b hmem)) ?_⟩
        rcases List.mem_cons.1 h with rfl | h
        · exact absurd List.mem_cons_self hx
        · exact h
      · cases h

/-- The function that is looked up last is missing if any is. -/
theorem join_not_mem {handle : Bool} {aty : ApiTy} (hall : ¬env.OffersAll handle aty) :
    .parallelOperationJoin ∉ env.found handle aty := by
  have hlast : State.otherFuncs aty = (State.otherFuncs aty).dropLast ++ [.parallelOperationJoin] := by
    cases aty <;> rfl
  have hnew : .parallelOperationJoin ∉ (State.otherFuncs aty).dropLast := by cases aty <;> decide
  intro hmem
  rw [Env.found, hlast] at hmem
  rw [Env.OffersAll, hlast] at hall
  exact hall (all_of_mem_takeWhile hnew hmem)

theorem Env.OffersAll.found_eq {handle : Bool} {aty : ApiTy} (h : env.OffersAll handle aty) :
    env.found handle aty = State.otherFuncs aty :=
  List.takeWhile_eq_self_iff.2 h

/-- A request after which functions of Level Zero are there in part, or all. -/
theorem exists_levelZero (hmodes : .levelZero ∈ modes) (handle : Bool) (aty : ApiTy)
    (hoffers : env.Offers handle aty) :
    ∃ sys, Reachable env modes sys ∧
      (∀ f, sys.state.table aty f = if f ∈ .builderCreate :: .builderDestroy :: env.found handle aty
        then some .levelZero else none) ∧
      sys.state.rtasBuilder ≠ .internal ∧
      (¬env.OffersAll handle aty → sys.state.rtasBuilder = .invalid) := by
  obtain ⟨htable, hmode, hhandle⟩ := State.init_fields env .initial handle
  generalize hs : (State.initial.init env handle).1 = s at htable hmode hhandle
  have hreach : Reachable env modes ⟨s, []⟩ := hs ▸ ReflTransGen.single (.init handle)
  have hhandle' : s.handle = handle := hhandle.trans (Bool.false_or handle)
  have hstored : ∀ f, (s.useSome aty (env.found handle aty)).table aty f =
      if f ∈ .builderCreate :: .builderDestroy :: env.found handle aty then some .levelZero
      else none := by
    intro f
    rw [table_useSome, htable]
    simp only [true_and]
    rfl
  refine ⟨_, hreach.tail (.initRTASBuilder aty .success .levelZero hmodes), ?_⟩
  rw [← hhandle'] at hoffers hstored ⊢
  have hrequest := State.initRTASBuilder_request env s aty .success .levelZero
  revert hrequest
  generalize s.initRTASBuilder env aty .success .levelZero = out
  intro hrequest
  cases hrequest with
  | again hagain => cases hmode.symm.trans hagain
  | refused hne result hresult hinternal hlevelZero => cases hlevelZero rfl hoffers
  | internal hmode' => cases hmode'
  | levelZero _ hne _ hall =>
      refine ⟨fun f => ?_, fun h => (by cases h), fun h => absurd hall h⟩
      rw [← hstored f, hall.found_eq]
      rfl
  | broken _ hne _ hall =>
      exact ⟨hstored, fun h => (by cases hmode.symm.trans h), fun _ => hmode⟩

def RtasBuildMode.impl : RtasBuildMode → Option Impl
  | .invalid => none
  | .internal => some .internal
  | .levelZero => some .levelZero

def State.Answers (env : Env) (s : State) : Prop :=
  ∀ aty err mode, (s.initRTASBuilder env aty err mode).2 = .success →
    ((s.initRTASBuilder env aty err mode).1.Serves aty mode.impl ↔
      ¬(mode = .levelZero ∧ s.Serves aty.other (some .levelZero)))

theorem State.Selected.not_serves {s : State} (h : s.Selected) (hne : s.rtasBuilder ≠ .levelZero)
    (aty : ApiTy) : ¬s.Serves aty (some .levelZero) := by
  intro hserves
  cases hmode : s.rtasBuilder with
  | invalid => cases hserves.unique (h.invalid hmode aty)
  | internal => cases hserves.unique (h.internal hmode aty)
  | levelZero => exact hne hmode

theorem State.Selected.answers {s : State} (h : s.Selected) : s.Answers env := by
  intro aty err mode
  have hrequest := State.initRTASBuilder_request env s aty err mode
  revert hrequest
  generalize s.initRTASBuilder env aty err mode = out
  intro hrequest hsuccess
  cases hrequest with
  | again hmode =>
      subst hmode
      cases hmode : s.rtasBuilder with
      | invalid => exact iff_of_true (h.invalid hmode aty) (fun h => by cases h.1)
      | internal => exact iff_of_true (h.internal hmode aty) (fun h => by cases h.1)
      | levelZero =>
          obtain ⟨aty', hserves, hother⟩ := h.levelZero hmode
          have hnot : ¬s.Serves aty'.other (some .levelZero) := by
            intro hlevelZero
            rcases hother with hother | hother
            · cases hother.unique hlevelZero
            · cases hother.unique hlevelZero
          rcases State.eq_or_other aty' aty with rfl | rfl
          · exact iff_of_true hserves (fun h => hnot h.2)
          · refine iff_of_false hnot (not_not.2 ⟨rfl, ?_⟩)
            cases aty' <;> exact hserves
  | refused hne result hresult hinternal hlevelZero => exact absurd hsuccess hresult
  | internal hmode hne hbuilder =>
      subst hmode
      exact iff_of_true (s.serves_useInternal aty) (fun h => by cases h.1)
  | levelZero hmode hne hoffers hall =>
      subst hmode
      exact iff_of_true (s.serves_useLevelZero aty) (fun h' => h.not_serves hne _ h'.2)
  | broken => cases hsuccess

/-- The wrapper keeps to one implementation for each API in all its runs, and Level Zero serves one API
at most, exactly if no API of Level Zero is there in part. -/
theorem selected_iff (env : Env) :
    (∀ sys, Reachable env Set.univ sys → sys.state.Selected ∧ sys.state.Answers env) ↔ env.Complete := by
  constructor
  · intro h handle aty hoffers
    by_contra hall
    obtain ⟨sys, hsys, htable, -, hbroken⟩ := exists_levelZero (Set.mem_univ _) handle aty hoffers
    have hcreate := htable .builderCreate
    rw [if_pos List.mem_cons_self] at hcreate
    cases hcreate.symm.trans ((h sys hsys).1.invalid (hbroken hall) aty .builderCreate (by decide))
  · intro hcomplete sys hsys
    have hselected := preserved (P := fun sys : System => sys.state.Selected)
      (fun _ _ h hstep => hstep.selected hcomplete h) hsys selected_initial
    exact ⟨hselected, hselected.answers⟩

end selected

section safe

/-- All functions that an object is passed to are of the implementation that created it. -/
def System.Safe (sys : System) : Prop :=
  ∀ obj ∈ sys.objects, ∀ f ∈ obj.kind.takers, sys.state.call obj.aty f = some obj.impl

structure Env.Usable (env : Env) (handle : Bool) (aty : ApiTy) : Prop where
  builder : .builderBuild ∈ env.found handle aty
  parallelOperation : .parallelOperationCreate ∈ env.found handle aty → env.OffersAll handle aty

/-- A program cannot come from one implementation to another, nor to a part of one that does not do. -/
def Separate (env : Env) (modes : Set RtasBuildMode) : Prop :=
  ∀ handle aty, .levelZero ∈ modes → env.Offers handle aty →
    env.Usable handle aty ∧ ¬(.internal ∈ modes ∧ env.internalBuilder = true)

def Closed (fs : List RtasFunc) : Prop :=
  ∀ kind : ObjectKind, kind.create ∈ fs → ∀ f ∈ kind.takers, f ∈ fs

theorem ObjectKind.create_mem (kind : ObjectKind) : kind.create ∈ State.internalFuncs := by
  cases kind <;> decide

theorem ObjectKind.takers_subset (kind : ObjectKind) : ∀ f ∈ kind.takers, f ∈ State.internalFuncs := by
  cases kind <;> decide

/-- getBuildProperties is looked up before build. -/
theorem properties_mem_found {handle : Bool} {aty : ApiTy} (h : .builderBuild ∈ env.found handle aty) :
    .builderGetBuildProperties ∈ env.found handle aty := by
  rw [Env.found] at h ⊢
  cases aty with
  | ext =>
      simp only [State.otherFuncs, List.takeWhile_cons] at h ⊢
      split_ifs at h ⊢ <;> simp_all
  | exp =>
      simp only [State.otherFuncs, List.takeWhile_cons] at h ⊢
      split_ifs at h ⊢ <;> simp_all

theorem Env.Usable.closed {handle : Bool} {aty : ApiTy} (h : env.Usable handle aty) :
    Closed (.builderCreate :: .builderDestroy :: env.found handle aty) := by
  intro kind hkind f hf
  cases kind with
  | builder =>
      simp only [ObjectKind.takers, List.mem_cons, List.not_mem_nil, or_false] at hf
      rcases hf with rfl | rfl | rfl
      · exact List.mem_cons_of_mem _ List.mem_cons_self
      · exact List.mem_cons_of_mem _ (List.mem_cons_of_mem _ (properties_mem_found h.builder))
      · exact List.mem_cons_of_mem _ (List.mem_cons_of_mem _ h.builder)
  | parallelOperation =>
      have hcreate : .parallelOperationCreate ∈ env.found handle aty := by
        simpa [ObjectKind.create] using hkind
      have hall := h.parallelOperation hcreate
      rw [hall.found_eq]
      revert f
      cases aty <;> decide

structure Kept (impl : Impl) (sys : System) : Prop where
  create : ∀ kind aty impl', sys.state.table aty (ObjectKind.create kind) = some impl' →
    impl' = impl ∧ ∀ f ∈ kind.takers, sys.state.table aty f = some impl
  objects : ∀ obj ∈ sys.objects, sys.state.handle = true ∧ obj.impl = impl ∧
    ∀ f ∈ obj.kind.takers, sys.state.table obj.aty f = some impl

variable {impl : Impl}

theorem Kept.safe (h : Kept impl sys) : sys.Safe := by
  intro obj hobj f hf
  obtain ⟨hhandle, himpl, htakers⟩ := h.objects obj hobj
  rw [call_eq (obj.kind.takers_subset f hf), if_pos hhandle, htakers f hf, himpl]

/-- Storing functions of the implementation keeps to it if they are closed. -/
theorem Kept.store (h : Kept impl sys) (s : State) (stored : ApiTy → List RtasFunc)
    (hclosed : ∀ aty, Closed (stored aty)) (hhandle : s.handle = sys.state.handle)
    (htable : ∀ aty f, s.table aty f = if f ∈ stored aty then some impl else sys.state.table aty f) :
    Kept impl { sys with state := s } := by
  have hkeeps : ∀ aty f, sys.state.table aty f = some impl → s.table aty f = some impl := by
    intro aty f hold
    rw [htable, hold, ite_self]
  refine ⟨fun kind aty impl' hcreate => ?_, fun obj hobj => ?_⟩
  · rw [htable] at hcreate
    split at hcreate
    next hmem =>
      refine ⟨(Option.some.inj hcreate).symm, fun f hf => ?_⟩
      rw [htable, if_pos (hclosed aty kind hmem f hf)]
    next =>
      obtain ⟨himpl, htakers⟩ := h.create kind aty impl' hcreate
      exact ⟨himpl, fun f hf => hkeeps aty f (htakers f hf)⟩
  · obtain ⟨hobjHandle, himpl, htakers⟩ := h.objects obj hobj
    exact ⟨hhandle.trans hobjHandle, himpl, fun f hf => hkeeps obj.aty f (htakers f hf)⟩

def Comes (env : Env) (modes : Set RtasBuildMode) : Impl → Prop
  | .internal => ¬∃ handle aty, .levelZero ∈ modes ∧ env.Offers handle aty
  | .levelZero => ¬(.internal ∈ modes ∧ env.internalBuilder = true)

theorem Separate.comes (h : Separate env modes) : ∃ impl, Comes env modes impl := by
  by_cases hoffers : ∃ handle aty, .levelZero ∈ modes ∧ env.Offers handle aty
  · obtain ⟨handle, aty, hmodes, hoffers⟩ := hoffers
    exact ⟨.levelZero, (h handle aty hmodes hoffers).2⟩
  · exact ⟨.internal, hoffers⟩

theorem Comes.eq_internal (h : Comes env modes impl) (hmode : .internal ∈ modes)
    (hbuilder : env.internalBuilder = true) : impl = .internal := by
  cases impl with
  | internal => rfl
  | levelZero => exact absurd ⟨hmode, hbuilder⟩ h

theorem Comes.eq_levelZero (h : Comes env modes impl) {handle : Bool} {aty : ApiTy}
    (hmode : .levelZero ∈ modes) (hoffers : env.Offers handle aty) : impl = .levelZero := by
  cases impl with
  | internal => exact absurd ⟨handle, aty, hmode, hoffers⟩ h
  | levelZero => rfl

theorem Kept.useSome (h : Kept .levelZero sys) {handle : Bool} {aty : ApiTy}
    (husable : env.Usable handle aty) :
    Kept .levelZero { sys with state := sys.state.useSome aty (env.found handle aty) } := by
  refine h.store _ (fun aty' => if aty' = aty then
    .builderCreate :: .builderDestroy :: env.found handle aty else []) (fun aty' => ?_) rfl
    (fun aty' f => ?_)
  · split
    · exact husable.closed
    · exact fun kind hkind => (by cases hkind)
  · rw [table_useSome]
    by_cases haty : aty' = aty
    · simp only [haty, true_and, if_true]
    · simp [haty]

theorem Kept.useInternal (h : Kept .internal sys) :
    Kept .internal { sys with state := sys.state.useInternal } := by
  refine h.store _ (fun _ => State.internalFuncs) (fun _ kind _ => kind.takers_subset) rfl
    (fun aty f => ?_)
  split
  next hf => exact sys.state.serves_useInternal aty f hf
  next hf => simp [State.useInternal, State.setAll, hf]

theorem Kept.step (hseparate : Separate env modes) (hcomes : Comes env modes impl) (h : Kept impl sys)
    (hstep : Step env modes sys sys') : Kept impl sys' := by
  cases hstep with
  | init loads =>
      obtain ⟨htable, -, hhandle⟩ := State.init_fields env sys.state loads
      refine ⟨?_, fun obj hobj => ?_⟩
      · rw [htable]
        exact h.create
      · obtain ⟨hobjHandle, hobj⟩ := h.objects obj hobj
        rw [htable, hhandle, hobjHandle]
        exact ⟨Bool.true_or _, hobj⟩
  | initRTASBuilder aty err mode hmode =>
      have hrequest := State.initRTASBuilder_request env sys.state aty err mode
      revert hrequest
      generalize sys.state.initRTASBuilder env aty err mode = out
      intro hrequest
      cases hrequest with
      | again hagain => exact h
      | refused hne result hresult hinternal hlevelZero => exact h
      | internal hmode' hne hbuilder =>
          obtain rfl := hcomes.eq_internal (hmode' ▸ hmode) hbuilder
          exact h.useInternal
      | levelZero hmode' hne hoffers hall =>
          subst hmode'
          obtain rfl := hcomes.eq_levelZero hmode hoffers
          have hkept := h.useSome (hseparate _ aty hmode hoffers).1
          rw [hall.found_eq] at hkept
          exact ⟨hkept.create, hkept.objects⟩
      | broken hmode' hne hoffers hall =>
          subst hmode'
          obtain rfl := hcomes.eq_levelZero hmode hoffers
          exact h.useSome (hseparate _ aty hmode hoffers).1
  | create kind aty impl' hcall =>
      rw [call_eq kind.create_mem] at hcall
      split at hcall
      next hhandle =>
        exact ⟨h.create, List.forall_mem_cons.2 ⟨⟨hhandle, h.create kind aty impl' hcall⟩, h.objects⟩⟩
      next => cases hcall
  | destroy obj => exact ⟨h.create, fun obj' hobj' => h.objects obj' (List.mem_of_mem_erase hobj')⟩

/-- Where Level Zero offers a builder, a program can create the objects for which functions are found. -/
theorem exists_created {handle : Bool} {aty : ApiTy} (hlevelZero : .levelZero ∈ modes)
    (hoffers : env.Offers handle aty) (kind : ObjectKind)
    (hkind : kind.create ∈ .builderCreate :: .builderDestroy :: env.found handle aty) :
    ∃ sys, Reachable env modes sys ∧ ⟨kind, aty, .levelZero⟩ ∈ sys.objects ∧
      sys.state.rtasBuilder ≠ .internal ∧ ∀ f ∈ kind.takers,
        f ∉ .builderCreate :: .builderDestroy :: env.found handle aty → sys.state.call aty f = none := by
  obtain ⟨sys, hsys, hstored, hne, -⟩ := exists_levelZero hlevelZero handle aty hoffers
  obtain ⟨htable, hmode, hhandle⟩ := State.init_fields env sys.state true
  rw [Bool.or_true] at hhandle
  have hcall : (sys.state.init env true).1.call aty kind.create = some .levelZero := by
    rw [call_eq kind.create_mem, if_pos hhandle, htable, hstored, if_pos hkind]
  refine ⟨_, (hsys.tail (.init true)).tail (.create kind aty .levelZero hcall), List.mem_cons_self,
    fun h => hne (hmode.symm.trans h), fun f hf hnot => ?_⟩
  rw [call_eq (kind.takers_subset f hf), if_pos hhandle, htable, hstored, if_neg hnot]

/-- A program that comes from Level Zero to the internal builder takes its builders along. -/
theorem exists_not_safe {aty : ApiTy} (hsys : Reachable env modes sys)
    (hobj : ⟨.builder, aty, .levelZero⟩ ∈ sys.objects) (hne : sys.state.rtasBuilder ≠ .internal)
    (hinternal : .internal ∈ modes) (hbuilder : env.internalBuilder = true) :
    ∃ sys', Reachable env modes sys' ∧ ¬sys'.Safe := by
  refine ⟨_, hsys.tail (.initRTASBuilder aty .success .internal hinternal), fun hsafe => ?_⟩
  have htaker : .builderDestroy ∈ ObjectKind.takers .builder := by decide
  have hdestroy := hsafe ⟨.builder, aty, .levelZero⟩ hobj .builderDestroy htaker
  have hrequest := State.initRTASBuilder_request env sys.state aty .success .internal
  revert hrequest hdestroy
  simp only
  generalize sys.state.initRTASBuilder env aty .success .internal = out
  intro hdestroy hrequest
  cases hrequest with
  | again hagain => exact hne hagain
  | refused hne result hresult hrefused hlevelZero => cases hbuilder.symm.trans (hrefused rfl)
  | internal =>
      have hserves := State.serves_useInternal sys.state aty
      rw [call_eq (by decide), hserves .builderDestroy (by decide)] at hdestroy
      split at hdestroy
      · cases hdestroy
      · cases hdestroy
  | levelZero hlevelZero => cases hlevelZero
  | broken hlevelZero => cases hlevelZero

/-- No program that requests only some modes passes an object to another implementation than the one
that created it, or to a function that is missing, exactly if these modes keep the implementations
apart. -/
theorem safe_iff (env : Env) (modes : Set RtasBuildMode) :
    (∀ sys, Reachable env modes sys → sys.Safe) ↔ Separate env modes := by
  constructor
  · intro h handle aty hlevelZero hoffers
    obtain ⟨sys, hsys, hobj, hne, hbuilder⟩ :=
      exists_created hlevelZero hoffers .builder List.mem_cons_self
    refine ⟨⟨?_, fun hcreate => ?_⟩, fun ⟨hinternal, hbuilder⟩ => ?_⟩
    · by_contra hnot
      have htaker : .builderBuild ∈ ObjectKind.takers .builder := by decide
      have hbuild := h sys hsys _ hobj .builderBuild htaker
      cases (hbuilder .builderBuild htaker (by simpa using hnot)).symm.trans hbuild
    · by_contra hall
      obtain ⟨sys', hsys', hobj', -, hjoin⟩ := exists_created hlevelZero hoffers .parallelOperation
        (List.mem_cons_of_mem _ (List.mem_cons_of_mem _ hcreate))
      have htaker : .parallelOperationJoin ∈ ObjectKind.takers .parallelOperation := by decide
      have hcall := h sys' hsys' _ hobj' .parallelOperationJoin htaker
      have hnot := join_not_mem hall
      cases (hjoin .parallelOperationJoin htaker (by simpa using hnot)).symm.trans hcall
    · obtain ⟨sys', hsys', hunsafe⟩ := exists_not_safe hsys hobj hne hinternal hbuilder
      exact hunsafe (h sys' hsys')
  · intro hseparate sys hsys
    obtain ⟨impl, hcomes⟩ := hseparate.comes
    have hinitial : Kept impl .initial :=
      ⟨fun _ _ _ h => (by cases h), fun _ hobj => (by cases hobj)⟩
    exact (preserved (P := Kept impl) (fun _ _ h hstep => h.step hseparate hcomes hstep) hsys
      hinitial).safe

end safe

end RTBuild.ZeWrapper
