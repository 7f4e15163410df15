import RTBuild.ForFor
import RTBuild.PrimRef

namespace RTBuild.PrimRefGen

open ForFor Library.Chunk
open PrimInfo (merge ofList)

def storePrimRefs (accept : Nat → Option PrimRef) :
    Nat → Nat → Nat → PrimInfo → List (PrimRef × Nat) × PrimInfo
  | 0, _, _, pinfo => ([], pinfo)
  | n + 1, j, k, pinfo =>
      match accept j with
      | none => storePrimRefs accept n (j + 1) k pinfo
      | some prim =>
          let (writes, pinfo) := storePrimRefs accept n (j + 1) (k + 1) (pinfo.addCenter2 prim)
          ((prim, k) :: writes, pinfo)

def createPrimRefArray (accept : Nat → Option PrimRef) (r0 r1 k : Nat) :
    List (PrimRef × Nat) × PrimInfo :=
  storePrimRefs accept (r1 - r0) r0 k .empty

def passFunc (accept : Nat → Nat → Option PrimRef) (seg : Segment) (base : PrimInfo) :
    List (PrimRef × Nat) × PrimInfo :=
  createPrimRefArray (accept seg.i) seg.r0 seg.r1 base.size

structure Generated where
  /-- the writes of each pass, task by task -/
  passes : List (List (List (PrimRef × Nat)))
  pinfo : PrimInfo

/-- The passes of BuilderT::build over the geometries. The first one counts, by
pairing triangles or by the size of the range. The last one runs only when
primitives were filtered out. -/
def generatePrimRefs (state : State) (count : Segment → Nat) (accept : Nat → Nat → Option PrimRef) :
    Option Generated := do
  let (sums, pinfo) ← parallelForForPrefixSum0 state .empty
      (fun seg => PrimInfo.ofSize (count seg)) merge
  let numPrimitives := pinfo.size
  let (writes, sums, pinfo) ← parallelForForPrefixSum1 state sums .empty (passFunc accept) merge
  if pinfo.size ≠ numPrimitives then
    let (writes', _, pinfo) ← parallelForForPrefixSum1 state sums .empty (passFunc accept) merge
    return ⟨[writes, writes'], pinfo⟩
  else
    return ⟨[writes], pinfo⟩

/-- The array after the passes. Within a pass the tasks run concurrently, so
their writes come in any order. -/
def RunsTo : List (List (List (PrimRef × Nat))) → (Nat → PrimRef) → (Nat → PrimRef) → Prop
  | [], prims, prims' => prims' = prims
  | pass :: passes, prims, prims' =>
      ∃ order, order.Perm pass.flatten ∧ RunsTo passes (store prims order) prims'

/-- A deterministic outcome of pairing and validity tests. The count of each
range bounds what is accepted from it. -/
structure Outcome (tasks : List (List Segment)) where
  count : Segment → Nat
  accept : Nat → Nat → Option PrimRef
  accept_le : ∀ segs ∈ tasks, ∀ seg ∈ segs,
    (seg.items.filterMap (fun p => accept p.1 p.2)).length ≤ count seg
  count_le : ∀ segs ∈ tasks, ∀ seg ∈ segs, count seg ≤ seg.items.length

def accepted (accept : Nat → Nat → Option PrimRef) (items : List (Nat × Nat)) : List PrimRef :=
  items.filterMap (fun p => accept p.1 p.2)

def acceptedOf (accept : Nat → Nat → Option PrimRef) (segs : List Segment) : List PrimRef :=
  accepted accept (segs.flatMap Segment.items)

theorem storePrimRefs_eq (accept : Nat → Option PrimRef) (n j k : Nat) (pinfo : PrimInfo) :
    storePrimRefs accept n j k pinfo =
      (((List.range' j n).filterMap accept).zipIdx k,
        ((List.range' j n).filterMap accept).foldl .addCenter2 pinfo) := by
  induction n generalizing j k pinfo with
  | zero => rfl
  | succ n ih =>
      rw [storePrimRefs, List.range'_succ, List.filterMap_cons]
      cases accept j with
      | none => exact ih _ _ _
      | some prim => simp only [ih, List.zipIdx_cons, List.foldl_cons]

theorem passFunc_eq (accept : Nat → Nat → Option PrimRef) (seg : Segment) (base : PrimInfo) :
    passFunc accept seg base =
      ((accepted accept seg.items).zipIdx base.size, ofList (accepted accept seg.items)) := by
  rw [passFunc, createPrimRefArray, storePrimRefs_eq, accepted, Segment.items, List.filterMap_map]
  rfl

theorem runTask_eq (accept : Nat → Nat → Option PrimRef) (sum : PrimInfo) (before : List PrimRef)
    (segs : List Segment) :
    runTask merge (passFunc accept) sum (ofList before) segs =
      ((acceptedOf accept segs).zipIdx (sum.size + before.length),
        ofList (before ++ acceptedOf accept segs)) := by
  induction segs generalizing before with
  | nil => simp [runTask, acceptedOf, accepted]
  | cons seg segs ih =>
      have hcons : acceptedOf accept (seg :: segs) =
          accepted accept seg.items ++ acceptedOf accept segs := by
        simp [acceptedOf, accepted]
      simp only [runTask, passFunc_eq, ← PrimInfo.ofList_append, ih, hcons]
      simp [List.zipIdx_append, Nat.add_assoc]

def reserved (k : Nat) : List (Nat × List PrimRef) → List (List (PrimRef × Nat))
  | [] => []
  | (room, prims) :: rest => prims.zipIdx k :: reserved (k + room) rest

theorem reserved_lt {k : Nat} {lists : List (Nat × List PrimRef)} (hroom : ∀ p ∈ lists, p.2.length ≤ p.1)
    {writes : List (PrimRef × Nat)} (hwrites : writes ∈ reserved k lists) {w : PrimRef × Nat}
    (hw : w ∈ writes) : w.2 < k + (lists.map Prod.fst).sum := by
  induction lists generalizing k with
  | nil => exact absurd hwrites List.not_mem_nil
  | cons p lists ih =>
      have hp := hroom p (List.mem_cons_self ..)
      rw [List.map_cons, List.sum_cons]
      rcases List.mem_cons.1 hwrites with rfl | hwrites
      · have hlt := List.snd_lt_add_of_mem_zipIdx hw
        omega
      · have hlt := ih (fun q hq => hroom q (List.mem_cons_of_mem p hq)) hwrites
        omega

/-- Without room to spare there are no gaps. -/
theorem reserved_tight {k : Nat} {lists : List (Nat × List PrimRef)}
    (hroom : ∀ p ∈ lists, p.2.length ≤ p.1)
    (hsum : (lists.map Prod.fst).sum = (lists.flatMap Prod.snd).length) :
    (reserved k lists).flatten = (lists.flatMap Prod.snd).zipIdx k := by
  induction lists generalizing k with
  | nil => rfl
  | cons p lists ih =>
      have hp := hroom p (List.mem_cons_self ..)
      have hrest := fun q hq => hroom q (List.mem_cons_of_mem p hq)
      have hle : (lists.flatMap Prod.snd).length ≤ (lists.map Prod.fst).sum := by
        rw [List.length_flatMap]
        exact List.sum_le_sum hrest
      rw [List.map_cons, List.sum_cons, List.flatMap_cons, List.length_append] at hsum
      have htight : p.1 = p.2.length := by omega
      rw [reserved, List.flatten_cons, ih hrest (by omega), List.flatMap_cons,
        List.zipIdx_append, htight]

section Passes

variable (accept : Nat → Nat → Option PrimRef) (tasks : List (List Segment))

theorem prefixSums_ofList (before : List PrimRef) :
    (prefixSums merge (ofList before) (tasks.map (fun segs => ofList (acceptedOf accept segs)))).2 =
      ofList (before ++ accepted accept (tasks.flatten.flatMap Segment.items)) := by
  induction tasks generalizing before with
  | nil => simp [prefixSums, accepted]
  | cons segs tasks ih =>
      simp only [List.map_cons, prefixSums, ← PrimInfo.ofList_append, ih]
      simp [acceptedOf, accepted]

theorem size_prefixSums (sum : PrimInfo) (counts : List PrimInfo) :
    (prefixSums merge sum counts).2.size = sum.size + (counts.map PrimInfo.size).sum := by
  induction counts generalizing sum with
  | nil => simp [prefixSums]
  | cons c counts ih => simp [prefixSums, ih, Nat.add_assoc]

/-- What a second pass writes and counts, given the sums of any earlier counts. -/
theorem pass_eq (count : List Segment → PrimInfo) (sum : PrimInfo) :
    ((prefixSums merge sum (tasks.map count)).1.zip tasks).map
        (fun p => runTask merge (passFunc accept) p.1 .empty p.2) =
      (reserved sum.size (tasks.map (fun segs => ((count segs).size, acceptedOf accept segs)))).zip
        (tasks.map (fun segs => ofList (acceptedOf accept segs))) := by
  induction tasks generalizing sum with
  | nil => rfl
  | cons segs tasks ih =>
      have htask := runTask_eq accept sum [] segs
      simp only [List.map_cons, prefixSums, List.zip_cons_cons, reserved, ih, PrimInfo.size_merge]
      exact congrArg (· :: _) htask

theorem length_reserved (k : Nat) (lists : List (Nat × List PrimRef)) :
    (reserved k lists).length = lists.length := by
  induction lists generalizing k with
  | nil => rfl
  | cons p lists ih => rw [reserved, List.length_cons, ih, List.length_cons]

theorem prefixSum1_eq {state : State} (htasks : state.tasks = some tasks)
    (count : List Segment → PrimInfo) :
    parallelForForPrefixSum1 state (prefixSums merge .empty (tasks.map count)).1 .empty
        (passFunc accept) merge =
      some (reserved 0 (tasks.map (fun segs => ((count segs).size, acceptedOf accept segs))),
        prefixSums merge .empty (tasks.map (fun segs => ofList (acceptedOf accept segs)))) := by
  have hlen : (reserved 0 (tasks.map (fun segs => ((count segs).size, acceptedOf accept segs)))).length =
      (tasks.map (fun segs => ofList (acceptedOf accept segs))).length := by
    simp [length_reserved]
  rw [parallelForForPrefixSum1, htasks]
  simp only [Option.map_some, pass_eq, PrimInfo.size_empty, List.map_fst_zip hlen.le,
    List.map_snd_zip hlen.ge]

end Passes

theorem foldl_ofSize (count : Segment → Nat) (n : Nat) (segs : List Segment) :
    segs.foldl (fun N seg => merge N (PrimInfo.ofSize (count seg))) (PrimInfo.ofSize n) =
      PrimInfo.ofSize (n + (segs.map count).sum) := by
  induction segs generalizing n with
  | nil => rfl
  | cons seg segs ih =>
      rw [List.foldl_cons, PrimInfo.merge_ofSize, ih, List.map_cons, List.sum_cons, Nat.add_assoc]

def rooms (room : List Segment → Nat) (accept : Nat → Nat → Option PrimRef)
    (tasks : List (List Segment)) :
    List (Nat × List PrimRef) :=
  tasks.map (fun segs => (room segs, acceptedOf accept segs))

theorem flatMap_snd_rooms (room : List Segment → Nat) (accept : Nat → Nat → Option PrimRef)
    (tasks : List (List Segment)) :
    (rooms room accept tasks).flatMap Prod.snd =
      accepted accept (tasks.flatten.flatMap Segment.items) := by
  induction tasks with
  | nil => rfl
  | cons segs tasks ih =>
      rw [rooms, List.map_cons, List.flatMap_cons, List.flatten_cons, List.flatMap_append, accepted,
        List.filterMap_append]
      exact congrArg _ ih

theorem sum_fst_rooms (room : List Segment → Nat) (accept : Nat → Nat → Option PrimRef)
    (tasks : List (List Segment)) :
    ((rooms room accept tasks).map Prod.fst).sum = (tasks.map room).sum := by
  rw [rooms, List.map_map]
  rfl

theorem length_acceptedOf_le {count : Segment → Nat} {accept : Nat → Nat → Option PrimRef}
    {segs : List Segment}
    (h : ∀ seg ∈ segs, (seg.items.filterMap (fun p => accept p.1 p.2)).length ≤ count seg) :
    (acceptedOf accept segs).length ≤ (segs.map count).sum := by
  induction segs with
  | nil => exact Nat.le_refl _
  | cons seg segs ih =>
      have hseg := h seg (List.mem_cons_self ..)
      have hsegs := ih (fun seg' h' => h seg' (List.mem_cons_of_mem seg h'))
      simp only [acceptedOf, accepted, List.flatMap_cons, List.filterMap_append, List.length_append,
        List.map_cons, List.sum_cons] at hsegs ⊢
      omega

theorem sum_count_le {tasks : List (List Segment)} {count : Segment → Nat}
    (h : ∀ segs ∈ tasks, ∀ seg ∈ segs, count seg ≤ seg.items.length) :
    (tasks.map (fun segs => (segs.map count).sum)).sum ≤
      (tasks.flatten.flatMap Segment.items).length := by
  have htask : ∀ segs ∈ tasks, (segs.map count).sum ≤ (segs.flatMap Segment.items).length := by
    intro segs hsegs
    rw [List.length_flatMap]
    exact List.sum_le_sum (h segs hsegs)
  rw [List.flatMap_def, List.map_flatten, List.flatten_flatten, List.map_map, List.length_flatten,
    List.map_map]
  exact List.sum_le_sum htask

theorem generate_spec {state : State} {tasks : List (List Segment)} (htasks : state.tasks = some tasks)
    (outcome : Outcome tasks) :
    ∃ g, generatePrimRefs state outcome.count outcome.accept = some g ∧
      g.pinfo = ofList (accepted outcome.accept (tasks.flatten.flatMap Segment.items)) ∧
      (∃ passes pass, g.passes = passes ++ [pass] ∧
        pass.flatten = (accepted outcome.accept (tasks.flatten.flatMap Segment.items)).zipIdx 0) ∧
      ∀ pass ∈ g.passes, ∀ writes ∈ pass, ∀ w ∈ writes,
        w.2 < (tasks.flatten.flatMap Segment.items).length := by
  obtain ⟨count, accept, haccept, hcount⟩ := outcome
  let room := fun segs : List Segment => (segs.map count).sum
  let exactRoom := fun segs => (acceptedOf accept segs).length
  have hroom : ∀ p ∈ rooms room accept tasks, p.2.length ≤ p.1 := by
    intro p hp
    obtain ⟨segs, hsegs, rfl⟩ := List.mem_map.1 hp
    exact length_acceptedOf_le (haccept segs hsegs)
  have hexact : ∀ p ∈ rooms exactRoom accept tasks, p.2.length ≤ p.1 := by
    intro p hp
    obtain ⟨segs, -, rfl⟩ := List.mem_map.1 hp
    exact Nat.le_refl _
  have hbound : ∀ {f : List Segment → Nat}, (∀ p ∈ rooms f accept tasks, p.2.length ≤ p.1) →
      (tasks.map f).sum ≤ (tasks.map room).sum →
      ∀ writes ∈ reserved 0 (rooms f accept tasks), ∀ w ∈ writes,
        w.2 < (tasks.flatten.flatMap Segment.items).length := by
    intro f hf hle writes hwrites w hw
    have hlt := reserved_lt hf hwrites hw
    rw [sum_fst_rooms] at hlt
    have htotal : (tasks.map room).sum ≤ _ := sum_count_le hcount
    omega
  have hcounts : tasks.map (fun segs => segs.foldl (fun N seg => merge N (PrimInfo.ofSize (count seg)))
      PrimInfo.empty) = tasks.map (fun segs => PrimInfo.ofSize (room segs)) := by
    refine List.map_congr_left fun segs _ => ?_
    have h := foldl_ofSize count 0 segs
    rwa [Nat.zero_add] at h
  have hnum : (prefixSums merge PrimInfo.empty
      (tasks.map (fun segs => PrimInfo.ofSize (room segs)))).2.size = (tasks.map room).sum := by
    rw [size_prefixSums, List.map_map, PrimInfo.size_empty, Nat.zero_add]
    rfl
  have hlen : (accepted accept (tasks.flatten.flatMap Segment.items)).length =
      (tasks.map exactRoom).sum := by
    rw [← flatMap_snd_rooms exactRoom, List.length_flatMap, rooms, List.map_map]
    rfl
  have hinfo : (prefixSums merge .empty (tasks.map (fun segs => ofList (acceptedOf accept segs)))).2 =
      ofList (accepted accept (tasks.flatten.flatMap Segment.items)) := prefixSums_ofList accept tasks []
  have hle : (tasks.map exactRoom).sum ≤ (tasks.map room).sum :=
    List.sum_le_sum fun segs hsegs => length_acceptedOf_le (haccept segs hsegs)
  have hpass2 := prefixSum1_eq accept tasks htasks (fun segs => PrimInfo.ofSize (room segs))
  have hpass3 := prefixSum1_eq accept tasks htasks (fun segs => ofList (acceptedOf accept segs))
  simp only [PrimInfo.size_ofSize, PrimInfo.size_ofList] at hpass2 hpass3
  have hgen : generatePrimRefs state count accept =
      if (tasks.map exactRoom).sum ≠ (tasks.map room).sum then
        some ⟨[reserved 0 (rooms room accept tasks), reserved 0 (rooms exactRoom accept tasks)],
          ofList (accepted accept (tasks.flatten.flatMap Segment.items))⟩
      else
        some ⟨[reserved 0 (rooms room accept tasks)],
          ofList (accepted accept (tasks.flatten.flatMap Segment.items))⟩ := by
    rw [generatePrimRefs, parallelForForPrefixSum0, htasks, Option.map_some, hcounts]
    simp only [Option.bind_eq_bind, Option.bind_some, hpass2, hpass3, hinfo, hnum,
      PrimInfo.size_ofList, hlen]
    rfl
  rw [hgen]
  split
  · refine ⟨_, rfl, rfl, ⟨[_], _, rfl, ?_⟩, ?_⟩
    · rw [reserved_tight hexact, flatMap_snd_rooms]
      rw [sum_fst_rooms, flatMap_snd_rooms, hlen]
    · intro pass hpass
      rcases List.mem_cons.1 hpass with rfl | hpass
      · exact hbound hroom (Nat.le_refl _)
      · obtain rfl := List.mem_singleton.1 hpass
        exact hbound hexact hle
  · rename_i hfull
    refine ⟨_, rfl, rfl, ⟨[], _, rfl, ?_⟩, ?_⟩
    · rw [reserved_tight hroom, flatMap_snd_rooms]
      rw [sum_fst_rooms, flatMap_snd_rooms, hlen]
      exact (not_not.1 hfull).symm
    · intro pass hpass
      obtain rfl := List.mem_singleton.1 hpass
      exact hbound hroom (Nat.le_refl _)

theorem runsTo_last {prims prims' : Nat → PrimRef} {passes : List (List (List (PrimRef × Nat)))}
    {pass : List (List (PrimRef × Nat))} {l : List PrimRef} (hpass : pass.flatten = l.zipIdx 0)
    (h : RunsTo (passes ++ [pass]) prims prims') {k : Nat} (hk : k < l.length) : prims' k = l[k] := by
  induction passes generalizing prims with
  | nil =>
      obtain ⟨order, hperm, rfl⟩ := h
      have hstore := store_zipIdx prims (hpass ▸ hperm) hk
      rwa [Nat.zero_add] at hstore
  | cons first passes ih =>
      obtain ⟨order, hperm, hrest⟩ := h
      exact ih hrest

def minStepSize : Nat := 1024

/-- For every outcome of pairing and filtering, the passes leave exactly the
accepted primitives in order, however their tasks are scheduled. -/
theorem primRefs_generated (sizes : List Nat) (numThreads : Nat) :
    ∃ state tasks, init sizes minStepSize numThreads = some state ∧ state.tasks = some tasks ∧
      tasks.length ≤ maxTasks ∧ tasks.flatten.flatMap Segment.items = items 0 sizes ∧
      (∀ t segs, tasks[t]? = some segs →
        segs.flatMap Segment.items = slice (items 0 sizes) (state.border t) (state.border (t + 1))) ∧
      ∀ outcome : Outcome tasks, ∃ g, generatePrimRefs state outcome.count outcome.accept = some g ∧
        g.pinfo = ofList (accepted outcome.accept (items 0 sizes)) ∧
        g.pinfo.size = (accepted outcome.accept (items 0 sizes)).length ∧
        (∀ prims prims', RunsTo g.passes prims prims' →
          ∀ k < g.pinfo.size, (accepted outcome.accept (items 0 sizes))[k]? = some (prims' k)) ∧
        ∀ pass ∈ g.passes, ∀ writes ∈ pass, ∀ w ∈ writes, w.2 < sizes.sum := by
  obtain ⟨state, hinit, rfl, hcount, hwf⟩ := init_spec sizes (by decide : 0 < minStepSize) numThreads
  obtain ⟨segs, htasks, hitems⟩ := hwf.tasks_spec
  refine ⟨state, _, hinit, htasks, ?_, hwf.visits hitems, ?_, ?_⟩
  · rw [List.length_map, List.length_range, hcount, taskCount, maxTasks]
    omega
  · intro t segs' ht
    have hlt : t < state.taskCount := by
      by_contra hge
      rw [List.getElem?_eq_none (by simpa using hge)] at ht
      cases ht
    rw [List.getElem?_map, List.getElem?_range hlt] at ht
    obtain rfl := Option.some.inj ht
    exact hitems t hlt
  · intro outcome
    obtain ⟨g, hgen, hinfo, ⟨passes, pass, hpasses, hlast⟩, hbound⟩ := generate_spec htasks outcome
    rw [hwf.visits hitems] at hinfo hlast hbound
    rw [length_items] at hbound
    have hsize : g.pinfo.size = (accepted outcome.accept (items 0 state.sizes)).length := by
      rw [hinfo, PrimInfo.size_ofList]
    refine ⟨g, hgen, hinfo, hsize, ?_, hbound⟩
    intro prims prims' hrun k hk
    rw [hsize] at hk
    rw [hpasses] at hrun
    rw [List.getElem?_eq_getElem hk, runsTo_last hlast hrun hk]

end RTBuild.PrimRefGen
