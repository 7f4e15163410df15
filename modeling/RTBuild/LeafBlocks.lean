import RTBuild.Plan

namespace RTBuild

open Library.Segment RTBuild.Splits RTBuild.Children Settings

structure Inside (base bytes addr : Nat) : Prop where
  base_le : base ≤ addr
  le_end : addr + 64 ≤ base + bytes
  mod_eq : addr % 64 = base % 64

theorem Inside.mono {base bytes base' bytes' addr : Nat} (h : Inside base bytes addr)
    (hbase : base' ≤ base) (hend : base + bytes ≤ base' + bytes') (hmod : base % 64 = base' % 64) :
    Inside base' bytes' addr :=
  ⟨hbase.trans h.base_le, h.le_end.trans hend, h.mod_eq.trans hmod⟩

theorem consecutive_inside {addr : Nat} {cells : List Cell} {s : Nat × Cell}
    (hs : s ∈ consecutive addr cells) : Inside addr (cells.length * 64) s.1 := by
  obtain ⟨i, hi, rfl⟩ := List.mem_mapIdx.1 hs
  have hbytes : nodeBytes = 64 := rfl
  constructor <;> simp only [hbytes] <;> omega

section quads

variable {b : BuilderT} {prims : Nat → PrimRef} {ty : PrimType}

@[simp] theorem length_quadLeaves (r : BuildRecord) : (quadLeaves b prims ty r).length = r.size := by
  simp [quadLeaves, BuildRecord.indices]

theorem createAllQuads_inside {children : List BuildRecord} {addr : Nat} {s : Nat × Cell}
    (hs : s ∈ (createAllQuads b prims ty children addr).flatMap Prod.fst) :
    Inside addr ((children.map BuildRecord.size).sum * 64) s.1 := by
  have hbytes : nodeBytes = 64 := rfl
  induction children generalizing addr with
  | nil => exact absurd hs List.not_mem_nil
  | cons child children ih =>
      rw [createAllQuads, List.flatMap_cons, List.mem_append] at hs
      rw [List.map_cons, List.sum_cons]
      rcases hs with hs | hs
      · have hinside := consecutive_inside hs
        rw [List.length_map, length_quadLeaves] at hinside
        exact hinside.mono le_rfl (by omega) rfl
      · exact (ih hs).mono (by omega) (by rw [hbytes]; omega) (by rw [hbytes]; omega)

end quads

section memory

def storesAt (stores : List (Nat × Cell)) (addr : Nat) : List Cell :=
  stores.filterMap (fun s => if s.1 = addr then some s.2 else none)

def Keeps (m : Nat → Option Cell) (stores : List (Nat × Cell)) : Prop :=
  ∀ addr, storesAt stores addr ≠ [] → m addr = (storesAt stores addr).getLast?

variable {m : Nat → Option Cell} {stores : List (Nat × Cell)}

theorem mem_storesAt {addr : Nat} {cell : Cell} :
    cell ∈ storesAt stores addr ↔ (addr, cell) ∈ stores := by
  rw [storesAt, List.mem_filterMap]
  constructor
  · rintro ⟨⟨addr', cell'⟩, hs, hcell⟩
    split at hcell
    · obtain rfl := Option.some.inj hcell
      obtain rfl : addr' = addr := ‹_›
      exact hs
    · cases hcell
  · exact fun hs => ⟨_, hs, if_pos rfl⟩

theorem Keeps.tail {s : Nat × Cell} (h : Keeps m (s :: stores)) : Keeps m stores := by
  intro addr hne
  have hm := h addr
  rw [storesAt, List.filterMap_cons] at hm
  by_cases haddr : s.1 = addr
  · simp only [if_pos haddr] at hm
    rw [hm (List.cons_ne_nil _ _)]
    exact List.getLast?_cons_of_ne_nil hne
  · simp only [if_neg haddr] at hm
    exact hm hne

theorem Keeps.head {addr : Nat} {cell : Cell} (h : Keeps m ((addr, cell) :: stores))
    (hlast : storesAt stores addr = []) : m addr = some cell := by
  have hm := h addr
  rw [storesAt, List.filterMap_cons] at hm
  simp only [if_true] at hm
  rw [hm (List.cons_ne_nil _ _)]
  exact congrArg (fun cells : List Cell => (cell :: cells).getLast?) hlast

end memory

section procedurals

variable {b : BuilderT}

namespace ProceduralLeaf

/-- A slot holds a primitive, and nothing after it belongs to the same child. -/
def Holds (leaf : ProceduralLeaf) (slot : Nat) (desc : PrimLeafDesc) (primID : Fin (2 ^ 32)) : Prop :=
  leaf.leafDesc = desc ∧ ∃ h : slot < 13, leaf.primIndex ⟨slot, h⟩ = primID ∧ leaf.last ⟨slot, h⟩ = true

/-- What later additions keep. -/
structure Extends (leaf leaf' : ProceduralLeaf) : Prop where
  desc_eq : leaf'.leafDesc = leaf.leafDesc
  slots : ∀ i : Fin 13, i.val < leaf.numPrimitives →
    leaf'.primIndex i = leaf.primIndex i ∧ leaf'.last i = leaf.last i

theorem Extends.refl (leaf : ProceduralLeaf) : leaf.Extends leaf := ⟨rfl, fun _ _ => ⟨rfl, rfl⟩⟩

theorem Extends.trans {leaf leaf' leaf'' : ProceduralLeaf} (h : leaf.Extends leaf')
    (h' : leaf'.Extends leaf'') (hle : leaf.numPrimitives ≤ leaf'.numPrimitives) :
    leaf.Extends leaf'' := by
  refine ⟨h'.desc_eq.trans h.desc_eq, fun i hi => ?_⟩
  obtain ⟨hprim, hlast⟩ := h.slots i hi
  obtain ⟨hprim', hlast'⟩ := h'.slots i (hi.trans_le hle)
  exact ⟨hprim'.trans hprim, hlast'.trans hlast⟩

theorem Holds.extends {leaf leaf' : ProceduralLeaf} {slot : Nat} {desc : PrimLeafDesc}
    {primID : Fin (2 ^ 32)} (h : leaf.Holds slot desc primID) (hslot : slot < leaf.numPrimitives)
    (hextends : leaf.Extends leaf') : leaf'.Holds slot desc primID := by
  obtain ⟨hdesc, hlt, hprim, hlast⟩ := h
  obtain ⟨hprim', hlast'⟩ := hextends.slots ⟨slot, hlt⟩ hslot
  exact ⟨hextends.desc_eq.trans hdesc, hlt, hprim'.trans hprim, hlast'.trans hlast⟩

theorem holds_of_update {leaf : ProceduralLeaf} {slot : Nat} {desc : PrimLeafDesc}
    {primID : Fin (2 ^ 32)} {primIndex : Fin 13 → Fin (2 ^ 32)} {last : Fin 13 → Bool}
    (h : slot < 13) (hdesc : leaf.leafDesc = desc)
    (hprim : leaf.primIndex = Function.update primIndex ⟨slot, h⟩ primID)
    (hlast : leaf.last = Function.update last ⟨slot, h⟩ true) : leaf.Holds slot desc primID :=
  ⟨hdesc, h, by rw [hprim, Function.update_self], by rw [hlast, Function.update_self]⟩

theorem holds_ofPrimitive (desc : PrimLeafDesc) (primID : Fin (2 ^ 32)) :
    (ofPrimitive desc primID true).Holds 0 desc primID :=
  ⟨rfl, Nat.succ_pos 12, by simp [ofPrimitive], rfl⟩

end ProceduralLeaf

theorem proceduralDesc_same {prim prim' : PrimRef} :
    (proceduralDesc b prim).same (proceduralDesc b prim') = true ↔
      proceduralDesc b prim = proceduralDesc b prim' := by
  constructor
  · intro hsame
    have hval := congrArg Fin.val (beq_iff_eq.1 hsame)
    have hgeom : prim.geomID = prim'.geomID := Fin.ext hval
    rw [proceduralDesc, proceduralDesc, hgeom]
  · intro heq
    rw [heq]
    exact beq_self_eq_true _

def geometryRuns (b : BuilderT) (list : List PrimRef) : List (List PrimRef) :=
  list.splitBy (fun prim prim' => (proceduralDesc b prim).same (proceduralDesc b prim'))

def RunsFit (b : BuilderT) (list : List PrimRef) : Prop := ∀ run ∈ geometryRuns b list, run.length ≤ 13

/-- Behind a primitive whose block has some slots taken, no run overflows its block. -/
def RoomFor (b : BuilderT) : Nat → PrimRef → List PrimRef → Prop
  | _, _, [] => True
  | taken, prev, prim :: list =>
      if (proceduralDesc b prev).same (proceduralDesc b prim) then taken < 13 ∧
        RoomFor b (taken + 1) prim list
      else RoomFor b 1 prim list

def Room (b : BuilderT) : List PrimRef → Prop
  | [] => True
  | prim :: list => RoomFor b 1 prim list

section room

variable {taken : Nat} {prev prim : PrimRef} {list : List PrimRef}
  (h : RoomFor b taken prev (prim :: list))

include h

theorem RoomFor.lt (hsame : (proceduralDesc b prev).same (proceduralDesc b prim) = true) :
    taken < 13 := by
  rw [RoomFor, if_pos hsame] at h
  exact h.1

theorem RoomFor.of_same (hsame : (proceduralDesc b prev).same (proceduralDesc b prim) = true) :
    RoomFor b (taken + 1) prim list := by
  rw [RoomFor, if_pos hsame] at h
  exact h.2

theorem RoomFor.of_ne (hsame : (proceduralDesc b prev).same (proceduralDesc b prim) = false) :
    RoomFor b 1 prim list := by
  rw [RoomFor, if_neg (ne_true_of_eq_false hsame)] at h
  exact h

end room

theorem runsFit_of_length {list : List PrimRef} (h : list.length ≤ 13) : RunsFit b list := by
  intro run hrun
  have hsub : run.Sublist (geometryRuns b list).flatten := List.sublist_flatten_of_mem hrun
  rw [geometryRuns, List.flatten_splitBy] at hsub
  exact hsub.length_le.trans h

theorem geometryRuns_cons_of_ne {prim prim' : PrimRef} {list : List PrimRef}
    (h : (proceduralDesc b prim).same (proceduralDesc b prim') = false) :
    geometryRuns b (prim :: prim' :: list) = [prim] :: geometryRuns b (prim' :: list) := by
  apply List.splitBy_append_cons (l := [prim])
  simp [h]

theorem geometryRuns_cons (prim : PrimRef) (list : List PrimRef) :
    ∃ run runs, geometryRuns b (prim :: list) = (prim :: run) :: runs := by
  have hflat : (geometryRuns b (prim :: list)).flatten = prim :: list := List.flatten_splitBy _ _
  have hnil : [] ∉ geometryRuns b (prim :: list) := List.nil_notMem_splitBy _ _
  generalize geometryRuns b (prim :: list) = all at hflat hnil ⊢
  cases all with
  | nil => exact absurd hflat.symm (List.cons_ne_nil _ _)
  | cons first runs =>
      cases first with
      | nil => exact absurd List.mem_cons_self hnil
      | cons head run =>
          rw [List.flatten_cons, List.cons_append] at hflat
          obtain ⟨rfl, _⟩ := List.cons.inj hflat
          exact ⟨run, runs, rfl⟩

theorem geometryRuns_cons_of_same {prim prim' : PrimRef} (list : List PrimRef)
    (h : (proceduralDesc b prim).same (proceduralDesc b prim') = true) :
    ∃ run runs, geometryRuns b (prim' :: list) = (prim' :: run) :: runs ∧
      geometryRuns b (prim :: prim' :: list) = (prim :: prim' :: run) :: runs := by
  obtain ⟨run, runs, hruns⟩ := geometryRuns_cons (b := b) prim' list
  obtain ⟨hflat, hnil, hchain, hadj⟩ := List.splitBy_eq_iff.1 hruns
  refine ⟨run, runs, hruns, List.splitBy_eq_iff.2 ⟨congrArg (prim :: ·) hflat, ?_, ?_, ?_⟩⟩
  · rw [List.mem_cons, not_or] at hnil ⊢
    exact ⟨(List.cons_ne_nil _ _).symm, hnil.2⟩
  · intro run' hrun'
    rcases List.mem_cons.1 hrun' with rfl | hrun'
    · exact (hchain _ List.mem_cons_self).cons_cons h
    · exact hchain run' (List.mem_cons_of_mem _ hrun')
  · rw [List.isChain_cons] at hadj ⊢
    refine ⟨fun next hnext => ?_, hadj.2⟩
    obtain ⟨_, hnext', hlast⟩ := hadj.1 next hnext
    exact ⟨List.cons_ne_nil _ _, hnext', by rwa [List.getLast_cons (List.cons_ne_nil _ _)]⟩

theorem numGeometries_eq (prim : PrimRef) (list : List PrimRef) :
    numGeometries b (prim :: list) = (geometryRuns b (prim :: list)).length := by
  induction list generalizing prim with
  | nil => rfl
  | cons prim' list ih =>
      rw [numGeometries, ih]
      cases hsame : (proceduralDesc b prim).same (proceduralDesc b prim') with
      | true =>
          obtain ⟨run, runs, hrest, hall⟩ := geometryRuns_cons_of_same list hsame
          rw [hrest, hall, if_pos rfl, Nat.zero_add, List.length_cons, List.length_cons]
      | false =>
          rw [geometryRuns_cons_of_ne hsame, if_neg Bool.false_ne_true, List.length_cons, Nat.add_comm]

/-- The run of the previous primitive, less what is taken, fits into the block. -/
theorem roomFor_of_runs {taken : Nat} {prev : PrimRef} {list : List PrimRef} {run : List PrimRef}
    {runs : List (List PrimRef)} (hruns : geometryRuns b (prev :: list) = (prev :: run) :: runs)
    (htaken : taken + run.length ≤ 13) (hfit : ∀ run ∈ runs, run.length ≤ 13) :
    RoomFor b taken prev list := by
  induction list generalizing taken prev run runs with
  | nil => trivial
  | cons prim list ih =>
      rw [RoomFor]
      cases hsame : (proceduralDesc b prev).same (proceduralDesc b prim) with
      | true =>
          obtain ⟨run', runs', hrest, hall⟩ := geometryRuns_cons_of_same list hsame
          obtain ⟨hrun, rfl⟩ := List.cons.inj (hall.symm.trans hruns)
          obtain rfl := (List.cons.inj hrun).2
          rw [List.length_cons] at htaken
          rw [if_pos rfl]
          exact ⟨by omega, ih hrest (by omega) hfit⟩
      | false =>
          obtain ⟨_, rfl⟩ := List.cons.inj ((geometryRuns_cons_of_ne hsame).symm.trans hruns)
          rw [if_neg Bool.false_ne_true]
          obtain ⟨run', runs', hrest⟩ := geometryRuns_cons (b := b) prim list
          rw [hrest] at hfit
          have hrun := hfit _ List.mem_cons_self
          rw [List.length_cons] at hrun
          exact ih hrest (by omega) (fun r hr => hfit r (List.mem_cons_of_mem _ hr))

theorem RunsFit.room {list : List PrimRef} (h : RunsFit b list) : Room b list := by
  cases list with
  | nil => trivial
  | cons prim list =>
      obtain ⟨run, runs, hruns⟩ := geometryRuns_cons (b := b) prim list
      rw [RunsFit, hruns] at h
      have hrun := h _ List.mem_cons_self
      rw [List.length_cons] at hrun
      exact roomFor_of_runs hruns (by omega) (fun r hr => h r (List.mem_cons_of_mem _ hr))

theorem numGeometries_pos (b : BuilderT) (list : List PrimRef) : 0 < numGeometries b list := by
  induction list with
  | nil => exact Nat.one_pos
  | cons prim list ih =>
      cases list with
      | nil => exact Nat.one_pos
      | cons prim' list =>
          rw [numGeometries]
          exact Nat.add_pos_right _ ih

namespace ProceduralLeafBuilder

theorem addProcedural_of_some {s : ProceduralLeafBuilder} {desc : PrimLeafDesc}
    {primID : Fin (2 ^ 32)} {last : Bool} {leaf : ProceduralLeaf}
    (h : s.currProcedural.add desc primID last = some leaf) :
    s.addProcedural desc primID last =
      (⟨s.data, s.currBlockID, s.currBlockID, s.curAddr, leaf⟩,
        ⟨s.currBlockID - s.prevBlockID, leaf.numPrimitives - 1⟩) := by
  rw [addProcedural, h]

theorem addProcedural_of_none {s : ProceduralLeafBuilder} {desc : PrimLeafDesc}
    {primID : Fin (2 ^ 32)} {last : Bool} (h : s.currProcedural.add desc primID last = none) :
    s.addProcedural desc primID last =
      (⟨s.data + nodeBytes, s.currBlockID + 1, s.currBlockID + 1, s.data, .ofPrimitive desc primID last⟩,
        ⟨s.currBlockID + 1 - s.prevBlockID, 0⟩) := by
  rw [addProcedural, h]
  rfl

structure Ready (b : BuilderT) (s : ProceduralLeafBuilder) (prev : PrimRef) : Prop where
  data_eq : s.data = s.curAddr + 64
  blockID_eq : s.prevBlockID = s.currBlockID
  size_pos : 0 < s.currProcedural.numPrimitives
  desc_eq : s.currProcedural.leafDesc = proceduralDesc b prev

structure Placed (b : BuilderT) (prim : PrimRef) (r : ProceduralLeafBuilder × PrimRange) : Prop where
  ready : Ready b r.1 prim
  holds : r.1.currProcedural.Holds r.2.curPrim (proceduralDesc b prim) prim.primID
  slot_lt : r.2.curPrim < r.1.currProcedural.numPrimitives

theorem start_placed (b : BuilderT) (data : Nat) (prim : PrimRef) :
    Placed b prim ((start data).addProcedural (proceduralDesc b prim) prim.primID true) ∧
      ((start data).addProcedural (proceduralDesc b prim) prim.primID true).1.curAddr = data ∧
      ((start data).addProcedural (proceduralDesc b prim) prim.primID true).2 = ⟨0, 0⟩ ∧
      ((start data).addProcedural
        (proceduralDesc b prim) prim.primID true).1.currProcedural.numPrimitives = 1 := by
  have hsame : (proceduralDesc b prim).same (proceduralDesc b prim) = true := beq_self_eq_true _
  have hadd : (start data).currProcedural.add (proceduralDesc b prim) prim.primID true =
      some ⟨proceduralDesc b prim, 1, Function.update (fun _ => false) 0 true,
        Function.update (fun _ => 0xFFFFFFFF) 0 prim.primID⟩ := by
    simp [start, ProceduralLeaf.add, ProceduralLeaf.empty, hsame]
  have hzero : 0 < 13 := by decide
  rw [addProcedural_of_some hadd]
  exact ⟨⟨⟨rfl, rfl, Nat.one_pos, rfl⟩, ProceduralLeaf.holds_of_update hzero rfl rfl rfl,
    Nat.one_pos⟩, rfl, rfl, rfl⟩

/-- A primitive of the same geometry joins the block, and any other one starts a new block. -/
theorem Ready.add {s : ProceduralLeafBuilder} {prev : PrimRef} (h : Ready b s prev) (prim : PrimRef)
    (hfull : (proceduralDesc b prev).same (proceduralDesc b prim) = true →
      s.currProcedural.numPrimitives < 13) :
    Placed b prim (s.addProcedural (proceduralDesc b prim) prim.primID true) ∧
      (((proceduralDesc b prev).same (proceduralDesc b prim) = true ∧
          s.currProcedural.Extends (s.addProcedural
            (proceduralDesc b prim) prim.primID true).1.currProcedural ∧
          (s.addProcedural (proceduralDesc b prim) prim.primID true).1.curAddr = s.curAddr ∧
          (s.addProcedural (proceduralDesc b prim) prim.primID true).1.currProcedural.numPrimitives =
            s.currProcedural.numPrimitives + 1 ∧
          (s.addProcedural (proceduralDesc b prim) prim.primID true).2 =
            ⟨0, s.currProcedural.numPrimitives⟩) ∨
        ((proceduralDesc b prev).same (proceduralDesc b prim) = false ∧
          (s.addProcedural (proceduralDesc b prim) prim.primID true).1.curAddr = s.curAddr + 64 ∧
          (s.addProcedural (proceduralDesc b prim) prim.primID true).1.currProcedural.numPrimitives = 1 ∧
          (s.addProcedural (proceduralDesc b prim) prim.primID true).2 = ⟨1, 0⟩)) := by
  have hsize := h.size_pos
  cases hsame : (proceduralDesc b prev).same (proceduralDesc b prim) with
  | true =>
      have hroom := hfull hsame
      have hdesc := proceduralDesc_same.1 hsame
      have hadd : s.currProcedural.add (proceduralDesc b prim) prim.primID true =
          some ⟨proceduralDesc b prim, s.currProcedural.numPrimitives + 1,
            Function.update s.currProcedural.last ⟨s.currProcedural.numPrimitives, hroom⟩ true,
            Function.update s.currProcedural.primIndex ⟨s.currProcedural.numPrimitives,
              hroom⟩ prim.primID⟩ := by
        rw [ProceduralLeaf.add, dif_pos hroom]
        have hsame' := hsame
        rw [hdesc] at hsame'
        simp only [if_neg hsize.ne', h.desc_eq, hdesc, hsame', if_true]
      rw [addProcedural_of_some hadd]
      refine ⟨⟨⟨h.data_eq, rfl, Nat.succ_pos _, rfl⟩, ?_, Nat.lt_succ_self _⟩,
        Or.inl ⟨rfl, ⟨?_, ?_⟩, rfl, rfl, ?_⟩⟩
      · exact ProceduralLeaf.holds_of_update hroom rfl rfl rfl
      · exact hdesc.symm.trans h.desc_eq.symm
      · intro i hi
        have hne : i ≠ ⟨s.currProcedural.numPrimitives, hroom⟩ := fun heq => by simp [heq] at hi
        exact ⟨Function.update_of_ne hne .., Function.update_of_ne hne ..⟩
      · simp [h.blockID_eq]
  | false =>
      have hadd : s.currProcedural.add (proceduralDesc b prim) prim.primID true = none := by
        rw [ProceduralLeaf.add]
        split
        · simp [hsize.ne', h.desc_eq, hsame]
        · rfl
      rw [addProcedural_of_none hadd]
      refine ⟨⟨⟨rfl, rfl, Nat.one_pos, rfl⟩, ProceduralLeaf.holds_ofPrimitive _ _, Nat.one_pos⟩,
        Or.inr ⟨rfl, h.data_eq, rfl, ?_⟩⟩
      simp [h.blockID_eq]

variable {m : Nat → Option Cell}

def HoldsAt (b : BuilderT) (m : Nat → Option Cell) (addr slot : Nat) (prim : PrimRef) : Prop :=
  ∃ leaf, m addr = some (.procedural leaf) ∧ leaf.Holds slot (proceduralDesc b prim) prim.primID

def AllPlaced (b : BuilderT) (m : Nat → Option Cell) : Nat → List PrimRef → List PrimRange → Prop
  | addr, prim :: list, range :: ranges =>
      range.blockDelta ≤ 1 ∧ range.curPrim < 13 ∧
        HoldsAt b m (addr + 64 * range.blockDelta) range.curPrim prim ∧
        AllPlaced b m (addr + 64 * range.blockDelta) list ranges
  | _, [], [] => True
  | _, _, _ => False

def blockStores (added : List (ProceduralLeafBuilder × PrimRange)) : List (Nat × Cell) :=
  added.map (fun s => (s.1.curAddr, .procedural s.1.currProcedural))

/-- No block is before the current one, and only a change of the geometry takes a new one. -/
theorem Ready.inside {s : ProceduralLeafBuilder} {prev : PrimRef} (h : Ready b s prev)
    (list : List PrimRef) (hroom : RoomFor b s.currProcedural.numPrimitives prev list) :
    ∀ r ∈ addProcedurals b s list,
      Inside s.curAddr (numGeometries b (prev :: list) * 64) r.1.curAddr := by
  induction list generalizing s prev with
  | nil => exact fun r hr => absurd hr List.not_mem_nil
  | cons prim list ih =>
      obtain ⟨hplaced, hcases⟩ := h.add prim hroom.lt
      have hpos := numGeometries_pos b (prim :: list)
      intro r hr
      rw [addProcedurals, List.mem_cons] at hr
      rw [numGeometries]
      rcases hcases with ⟨hsame, _, haddr, hsize, _⟩ | ⟨hsame, haddr, hsize, _⟩
      · rw [if_pos hsame, Nat.zero_add]
        rcases hr with rfl | hr
        · exact ⟨haddr.ge, by omega, by omega⟩
        · have hrest := ih hplaced.ready (hsize ▸ hroom.of_same hsame) r hr
          rwa [haddr] at hrest
      · rw [if_neg (by simp [hsame])]
        rcases hr with rfl | hr
        · exact ⟨by omega, by omega, by omega⟩
        · have hrest := ih hplaced.ready (hsize ▸ hroom.of_ne hsame) r hr
          rw [haddr] at hrest
          exact hrest.mono (by omega) (by omega) (by omega)

/-- In a memory that keeps the stores, additions leave what is there, and are all placed. -/
theorem Ready.allPlaced {s : ProceduralLeafBuilder} {prev : PrimRef} (h : Ready b s prev)
    (list : List PrimRef) (hroom : RoomFor b s.currProcedural.numPrimitives prev list)
    (hkeeps : Keeps m
      ((s.curAddr, .procedural s.currProcedural) :: blockStores (addProcedurals b s list))) :
    (∃ leaf, m s.curAddr = some (.procedural leaf) ∧ s.currProcedural.Extends leaf) ∧
      AllPlaced b m s.curAddr list ((addProcedurals b s list).map Prod.snd) := by
  induction list generalizing s prev with
  | nil => exact ⟨⟨_, hkeeps.head rfl, .refl _⟩, trivial⟩
  | cons prim list ih =>
      obtain ⟨hplaced, hcases⟩ := h.add prim hroom.lt
      have hsize : RoomFor b
          (s.addProcedural (proceduralDesc b prim) prim.primID true).1.currProcedural.numPrimitives
          prim list := by
        rcases hcases with ⟨hsame, _, _, hsize, _⟩ | ⟨hsame, _, hsize, _⟩
        · exact hsize ▸ hroom.of_same hsame
        · exact hsize ▸ hroom.of_ne hsame
      obtain ⟨⟨leaf, hleaf, hextends⟩, hrest⟩ := ih hplaced.ready hsize hkeeps.tail
      have hholds : HoldsAt b m (s.addProcedural (proceduralDesc b prim) prim.primID true).1.curAddr
          (s.addProcedural (proceduralDesc b prim) prim.primID true).2.curPrim prim :=
        ⟨leaf, hleaf, hplaced.holds.extends hplaced.slot_lt hextends⟩
      rw [addProcedurals, List.map_cons, AllPlaced]
      rcases hcases with ⟨hsame, hkept, haddr, hgrown, hrange⟩ | ⟨_, haddr, _, hrange⟩
      · rw [haddr] at hleaf hholds hrest
        rw [hrange] at hholds ⊢
        have hslot := hroom.lt hsame
        exact ⟨⟨leaf, hleaf, hkept.trans hextends (by omega)⟩, Nat.zero_le _, hslot, hholds, hrest⟩
      · -- the old block is complete, since all later blocks are behind it
        have hlater : storesAt (blockStores (addProcedurals b s (prim :: list))) s.curAddr = [] := by
          rw [List.eq_nil_iff_forall_not_mem]
          intro cell hcell
          obtain ⟨r, hr, heq⟩ := List.mem_map.1 (mem_storesAt.1 hcell)
          have hr' : s.curAddr + 64 ≤ r.1.curAddr := by
            rw [addProcedurals, List.mem_cons] at hr
            rcases hr with rfl | hr
            · omega
            · have := (hplaced.ready.inside list hsize r hr).base_le
              omega
          have := congrArg Prod.fst heq
          simp only at this
          omega
        rw [haddr] at hholds hrest
        rw [hrange] at hholds ⊢
        exact ⟨⟨_, hkeeps.head hlater, .refl _⟩, le_rfl, by decide, hholds, hrest⟩

theorem start_inside (data : Nat) (list : List PrimRef) (hroom : Room b list) :
    ∀ r ∈ addProcedurals b (.start data) list, Inside data (numGeometries b list * 64) r.1.curAddr := by
  cases list with
  | nil => exact fun r hr => absurd hr List.not_mem_nil
  | cons prim list =>
      obtain ⟨hplaced, haddr, _, hsize⟩ := start_placed b data prim
      intro r hr
      rw [addProcedurals, List.mem_cons] at hr
      rcases hr with rfl | hr
      · have hpos := numGeometries_pos b (prim :: list)
        exact ⟨haddr.ge, by omega, by omega⟩
      · have hrest := hplaced.ready.inside list (hsize ▸ hroom) r hr
        rwa [haddr] at hrest

theorem start_allPlaced (data : Nat) (list : List PrimRef) (hroom : Room b list)
    (hkeeps : Keeps m
      ((data, .procedural .empty) :: blockStores (addProcedurals b (.start data) list))) :
    AllPlaced b m data list ((addProcedurals b (.start data) list).map Prod.snd) := by
  cases list with
  | nil => trivial
  | cons prim list =>
      obtain ⟨hplaced, haddr, hrange, hsize⟩ := start_placed b data prim
      obtain ⟨⟨leaf, hleaf, hextends⟩, hrest⟩ := hplaced.ready.allPlaced list (hsize ▸ hroom) hkeeps.tail
      have hholds := hplaced.holds.extends hplaced.slot_lt hextends
      rw [addProcedurals, List.map_cons, AllPlaced]
      rw [haddr] at hleaf hrest
      rw [hrange] at hholds ⊢
      exact ⟨Nat.zero_le _, by decide, ⟨leaf, hleaf, hholds⟩, hrest⟩

end ProceduralLeafBuilder

end procedurals

/-- All that a fat leaf stores is inside of its block. -/
theorem FatImage.stores_inside {b : BuilderT} {prims : Nat → PrimRef} {r : BuildRecord}
    {ty : PrimType} (hr : r.Describes b.getType prims) (htype : r.type = some ty)
    (hsize : r.size ≤ leafSize r.type) (childData : Nat) :
    ∀ s ∈ ((FatImage.ofRecord b prims r).block childData).stores,
      Inside childData (FatImage.ofRecord b prims r).bytes s.1 := by
  have hfirst : b.getType (prims r.begin_).geomID = ty :=
    hr.type_eq ty htype _ (mem_slice.2 ⟨_, le_rfl, hr.nonempty, rfl⟩)
  have hnine : r.size ≤ 9 := by
    rw [htype] at hsize
    cases ty <;> simp only [leafSize] at hsize <;> omega
  have hquads : ∀ ty', ∀ s ∈ ((FatImage.ofQuads b (fatLeafChildren b.heuristic prims r).1 r ty'
      (fatLeafChildren b.heuristic prims r).2).block childData).stores,
      Inside childData (r.size * 64) s.1 := by
    intro ty' s hs
    have hcover := (fatLeafChildren_chosen (h := b.heuristic) hr hnine).cover
    rw [← hcover.sum_size]
    exact createAllQuads_inside hs
  rw [ofRecord, hfirst]
  cases ty with
  | triangle => exact hquads .triangle
  | quad => exact hquads .quad
  | procedural =>
      intro s hs
      rw [htype] at hsize
      have hlength : (r.list (fatLeafChildren b.heuristic prims r).1).length ≤ 13 := by
        rw [r.length_list]
        simp only [leafSize] at hsize
        omega
      rcases List.mem_cons.1 hs with rfl | hs
      · have hpos := numGeometries_pos b (r.list (fatLeafChildren b.heuristic prims r).1)
        have hbytes : nodeBytes = 64 := rfl
        refine ⟨le_rfl, ?_, rfl⟩
        simp only [ofProcedurals, hbytes]
        omega
      · obtain ⟨e, he, rfl⟩ := List.mem_map.1 hs
        exact ProceduralLeafBuilder.start_inside childData _ (runsFit_of_length hlength).room e he
  | inst =>
      intro s hs
      have hinside := consecutive_inside hs
      have hcells :
          ((r.list (fatLeafChildren b.heuristic prims r).1).flatMap (instanceCells b)).length * 64 =
          r.size * sizeofInstanceLeaf := by
        have htwo : ∀ list : List PrimRef, (list.flatMap (instanceCells b)).length =
            2 * list.length := by
          intro list
          induction list with
          | nil => rfl
          | cons prim list ih => simp [instanceCells, ih]; omega
        rw [htwo, r.length_list, sizeofInstanceLeaf]
        omega
      rw [hcells] at hinside
      exact hinside

end RTBuild
