import RTBuild.Depth
import RTBuild.Emitted

namespace RTBuild

variable {b : BuilderT}

theorem Inside.exists_block {base n addr : Nat} (h : Inside base (n * nodeBytes) addr) :
    ∃ k < n, addr = base + k * nodeBytes := by
  have hbytes : nodeBytes = 64 := rfl
  obtain ⟨hle, hend, hmod⟩ := h
  rw [hbytes] at hend ⊢
  exact ⟨(addr - base) / 64, by omega, by omega⟩

theorem RoomFor.take {taken : Nat} {prev : PrimRef} {list : List PrimRef}
    (h : RoomFor b taken prev list) (k : Nat) : RoomFor b taken prev (list.take k) := by
  induction list generalizing taken prev k with
  | nil => rwa [List.take_nil]
  | cons prim list ih =>
      cases k with
      | zero => trivial
      | succ k =>
          rw [List.take_succ_cons, RoomFor]
          split
          · next hsame => exact ⟨h.lt hsame, ih (h.of_same hsame) k⟩
          · next hne => exact ih (h.of_ne (Bool.eq_false_of_not_eq_true hne)) k

theorem Room.take {list : List PrimRef} (h : Room b list) (k : Nat) : Room b (list.take k) := by
  cases list with
  | nil => rwa [List.take_nil]
  | cons prim list =>
      cases k with
      | zero => trivial
      | succ k => exact RoomFor.take h k

namespace ProceduralLeafBuilder

def lastBuilder (b : BuilderT) (s : ProceduralLeafBuilder) (list : List PrimRef) :
    ProceduralLeafBuilder :=
  list.foldl (fun s prim => (s.addProcedural (proceduralDesc b prim) prim.primID true).1) s

theorem length_addProcedurals (s : ProceduralLeafBuilder) (list : List PrimRef) :
    (addProcedurals b s list).length = list.length := by
  induction list generalizing s with
  | nil => rfl
  | cons prim list ih => exact congrArg (· + 1) (ih _)

theorem take_addProcedurals (s : ProceduralLeafBuilder) (list : List PrimRef) (k : Nat) :
    (addProcedurals b s list).take k = addProcedurals b s (list.take k) := by
  induction list generalizing s k with
  | nil => rw [List.take_nil, addProcedurals, List.take_nil]
  | cons prim list ih =>
      cases k with
      | zero => rfl
      | succ k =>
          rw [List.take_succ_cons, addProcedurals, addProcedurals, List.take_succ_cons]
          exact congrArg _ (ih _ k)

/-- Additions take the blocks one after the other, and fill each of them. -/
theorem Ready.blocks {s : ProceduralLeafBuilder} {prev : PrimRef} (h : Ready b s prev)
    (list : List PrimRef) (hroom : RoomFor b s.currProcedural.numPrimitives prev list) :
    (lastBuilder b s list).data = s.curAddr + numGeometries b (prev :: list) * nodeBytes ∧
      ∀ k, 0 < k → k < numGeometries b (prev :: list) →
        ∃ r ∈ addProcedurals b s list, r.1.curAddr = s.curAddr + k * nodeBytes := by
  have hbytes : nodeBytes = 64 := rfl
  induction list generalizing s prev with
  | nil =>
      have hone : numGeometries b [prev] = 1 := rfl
      rw [hone, Nat.one_mul]
      exact ⟨h.data_eq, fun k hpos hk => absurd hk (Nat.not_lt.2 hpos)⟩
  | cons prim list ih =>
      obtain ⟨hplaced, hcases⟩ := h.add prim hroom.lt
      rw [numGeometries]
      rcases hcases with ⟨hsame, _, haddr, hsize, _⟩ | ⟨hsame, haddr, hsize, _⟩
      · obtain ⟨hdata, hused⟩ := ih hplaced.ready (hsize ▸ hroom.of_same hsame)
        rw [haddr] at hdata hused
        rw [if_pos hsame, Nat.zero_add]
        refine ⟨hdata, fun k hpos hk => ?_⟩
        obtain ⟨r, hr, heq⟩ := hused k hpos hk
        exact ⟨r, List.mem_cons_of_mem _ hr, heq⟩
      · obtain ⟨hdata, hused⟩ := ih hplaced.ready (hsize ▸ hroom.of_ne hsame)
        rw [haddr] at hdata hused
        rw [if_neg (ne_true_of_eq_false hsame)]
        constructor
        · refine hdata.trans ?_
          rw [Nat.add_mul, hbytes]
          omega
        · intro k hpos hk
          cases k with
          | zero => exact absurd hpos (Nat.lt_irrefl 0)
          | succ k =>
              -- the block right behind is that of the addition, the others are those of the rest
              rcases Nat.eq_zero_or_pos k with rfl | hpos'
              · refine ⟨_, List.mem_cons_self, haddr.trans ?_⟩
                rw [hbytes]
              · obtain ⟨r, hr, heq⟩ := hused k hpos' (by omega)
                refine ⟨r, List.mem_cons_of_mem _ hr, heq.trans ?_⟩
                rw [hbytes]
                omega

theorem start_blocks (data : Nat) {list : List PrimRef} (hne : list ≠ []) (hroom : Room b list) :
    (lastBuilder b (.start data) list).data = data + numGeometries b list * nodeBytes ∧
      ∀ k < numGeometries b list, ∃ r ∈ addProcedurals b (.start data) list, r.1.curAddr =
        data + k * nodeBytes := by
  cases list with
  | nil => exact absurd rfl hne
  | cons prim list =>
      obtain ⟨hplaced, haddr, _, hsize⟩ := start_placed b data prim
      obtain ⟨hdata, hused⟩ := hplaced.ready.blocks list (hsize ▸ hroom)
      rw [haddr] at hdata hused
      refine ⟨hdata, fun k hk => ?_⟩
      rcases Nat.eq_zero_or_pos k with rfl | hpos
      · refine ⟨_, List.mem_cons_self, haddr.trans ?_⟩
        rw [Nat.zero_mul, Nat.add_zero]
      · obtain ⟨r, hr, heq⟩ := hused k hpos hk
        exact ⟨r, List.mem_cons_of_mem _ hr, heq⟩

/-- Each block that is taken has a primitive in its first slot. -/
theorem Ready.heads {s : ProceduralLeafBuilder} {prev : PrimRef} (h : Ready b s prev)
    (list : List PrimRef) (hroom : RoomFor b s.currProcedural.numPrimitives prev list) :
    (((addProcedurals b s list).map Prod.snd).map
        (fun range => if range.curPrim = 0 then 1 else 0)).sum + 1 = numGeometries b (prev :: list) := by
  induction list generalizing s prev with
  | nil => rfl
  | cons prim list ih =>
      obtain ⟨hplaced, hcases⟩ := h.add prim hroom.lt
      rw [addProcedurals, List.map_cons, List.map_cons, List.sum_cons, numGeometries]
      rcases hcases with ⟨hsame, _, _, hsize, hrange⟩ | ⟨hsame, _, hsize, hrange⟩
      · rw [hrange, if_neg h.size_pos.ne', if_pos hsame, Nat.zero_add, Nat.zero_add]
        exact ih hplaced.ready (hsize ▸ hroom.of_same hsame)
      · rw [hrange, if_pos rfl, if_neg (ne_true_of_eq_false hsame), Nat.add_assoc]
        exact congrArg (1 + ·) (ih hplaced.ready (hsize ▸ hroom.of_ne hsame))

theorem start_heads (data : Nat) {list : List PrimRef} (hne : list ≠ []) (hroom : Room b list) :
    (((addProcedurals b (.start data) list).map Prod.snd).map
      (fun range => if range.curPrim = 0 then 1 else 0)).sum = numGeometries b list := by
  cases list with
  | nil => exact absurd rfl hne
  | cons prim list =>
      obtain ⟨hplaced, _, hrange, hsize⟩ := start_placed b data prim
      rw [addProcedurals, List.map_cons, List.map_cons, List.sum_cons, hrange, if_pos rfl, Nat.add_comm]
      exact hplaced.ready.heads list (hsize ▸ hroom)

/-- The blocks that are started are those that are allocated, and after each addition all primitives
added so far are in the slots that their ranges lead to. -/
theorem addProcedurals_placed (b : BuilderT) (data : Nat) (list : List PrimRef) (hne : list ≠ [])
    (hfit : RunsFit b list) :
    let added := addProcedurals b (.start data) list
    numGeometries b list = (geometryRuns b list).length ∧
      (lastBuilder b (.start data) list).data = data + numGeometries b list * nodeBytes ∧
      (∀ addr, (∃ r ∈ added, r.1.curAddr = addr) ↔
        ∃ k < numGeometries b list, addr = data + k * nodeBytes) ∧
      added.length = list.length ∧
      ∀ k ≤ list.length, ∀ m, Keeps m ((data, .procedural .empty) :: blockStores (added.take k)) →
        ∀ (j : Nat) (hj : j < list.length), j < k →
          HoldsAt b m (data + 64 * (((added.map Prod.snd).take (j + 1)).map PrimRange.blockDelta).sum)
            ((added.map Prod.snd).getD j ⟨0, 0⟩).curPrim list[j] := by
  intro added
  obtain ⟨hdata, hused⟩ := start_blocks data hne hfit.room
  refine ⟨?_, hdata, fun addr => ⟨?_, ?_⟩, length_addProcedurals _ _, ?_⟩
  · cases list with
    | nil => exact absurd rfl hne
    | cons prim list => exact numGeometries_eq prim list
  · rintro ⟨r, hr, rfl⟩
    exact (start_inside data list hfit.room r hr).exists_block
  · rintro ⟨k, hk, rfl⟩
    exact hused k hk
  · intro k hk m hkeeps j hj hjk
    rw [take_addProcedurals] at hkeeps
    obtain ⟨hlength, hget⟩ :=
      allPlaced_get (start_allPlaced data (list.take k) (hfit.room.take k) hkeeps)
    have hjtake : j < (list.take k).length := by
      rw [List.length_take]
      omega
    obtain ⟨_, _, hholds⟩ := hget j hjtake
    -- the ranges of a prefix are a prefix of the ranges
    have hranges : (addProcedurals b (.start data) (list.take k)).map Prod.snd =
        (added.map Prod.snd).take k := by
      rw [← take_addProcedurals, List.map_take]
    have hgetD : ((added.map Prod.snd).take k).getD j ⟨0, 0⟩ = (added.map Prod.snd).getD j ⟨0, 0⟩ := by
      rw [List.getD_eq_getElem?_getD, List.getD_eq_getElem?_getD, List.getElem?_take_of_lt hjk]
    rw [hranges, List.take_take, Nat.min_eq_left hjk, hgetD, List.getElem_take] at hholds
    exact hholds

def mixedPrims : List PrimRef :=
  [⟨.pure (0, 0, 0), 0, 0⟩, ⟨.pure (0, 0, 0), 0, 1⟩, ⟨.pure (0, 0, 0), 1, 0⟩, ⟨.pure (0, 0, 0), 0, 2⟩]

theorem addProcedurals_placed_mixed :
    numGeometries (.point .procedural) mixedPrims = 3 ∧
      (lastBuilder (.point .procedural) (.start 128) mixedPrims).data = 320 ∧
      ∀ m, Keeps m ((128, .procedural .empty) ::
          blockStores ((addProcedurals (.point .procedural) (.start 128) mixedPrims).take 4)) →
        HoldsAt (.point .procedural) m 256 0 ⟨.pure (0, 0, 0), 0, 2⟩ := by
  have hnil : mixedPrims ≠ [] := List.cons_ne_nil _ _
  have hfit : RunsFit (.point .procedural) mixedPrims := runsFit_of_length (by decide)
  obtain ⟨_, hdata, _, _, hplaced⟩ := addProcedurals_placed (.point .procedural) 128 mixedPrims hnil hfit
  refine ⟨rfl, hdata, fun m hm => ?_⟩
  exact hplaced 4 le_rfl m hm 3 (by decide) (by decide)

end ProceduralLeafBuilder

end RTBuild
