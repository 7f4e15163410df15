import RTBuild.Splits

namespace RTBuild.Children

open Library.Segment RTBuild.Splits Settings

variable (getType : Fin maxGeometries → PrimType) (h : Heuristic)

def internalChildren (performTypeSplit : Bool) (prims : Nat → PrimRef) (curRecord : BuildRecord) :
    (Nat → PrimRef) × List BuildRecord :=
  let (prims, children) :=
    if performTypeSplit then
      splitUntilFull findChildWithNonEqualTypes (typeSplit getType curRecord.depth)
        (bvhWidth - 1) prims [curRecord]
    else (prims, [curRecord])
  let (prims, children) :=
    splitUntilFull (findChildWithLargestArea h (leafSize curRecord.type))
      (sahSplit h curRecord.depth sahBlockSize) (bvhWidth - children.length) prims children
  (prims, h.sortBySize children)

def largeLeafChildren (prims : Nat → PrimRef) (curRecord : BuildRecord) :
    (Nat → PrimRef) × List BuildRecord :=
  splitUntilFull (findChildWithMostPrimitives (leafSize curRecord.type)) (fallbackSplit curRecord.depth)
    (bvhWidth - 1) prims [curRecord]

def singleChildren (prims : Nat → PrimRef) (curRecord : BuildRecord) : List BuildRecord :=
  curRecord.indices.map (fun j => ⟨curRecord.depth + 1, ⟨.ofList [prims j], j, j + 1⟩, curRecord.type⟩)

/-- The splits of createFatLeaf, which start again in the middle when they leave
a child with more than three primitives. -/
def fatLeafChildren (prims : Nat → PrimRef) (curRecord : BuildRecord) :
    (Nat → PrimRef) × List BuildRecord :=
  let (prims, children) :=
    if curRecord.size ≤ bvhWidth then (prims, singleChildren prims curRecord)
    else
      let (prims, children) :=
        splitUntilFull (findChildWithMostPrimitives 1) (sahSplit h curRecord.depth 1)
        (bvhWidth - 1) prims [curRecord]
      match (findChildWithMostPrimitives 1 children).bind (fun bestChild => children[bestChild]?) with
      | none => (prims, children)
      | some best =>
          if 3 < best.size then
            splitUntilFull (findChildWithMostPrimitives 1) (fallbackSplit curRecord.depth)
              (bvhWidth - 1) prims [curRecord]
          else (prims, children)
  (prims, h.sortByArea children)

variable {getType h} {prims : Nat → PrimRef} {r : BuildRecord}

section loops

variable (find : List BuildRecord → Option Nat) (split : (Nat → PrimRef) → BuildRecord → Split)
  (room : Nat)

theorem forall_splitUntilFull {Q : BuildRecord → Prop} {children : List BuildRecord}
    (hsplit : ∀ prims b, Q b → Q (split prims b).left ∧ Q (split prims b).right)
    (hall : ∀ c ∈ children, Q c) :
    ∀ c ∈ (splitUntilFull find split room prims children).2, Q c := by
  refine splitUntilFull_induct find split (P := fun _ children => ∀ c ∈ children, Q c) ?_ room hall
  intro prims before b after hall _ c hc
  have hb := hsplit prims b (hall b (by simp))
  simp only [List.mem_append, List.mem_cons, List.not_mem_nil, or_false] at hc
  rcases hc with (hc | rfl | hc) | rfl
  · exact hall c (by simp [hc])
  · exact hb.1
  · exact hall c (by simp [hc])
  · exact hb.2

/-- The depth grows by one, unless the record itself stays the only child. -/
theorem depth_splitUntilFull (prims : Nat → PrimRef) {depth : Nat} {children : List BuildRecord}
    (hsplit : ∀ prims b, (split prims b).left.depth = depth ∧ (split prims b).right.depth = depth)
    (hall : children = [r] ∨ ∀ c ∈ children, c.depth = depth) :
    (splitUntilFull find split room prims children).2 = [r] ∨
      ∀ c ∈ (splitUntilFull find split room prims children).2, c.depth = depth := by
  refine splitUntilFull_induct find split
    (P := fun _ children => children = [r] ∨ ∀ c ∈ children, c.depth = depth) ?_ room hall
  intro prims before b after hall _
  have hb := hsplit prims b
  refine Or.inr (fun c hc => ?_)
  have hother : ∀ c ∈ before ++ after, c.depth = depth := by
    intro c hc
    rcases hall with hsingle | hall
    · rw [List.append_eq_cons_iff] at hsingle
      rcases hsingle with ⟨rfl, hafter⟩ | ⟨_, _, hafter⟩
      · obtain ⟨_, rfl⟩ := List.cons.inj hafter
        exact absurd hc List.not_mem_nil
      · exact absurd hafter (by simp)
    · refine hall c ?_
      rcases List.mem_append.1 hc with hc | hc <;> simp [hc]
  simp only [List.mem_append, List.mem_cons, List.not_mem_nil, or_false] at hc
  rcases hc with (hc | rfl | hc) | rfl
  · exact hother c (List.mem_append_left _ hc)
  · exact hb.1
  · exact hother c (List.mem_append_right _ hc)
  · exact hb.2

variable {find split}

/-- The loops that split children above a threshold keep the division of the range. -/
theorem cover_splitUntilFull {leafThreshold : Nat} (hfind : Picks leafThreshold find)
    (hpos : 0 < leafThreshold)
    (hsplit : ∀ prims b, b.Describes getType prims → 1 < b.size →
      Split.Good getType b prims (split prims b))
    {prims₀ : Nat → PrimRef} {children : List BuildRecord}
    (hcover : Cover getType r prims₀ prims children) :
    Cover getType r prims₀ (splitUntilFull find split room prims children).1
      (splitUntilFull find split room prims children).2 := by
  refine splitUntilFull_induct find split
    (P := fun prims children => Cover getType r prims₀ prims children) ?_ room hcover
  intro prims before b after hcover hsome
  obtain ⟨child, hchild, hsize⟩ := hfind.some_iff _ _ hsome
  obtain rfl : b = child := by simpa using hchild
  exact hcover.split (hsplit prims b (hcover.describes b (by simp)) (by omega))

end loops

structure Chosen (getType : Fin maxGeometries → PrimType) (r : BuildRecord) (leafThreshold : Nat)
    (prims : Nat → PrimRef) (result : (Nat → PrimRef) × List BuildRecord) : Prop where
  cover : Cover getType r prims result.1 result.2
  length_le : result.2.length ≤ bvhWidth
  stop : result.2.length = bvhWidth ∨ ∀ c ∈ result.2, c.size ≤ leafThreshold
  depth : result.2 = [r] ∨ ∀ c ∈ result.2, c.depth = r.depth + 1

namespace Chosen

variable {leafThreshold : Nat} {result : (Nat → PrimRef) × List BuildRecord}

theorem of_loop {find : List BuildRecord → Option Nat}
    {split : (Nat → PrimRef) → BuildRecord → Split} (hfind : Picks leafThreshold find)
    (hpos : 0 < leafThreshold)
    (hsplit : ∀ prims b, b.Describes getType prims → 1 < b.size →
      Split.Good getType b prims (split prims b))
    (hdepth : ∀ prims b, (split prims b).left.depth = r.depth + 1 ∧
      (split prims b).right.depth = r.depth + 1)
    {prims' : Nat → PrimRef} {children : List BuildRecord}
    (hcover : Cover getType r prims prims' children) (hlength : children.length ≤ bvhWidth)
    (hchildren : children = [r] ∨ ∀ c ∈ children, c.depth = r.depth + 1) :
    Chosen getType r leafThreshold prims
      (splitUntilFull find split (bvhWidth - children.length) prims' children) := by
  have hroom : children.length + (bvhWidth - children.length) = bvhWidth := by omega
  have hcover' := cover_splitUntilFull (bvhWidth - children.length) hfind hpos hsplit hcover
  have hdepth' := depth_splitUntilFull find split (bvhWidth - children.length) prims' hdepth hchildren
  have hstop :=
    splitUntilFull_stop find split hfind.lt_length (bvhWidth - children.length) prims' children
  rw [hroom] at hstop
  rcases hstop with hfull | ⟨hle, hnone⟩
  · exact ⟨hcover', hfull.le, Or.inl hfull, hdepth'⟩
  · exact ⟨hcover', hle, Or.inr (hfind.none_iff _ hnone), hdepth'⟩

theorem perm (hchosen : Chosen getType r leafThreshold prims result) {children : List BuildRecord}
    (hperm : children.Perm result.2) : Chosen getType r leafThreshold prims (result.1, children) where
  cover := hchosen.cover.perm hperm
  length_le := hperm.length_eq ▸ hchosen.length_le
  stop := hchosen.stop.imp hperm.length_eq.trans (fun hsmall c hc => hsmall c (hperm.mem_iff.1 hc))
  depth := by
    refine hchosen.depth.imp (fun hsingle => ?_) (fun hall c hc => hall c (hperm.mem_iff.1 hc))
    exact List.perm_singleton.1 (hsingle ▸ hperm)

theorem depth_eq (hchosen : Chosen getType r leafThreshold prims result)
    (hsize : leafThreshold < r.size) : ∀ c ∈ result.2, c.depth = r.depth + 1 := by
  rcases hchosen.depth with hsingle | hall
  · rcases hchosen.stop with hfull | hsmall
    · rw [hsingle] at hfull
      cases hfull
    · have := hsmall r (by simp [hsingle])
      omega
  · exact hall

end Chosen

theorem leafSize_pos (ty : Option PrimType) : 0 < leafSize ty := by
  rcases ty with _ | ty
  · decide
  · cases ty <;> decide

theorem largeLeafChildren_chosen (hr : r.Describes getType prims) :
    Chosen getType r (leafSize r.type) prims (largeLeafChildren prims r) :=
  .of_loop (findChildWithMostPrimitives_picks _) (leafSize_pos _)
    (fun _ _ hb hsize => fallbackSplit_good hb hsize _) (fun _ _ => ⟨rfl, rfl⟩) (.refl hr)
      (show 1 ≤ 6 by decide) (Or.inl rfl)

theorem largeLeafChildren_type : ∀ c ∈ (largeLeafChildren prims r).2, c.type = r.type :=
  forall_splitUntilFull (Q := fun c => c.type = r.type) _ _ _ (fun _ _ hb => ⟨hb, hb⟩)
    (fun _ hc => congrArg BuildRecord.type (List.mem_singleton.1 hc))

def typeChildren (getType : Fin maxGeometries → PrimType) (prims : Nat → PrimRef) (r : BuildRecord) :
    (Nat → PrimRef) × List BuildRecord :=
  splitUntilFull findChildWithNonEqualTypes (typeSplit getType r.depth) (bvhWidth - 1) prims [r]

theorem typeChildren_cover (hr : r.Describes getType prims)
    (hmixed : r.type = none → Mixed getType prims r) :
    Cover getType r prims (typeChildren getType prims r).1 (typeChildren getType prims r).2 := by
  refine (splitUntilFull_induct findChildWithNonEqualTypes (typeSplit getType r.depth)
    (P := fun prims' children => Cover getType r prims prims' children ∧
      ∀ child ∈ children, child.type = none → Mixed getType prims' child) ?_ (bvhWidth - 1)
        ⟨.refl hr, ?_⟩).1
  · rintro prims' before b after ⟨hcover, hall⟩ hsome
    obtain ⟨child, hchild, htype⟩ := findChildWithNonEqualTypes_some hsome
    obtain rfl : b = child := by simpa using hchild
    obtain ⟨hgood, hright⟩ :=
      typeSplit_good (hcover.describes b (by simp)) (hall b (by simp) htype) r.depth
    have hother : ∀ c ∈ before ++ after, c.type = none →
        Mixed getType (typeSplit getType r.depth prims' b).prims c := by
      intro c hc hnone
      have hmixed := hall c (by rcases List.mem_append.1 hc with hc | hc <;> simp [hc]) hnone
      rw [Mixed, ← hcover.list_eq hgood hc] at hmixed
      exact hmixed
    refine ⟨hcover.split hgood, fun c hc hnone => ?_⟩
    simp only [List.mem_append, List.mem_cons, List.not_mem_nil, or_false] at hc
    rcases hc with (hc | rfl | hc) | rfl
    · exact hother c (List.mem_append_left _ hc) hnone
    · cases hnone
    · exact hother c (List.mem_append_right _ hc) hnone
    · exact hright hnone
  · intro child hchild
    rw [List.mem_singleton.1 hchild]
    exact hmixed

theorem typeChildren_depth (hnone : r.type = none) :
    ∀ c ∈ (typeChildren getType prims r).2, c.depth = r.depth + 1 := by
  have hfind : findChildWithNonEqualTypes [r] = some 0 := by
    simp [findChildWithNonEqualTypes, BuildRecord.equalType, hnone]
  have hfirst : typeChildren getType prims r =
      splitUntilFull findChildWithNonEqualTypes (typeSplit getType r.depth) 4
      (typeSplit getType r.depth prims r).prims
      [(typeSplit getType r.depth prims r).left, (typeSplit getType r.depth prims r).right] := by
    have hroom : bvhWidth - 1 = 4 + 1 := rfl
    rw [typeChildren, hroom, splitUntilFull, hfind]
    rfl
  rw [hfirst]
  refine forall_splitUntilFull (Q := fun c => c.depth = r.depth + 1) _ _ _ (fun _ _ _ => ⟨rfl, rfl⟩)
    (fun c hc => ?_)
  rcases List.mem_cons.1 hc with rfl | hc
  · rfl
  · rw [List.mem_singleton.1 hc]
    rfl

variable (getType prims r) in
theorem typeChildren_stop :
    (typeChildren getType prims r).2.length = bvhWidth ∨
      ((typeChildren getType prims r).2.length ≤ bvhWidth ∧
        findChildWithNonEqualTypes (typeChildren getType prims r).2 = none) := by
  have hvalid : ∀ children i, findChildWithNonEqualTypes children = some i → i < children.length := by
    intro children i hi
    obtain ⟨child, hchild, _⟩ := findChildWithNonEqualTypes_some hi
    exact (List.getElem?_eq_some_iff.1 hchild).1
  exact splitUntilFull_stop _ (typeSplit getType r.depth) hvalid (bvhWidth - 1) prims [r]

theorem typeChildren_length_le : (typeChildren getType prims r).2.length ≤ bvhWidth := by
  rcases typeChildren_stop getType prims r with hfull | ⟨hle, _⟩
  · exact hfull.le
  · exact hle

theorem typeSplit_right (hr : r.Describes getType prims) (depth : Nat) :
    ∀ prim ∈ (typeSplit getType depth prims r).right.list (typeSplit getType depth prims r).prims,
      getType prim.geomID ≠ getType (prims r.begin_).geomID := by
  have hpart := Partition.serialPartitioning_spec
    (fun ref => decide (getType (prims r.begin_).geomID = getType ref.geomID))
      CentGeomBBox.extendCenter2 prims .empty
    .empty hr.nonempty.le
  intro prim hprim
  obtain ⟨i, hi, hi', rfl⟩ := mem_slice.1 hprim
  exact fun heq => of_decide_eq_false (hpart.on_right i hi hi') heq.symm

def Remaining (getType : Fin maxGeometries → PrimType) (prims : Nat → PrimRef)
    (children : List BuildRecord) : Prop :=
  (∀ c ∈ children, c.type ≠ none) ∨
    ∃ before b after, ∃ gone : Finset PrimType, children = before ++ b :: after ∧
      (∀ c ∈ before ++ after, c.type ≠ none) ∧ gone.card + 1 = children.length ∧
        b.Describes getType prims ∧
      Mixed getType prims b ∧ ∀ prim ∈ b.list prims, getType prim.geomID ∉ gone

theorem Remaining.split {before after : List BuildRecord} {b : BuildRecord} {depth : Nat}
    (h : Remaining getType prims (before ++ b :: after)) (hnone : b.type = none) :
    Remaining getType (typeSplit getType depth prims b).prims
      (before ++ (typeSplit getType depth prims b).left :: after ++
        [(typeSplit getType depth prims b).right]) := by
  rcases h with htyped | ⟨before', b', after', gone, heq, htyped, hcard, hb, hmixed, hgone⟩
  · exact absurd hnone (htyped b (by simp))
  · have hb' : b = b' ∧ ∀ c ∈ before ++ after, c.type ≠ none := by
      have hmem : ∀ c ∈ before ++ b :: after, c.type = none → c = b' := by
        intro c hc hcnone
        rw [heq] at hc
        simp only [List.mem_append, List.mem_cons] at hc
        rcases hc with hc | rfl | hc
        · exact absurd hcnone (htyped c (List.mem_append_left _ hc))
        · rfl
        · exact absurd hcnone (htyped c (List.mem_append_right _ hc))
      obtain rfl := hmem b (by simp) hnone
      refine ⟨rfl, fun c hc hcnone => ?_⟩
      have hcount : ((before ++ b :: after).filter (fun c => c.type = none)).length =
          ((before' ++ b :: after').filter (fun c => c.type = none)).length := by rw [heq]
      have hnil : ∀ l : List BuildRecord, (∀ c ∈ l, c.type ≠ none) →
          l.filter (fun c => c.type = none) = [] :=
        fun l hl => List.filter_eq_nil_iff.2 (fun c hc => by simpa using hl c hc)
      have hfilter : (before ++ after).filter (fun c => c.type = none) = [] := by
        rw [List.filter_append, List.filter_cons_of_pos (by simpa using hnone), List.filter_append,
          List.filter_cons_of_pos (by simpa using hnone),
          hnil before' (fun c hc => htyped c (List.mem_append_left _ hc)),
          hnil after' (fun c hc => htyped c (List.mem_append_right _ hc))] at hcount
        simp only [List.length_append, List.length_cons, List.length_nil] at hcount
        rw [List.filter_append]
        exact List.eq_nil_of_length_eq_zero (by rw [List.length_append]; omega)
      exact List.filter_eq_nil_iff.1 hfilter c hc (by simpa using hcnone)
    obtain ⟨rfl, hother⟩ := hb'
    obtain ⟨hgood, hright⟩ := typeSplit_good hb hmixed depth
    have hnew := typeSplit_right hb depth
    have hfirst : getType (prims b.begin_).geomID ∉ gone :=
      hgone _ (mem_slice.2 ⟨_, le_rfl, hb.nonempty, rfl⟩)
    cases htype : (typeSplit getType depth prims b).right.type with
    | some ty =>
        refine Or.inl (fun c hc => ?_)
        simp only [List.mem_append, List.mem_cons, List.not_mem_nil, or_false] at hc
        rcases hc with (hc | rfl | hc) | rfl
        · exact hother c (List.mem_append_left _ hc)
        · simp [typeSplit]
        · exact hother c (List.mem_append_right _ hc)
        · simp [htype]
    | none =>
        refine Or.inr ⟨before ++ (typeSplit getType depth prims b).left :: after, _, [],
          insert (getType (prims b.begin_).geomID) gone, rfl, ?_, ?_, hgood.right, hright htype, ?_⟩
        · intro c hc
          simp only [List.append_nil, List.mem_append, List.mem_cons] at hc
          rcases hc with hc | rfl | hc
          · exact hother c (List.mem_append_left _ hc)
          · simp [typeSplit]
          · exact hother c (List.mem_append_right _ hc)
        · rw [Finset.card_insert_of_notMem hfirst]
          simp only [List.length_append, List.length_cons, List.length_nil] at hcard ⊢
          omega
        · intro prim hprim hmem
          rcases Finset.mem_insert.1 hmem with heq | hmem
          · exact hnew prim hprim heq
          · obtain ⟨i, hi, hi', rfl⟩ := mem_slice.1 hprim
            have hall := hgood.rearranges.forall_mem (P := fun prim => getType prim.geomID ∉ gone)
              (fun i hi hi' => hgone _ (mem_slice.2 ⟨i, hi, hi', rfl⟩))
            have hleft := hgood.left.nonempty
            have hmeet := hgood.meet
            have hlbegin := hgood.lbegin
            have hrend := hgood.rend
            exact hall i (by omega) (by omega) hmem

/-- There are fewer types than children, so the type splits come to an end. -/
theorem typeChildren_typed (hr : r.Describes getType prims) (hmixed : Mixed getType prims r) :
    ∀ c ∈ (typeChildren getType prims r).2, c.type ≠ none := by
  have hremaining : Remaining getType (typeChildren getType prims r).1
      (typeChildren getType prims r).2 := by
    refine splitUntilFull_induct findChildWithNonEqualTypes (typeSplit getType r.depth)
      (P := fun prims children => Remaining getType prims children) ?_ (bvhWidth - 1) ?_
    · intro prims before b after h hsome
      obtain ⟨child, hchild, htype⟩ := findChildWithNonEqualTypes_some hsome
      obtain rfl : b = child := by simpa using hchild
      exact h.split htype
    · exact Or.inr ⟨[], r, [], ∅, rfl, fun c hc => absurd hc List.not_mem_nil, rfl, hr, hmixed,
        fun _ _ => by simp⟩
  rcases hremaining with htyped
    | ⟨before, b, after, gone, heq, htyped, hcard, hb, ⟨prim, hprim, prim', hprim', hne⟩, hgone⟩
  · exact htyped
  · have hfour : (insert (getType prim.geomID) (insert (getType prim'.geomID) gone)).card ≤ 4 :=
      Finset.card_le_univ (insert (getType prim.geomID) (insert (getType prim'.geomID) gone))
    rw [Finset.card_insert_of_notMem (by simpa using ⟨hne, hgone prim hprim⟩),
      Finset.card_insert_of_notMem (hgone prim' hprim')] at hfour
    rcases typeChildren_stop getType prims r with hfull | ⟨_, hnone⟩
    · have hwidth : bvhWidth = 6 := rfl
      omega
    · intro c hc hcnone
      have hall := List.findIdx?_eq_none_iff.1 hnone c hc
      rw [BuildRecord.equalType, hcnone] at hall
      exact Bool.noConfusion hall

theorem internalChildren_chosen {performTypeSplit : Bool} (hr : r.Describes getType prims)
    (hmixed : performTypeSplit = true → r.type = none ∧ Mixed getType prims r) :
    Chosen getType r (leafSize r.type) prims (internalChildren getType h performTypeSplit prims r) := by
  have hloop : ∀ {prims' : Nat → PrimRef} {children : List BuildRecord},
      Cover getType r prims prims' children → children.length ≤ bvhWidth →
      (children = [r] ∨ ∀ c ∈ children, c.depth = r.depth + 1) →
      Chosen getType r (leafSize r.type) prims
        (splitUntilFull (findChildWithLargestArea h (leafSize r.type))
        (sahSplit h r.depth sahBlockSize) (bvhWidth - children.length) prims' children) :=
    .of_loop (findChildWithLargestArea_picks _) (leafSize_pos _)
      (fun _ _ hb hsize => sahSplit_good hb hsize _ _) (fun _ _ => ⟨rfl, rfl⟩)
  cases performTypeSplit with
  | false => exact (hloop (.refl hr) (show 1 ≤ 6 by decide) (Or.inl rfl)).perm (h.sortBySize_perm _)
  | true =>
      obtain ⟨hnone, hmixed⟩ := hmixed rfl
      exact (hloop (typeChildren_cover hr (fun _ => hmixed)) typeChildren_length_le
        (Or.inr (typeChildren_depth hnone))).perm (h.sortBySize_perm _)

theorem internalChildren_type : ∀ c ∈ (internalChildren getType h false prims r).2, c.type = r.type := by
  intro c hc
  exact forall_splitUntilFull (Q := fun c => c.type = r.type)
    (findChildWithLargestArea h (leafSize r.type))
    (sahSplit h r.depth sahBlockSize) (bvhWidth - 1) (fun _ _ hb => ⟨hb, hb⟩)
    (fun _ hc => congrArg BuildRecord.type (List.mem_singleton.1 hc)) c
      ((h.sortBySize_perm _).mem_iff.1 hc)

/-- With a type split the record is not its own child. -/
theorem internalChildren_depth (hnone : r.type = none) :
    ∀ c ∈ (internalChildren getType h true prims r).2, c.depth = r.depth + 1 := by
  intro c hc
  exact forall_splitUntilFull (Q := fun c => c.depth = r.depth + 1)
    (findChildWithLargestArea h (leafSize r.type))
    (sahSplit h r.depth sahBlockSize) (bvhWidth - (typeChildren getType prims r).2.length)
    (fun _ _ _ => ⟨rfl, rfl⟩) (typeChildren_depth hnone) c ((h.sortBySize_perm _).mem_iff.1 hc)

/-- A type split leaves no child without a type. -/
theorem internalChildren_typed (hr : r.Describes getType prims) (hmixed : Mixed getType prims r) :
    ∀ c ∈ (internalChildren getType h true prims r).2, c.type ≠ none := by
  intro c hc
  exact forall_splitUntilFull (Q := fun c => c.type ≠ none)
    (findChildWithLargestArea h (leafSize r.type))
    (sahSplit h r.depth sahBlockSize) (bvhWidth - (typeChildren getType prims r).2.length)
    (fun _ _ hb => ⟨hb, hb⟩) (typeChildren_typed hr hmixed) c ((h.sortBySize_perm _).mem_iff.1 hc)

def Halved (n bound : Nat) (children : List BuildRecord) : Prop :=
  (∀ c ∈ children, c.size ≤ bound) ∨
    (children.length = 1 ∧ ∀ c ∈ children, c.size ≤ n) ∨
    (children.length = 2 ∧ ∀ c ∈ children, c.size ≤ (n + 1) / 2) ∨
    (children.length = 3 ∧ (∀ c ∈ children, c.size ≤ (n + 1) / 2) ∧
      (children.filter (fun c => bound < c.size)).length ≤ 1)

theorem fallbackSplit_size (depth : Nat) (prims : Nat → PrimRef) (b : BuildRecord) :
    (fallbackSplit depth prims b).left.size ≤ (b.size + 1) / 2 ∧
      (fallbackSplit depth prims b).right.size ≤ (b.size + 1) / 2 := by
  have hleft : (fallbackSplit depth prims b).left.size = (b.begin_ + b.end_) / 2 - b.begin_ := rfl
  have hright : (fallbackSplit depth prims b).right.size = b.end_ - (b.begin_ + b.end_) / 2 := rfl
  have hsize : b.size = b.end_ - b.begin_ := rfl
  omega

theorem Halved.split {n bound depth : Nat} {prims : Nat → PrimRef} {before after : List BuildRecord}
    {b : BuildRecord} (hbound : (n + 3) / 4 ≤ bound)
    (hlargest : ∀ c ∈ before ++ b :: after, c.size ≤ b.size)
    (h : Halved n bound (before ++ b :: after)) :
    Halved n bound
      (before ++ (fallbackSplit depth prims b).left :: after ++
      [(fallbackSplit depth prims b).right]) := by
  obtain ⟨hleft, hright⟩ := fallbackSplit_size depth prims b
  have hall : ∀ m, (∀ c ∈ before ++ after, c.size ≤ m) → (b.size + 1) / 2 ≤ m →
      ∀ c ∈ before ++ (fallbackSplit depth prims b).left :: after ++
        [(fallbackSplit depth prims b).right], c.size ≤ m := by
    intro m hm hb c hc
    simp only [List.mem_append, List.mem_cons, List.not_mem_nil, or_false] at hc
    rcases hc with (hc | rfl | hc) | rfl
    · exact hm c (List.mem_append_left _ hc)
    · omega
    · exact hm c (List.mem_append_right _ hc)
    · omega
  have hother : ∀ c ∈ before ++ after, c ∈ before ++ b :: after := by
    intro c hc
    rcases List.mem_append.1 hc with hc | hc <;> simp [hc]
  have hb : b ∈ before ++ b :: after := by simp
  by_cases hbig : b.size ≤ bound
  · refine Or.inl (hall bound (fun c hc => ?_) (by omega))
    exact (hlargest c (hother c hc)).trans hbig
  · rcases h with hsmall | ⟨hlength, hn⟩ | ⟨hlength, hn⟩ | ⟨hlength, hn, hcount⟩
    · exact absurd (hsmall b hb) hbig
    · -- the record itself is halved
      simp only [List.length_append, List.length_cons] at hlength
      have hbefore := List.eq_nil_of_length_eq_zero (show before.length = 0 by omega)
      have hafter := List.eq_nil_of_length_eq_zero (show after.length = 0 by omega)
      subst hbefore hafter
      refine Or.inr (Or.inr (Or.inl ⟨rfl, hall _ (fun c hc => absurd hc List.not_mem_nil) ?_⟩))
      have := hn b hb
      omega
    · -- one half is halved, and the other one is all that can be above the bound
      simp only [List.length_append, List.length_cons] at hlength
      have hbn := hn b hb
      refine Or.inr (Or.inr (Or.inr
        ⟨by simp; omega, hall _ (fun c hc => hn c (hother c hc)) (by omega), ?_⟩))
      have hnone : [(fallbackSplit depth prims b).right].filter (fun c => bound < c.size) = [] := by
        rw [List.filter_cons_of_neg (by simp; omega), List.filter_nil]
      rw [List.filter_append, List.filter_append, List.filter_cons_of_neg (by simp; omega), hnone,
        List.append_nil, ← List.filter_append]
      refine (List.length_filter_le _ _).trans ?_
      rw [List.length_append]
      omega
    · -- the other half is halved
      have hbn := hn b hb
      rw [List.filter_append, List.filter_cons_of_pos (by simpa using hbig), List.length_append,
        List.length_cons] at hcount
      have hbefore := List.eq_nil_of_length_eq_zero
        (show (before.filter (fun c => bound < c.size)).length = 0 by omega)
      have hafter := List.eq_nil_of_length_eq_zero
        (show (after.filter (fun c => bound < c.size)).length = 0 by omega)
      rw [List.filter_eq_nil_iff] at hbefore hafter
      refine Or.inl (hall bound (fun c hc => ?_) (by omega))
      rcases List.mem_append.1 hc with hc | hc
      · simpa using hbefore c hc
      · simpa using hafter c hc

/-- Halving the largest child until the node is full leaves no child larger than
the leaf size or a quarter of the record. -/
theorem fallbackSplits_size {leafThreshold : Nat} :
    ∀ c ∈ (splitUntilFull (findChildWithMostPrimitives leafThreshold) (fallbackSplit r.depth)
      (bvhWidth - 1) prims [r]).2, c.size ≤ max leafThreshold ((r.size + 3) / 4) := by
  have hhalved : Halved r.size (max leafThreshold ((r.size + 3) / 4))
      (splitUntilFull (findChildWithMostPrimitives leafThreshold) (fallbackSplit r.depth)
        (bvhWidth - 1) prims [r]).2 := by
    refine splitUntilFull_induct _ _
      (P := fun _ children => Halved r.size (max leafThreshold ((r.size + 3) / 4)) children)
      ?_ _ (Or.inr (Or.inl ⟨rfl, fun c hc => (congrArg BuildRecord.size (List.mem_singleton.1 hc)).le⟩))
    intro prims before b after h hsome
    obtain ⟨best, hbest, _, hlargest⟩ := findChildWithMostPrimitives_largest hsome
    obtain rfl : b = best := by simpa using hbest
    exact h.split (le_max_right _ _) hlargest
  have hstop := splitUntilFull_stop _ (fallbackSplit r.depth)
    (findChildWithMostPrimitives_picks leafThreshold).lt_length (bvhWidth - 1) prims [r]
  generalize splitUntilFull (findChildWithMostPrimitives leafThreshold) (fallbackSplit r.depth)
    (bvhWidth - 1) prims [r] = result at *
  intro c hc
  rcases hstop with hfull | ⟨_, hnone⟩
  · have hfull' : result.2.length = 6 := hfull
    rcases hhalved with hsmall | ⟨hlength, _⟩ | ⟨hlength, _⟩ | ⟨hlength, _⟩
    · exact hsmall c hc
    all_goals omega
  · have := (findChildWithMostPrimitives_picks leafThreshold).none_iff _ hnone c hc
    omega

theorem singleChildren_cover (hr : r.Describes getType prims) :
    Cover getType r prims prims (singleChildren prims r) := by
  refine ⟨.refl _ _ _, ?_, fun c hc => ?_⟩
  · rw [singleChildren, List.flatMap_map]
    have hsingle : ∀ j, BuildRecord.indices ⟨r.depth + 1, ⟨.ofList [prims j], j, j + 1⟩, r.type⟩ =
        [j] := by
      intro j
      simp [BuildRecord.indices, BuildRecord.size, BuildRecord.begin_, BuildRecord.end_]
    simp [hsingle]
  · obtain ⟨j, hj, rfl⟩ := List.mem_map.1 hc
    have hlist : BuildRecord.list ⟨r.depth + 1, ⟨.ofList [prims j], j, j + 1⟩, r.type⟩ prims =
        [prims j] := by
      simp [BuildRecord.list, BuildRecord.begin_, BuildRecord.end_, slice]
    have hmem := BuildRecord.mem_indices.1 hj
    refine ⟨Nat.lt_succ_self j, ?_, fun ty hty prim hprim => ?_⟩
    · rw [hlist]
      exact CentGeomBBox.geomBounds_ofList _
    · rw [hlist, List.mem_singleton] at hprim
      exact hr.type_eq ty hty prim (mem_slice.2 ⟨j, hmem.1, hmem.2, hprim.symm⟩)

structure FatChosen (getType : Fin maxGeometries → PrimType) (r : BuildRecord) (prims : Nat → PrimRef)
    (result : (Nat → PrimRef) × List BuildRecord) : Prop where
  cover : Cover getType r prims result.1 result.2
  length_le : result.2.length ≤ bvhWidth
  size_le : ∀ c ∈ result.2, c.size ≤ 3

theorem FatChosen.perm {result : (Nat → PrimRef) × List BuildRecord}
    (hchosen : FatChosen getType r prims result) {children : List BuildRecord}
    (hperm : children.Perm result.2) : FatChosen getType r prims (result.1, children) where
  cover := hchosen.cover.perm hperm
  length_le := hperm.length_eq ▸ hchosen.length_le
  size_le c hc := hchosen.size_le c (hperm.mem_iff.1 hc)

theorem fatLeafChildren_chosen (hr : r.Describes getType prims) (hsize : r.size ≤ 9) :
    FatChosen getType r prims (fatLeafChildren h prims r) := by
  rw [fatLeafChildren]
  by_cases hsmall : r.size ≤ bvhWidth
  · rw [if_pos hsmall]
    have hsingle : FatChosen getType r prims (prims, singleChildren prims r) := by
      refine ⟨singleChildren_cover hr, by simpa [singleChildren, BuildRecord.indices] using hsmall,
        fun c hc => ?_⟩
      obtain ⟨j, _, rfl⟩ := List.mem_map.1 hc
      simp [BuildRecord.size, BuildRecord.begin_, BuildRecord.end_]
    exact hsingle.perm (h.sortByArea_perm _)
  · rw [if_neg hsmall]
    have hpicks := findChildWithMostPrimitives_picks 1
    have hsah : Chosen getType r 1 prims
        (splitUntilFull (findChildWithMostPrimitives 1) (sahSplit h r.depth 1)
          (bvhWidth - 1) prims [r]) :=
      .of_loop hpicks Nat.one_pos (fun _ _ hb hsize => sahSplit_good hb hsize _ _)
        (fun _ _ => ⟨rfl, rfl⟩) (.refl hr) (show 1 ≤ 6 by decide) (Or.inl rfl)
    simp only
    generalize splitUntilFull (findChildWithMostPrimitives 1) (sahSplit h r.depth 1)
      (bvhWidth - 1) prims [r] = first at *
    cases hbest : findChildWithMostPrimitives 1 first.2 with
    | none =>
        refine FatChosen.perm ⟨hsah.cover, hsah.length_le, fun c hc => ?_⟩ (h.sortByArea_perm _)
        have := hpicks.none_iff _ hbest c hc
        omega
    | some bestChild =>
        obtain ⟨best, hget, _, hlargest⟩ := findChildWithMostPrimitives_largest hbest
        simp only [Option.bind_some, hget]
        by_cases hthree : 3 < best.size
        · -- the range is permuted already, which the halving does not mind
          have hr' : r.Describes getType first.1 := hr.of_perm hsah.cover.rearranges.slice_perm
          have hhalved : Chosen getType r 1 first.1
              (splitUntilFull (findChildWithMostPrimitives 1) (fallbackSplit r.depth)
                (bvhWidth - 1) first.1 [r]) :=
            .of_loop hpicks Nat.one_pos (fun _ _ hb hsize => fallbackSplit_good hb hsize _)
              (fun _ _ => ⟨rfl, rfl⟩) (.refl hr') (show 1 ≤ 6 by decide) (Or.inl rfl)
          rw [if_pos hthree]
          refine FatChosen.perm
            ⟨⟨hsah.cover.rearranges.trans hhalved.cover.rearranges, hhalved.cover.tiles,
            hhalved.cover.describes⟩, hhalved.length_le, fun c hc => ?_⟩ (h.sortByArea_perm _)
          have := fallbackSplits_size c hc
          omega
        · rw [if_neg hthree]
          refine FatChosen.perm ⟨hsah.cover, hsah.length_le, fun c hc => ?_⟩ (h.sortByArea_perm _)
          have := hlargest c hc
          omega

end RTBuild.Children
