import RTBuild.QuadLeaf
import RTBuild.Traversal

namespace RTBuild

def leafPtrBits : RtasFormat → Nat
  | .version1 => 42
  | .version2 => 58

variable {format : RtasFormat}

/-- A pointer to a leaf without its lowest six bits, which are zero. -/
def storedLeafPtr (format : RtasFormat) (ptr : BitVec 64) : BitVec (leafPtrBits format) :=
  (ptr >>> 6).setWidth _

def leafPtr (field : BitVec (leafPtrBits format)) : BitVec 64 := field.signExtend 64 * 64

structure LeafHit (format : RtasFormat) extends MemHit where
  leafType : NodeType
  primLeafPtr : BitVec (leafPtrBits format)
  instLeafPtr : BitVec (leafPtrBits format)

inductive CandidateType
  | triangle
  | procedural

abbrev GlobalMemory := BitVec 64 → Option Cell

section queries

variable (g : GlobalMemory) (hit : LeafHit format)

namespace LeafHit

def getPrimLeafPtr : BitVec 64 := leafPtr hit.primLeafPtr

def getInstanceLeafPtr : BitVec 64 := leafPtr hit.instLeafPtr

def primLeafDesc : Option PrimLeafDesc :=
  match g hit.getPrimLeafPtr with
  | some (.quad leaf) => some leaf.leafDesc
  | some (.procedural leaf) => some leaf.leafDesc
  | _ => none

def quadLeaf : Option QuadLeaf :=
  match g hit.getPrimLeafPtr with
  | some (.quad leaf) => some leaf
  | _ => none

def proceduralLeaf : Option ProceduralLeaf :=
  match g hit.getPrimLeafPtr with
  | some (.procedural leaf) => some leaf
  | _ => none

def instancePart0 : Option InstancePart0 :=
  match g hit.getInstanceLeafPtr with
  | some (.instancePart0 part) => some part
  | _ => none

def instancePart1 : Option InstancePart1 :=
  match g (hit.getInstanceLeafPtr + 64) with
  | some (.instancePart1 part) => some part
  | _ => none

end LeafHit

def getHitGeometryID : Option (Fin (2 ^ 29)) := (hit.primLeafDesc g).map PrimLeafDesc.geomIndex

def getHitProceduralPrimitiveID : Option (Fin (2 ^ 32)) :=
  (hit.proceduralLeaf g).bind (fun leaf =>
    if h : hit.primLeafIndex.val < 13 then some (leaf.primIndex ⟨hit.primLeafIndex, h⟩) else none)

def getHitPrimitiveID : Option (Fin (2 ^ 32)) :=
  if hit.leafType = .quad then
    (hit.quadLeaf g).map (fun leaf => getHitTrianglePrimitiveID leaf hit.toMemHit)
  else getHitProceduralPrimitiveID g hit

def getHitCandidate : CandidateType := if hit.leafType = .quad then .triangle else .procedural

def getHitInstanceID : Option (Fin (2 ^ 32)) :=
  if hit.getInstanceLeafPtr = 0 then some 0xFFFFFFFF
  else (hit.instancePart1 g).map InstancePart1.instanceIndex

def getHitInstanceUserID : Option (BitVec 32) :=
  if hit.getInstanceLeafPtr = 0 then some (-1)
  else (hit.instancePart1 g).map InstancePart1.instanceID

def getHitWorldToObject : Option AffineSpace3f :=
  if hit.getInstanceLeafPtr = 0 then some .one
  else do
    let part0 ← hit.instancePart0 g
    let part1 ← hit.instancePart1 g
    return ⟨⟨part0.world2objVx, part0.world2objVy, part0.world2objVz⟩, part1.world2objP⟩

def getHitObjectToWorld : Option AffineSpace3f :=
  if hit.getInstanceLeafPtr = 0 then some .one
  else do
    let part0 ← hit.instancePart0 g
    let part1 ← hit.instancePart1 g
    return ⟨⟨part1.obj2worldVx, part1.obj2worldVy, part1.obj2worldVz⟩, part0.obj2worldP⟩

structure HitReport where
  geomID : Fin (2 ^ 29)
  primID : Fin (2 ^ 32)
  vertices : Option (Vec3f × Vec3f × Vec3f)
  deriving DecidableEq

def hitReport : Option HitReport := do
  let geomID ← getHitGeometryID g hit
  let primID ← getHitPrimitiveID g hit
  match getHitCandidate hit with
  | .triangle =>
      let leaf ← hit.quadLeaf g
      return ⟨geomID, primID, some (getHitTriangleVertices leaf hit.toMemHit)⟩
  | .procedural => return ⟨geomID, primID, none⟩

end queries

structure Found where
  addr : Nat
  slot : Nat
  prim : LeafPrim

section visit

variable (m : Nat → Option Cell) (test : Vec3f × Vec3f → Bool) (rayMask : BitVec 8)

def visitQuads : Nat → Nat → Option (List Found)
  | 0, _ => none
  | fuel + 1, addr =>
      match m addr with
      | some (.quad leaf) =>
          if leaf.last then some [⟨addr, 0, leaf.prim⟩]
          else (visitQuads fuel (addr + nodeBytes)).map (⟨addr, 0, leaf.prim⟩ :: ·)
      | _ => none

def visitProcedurals : Nat → Nat → Nat → Option (List Found)
  | 0, _, _ => none
  | fuel + 1, addr, curPrim =>
      match m addr with
      | some (.procedural leaf) =>
          if h : curPrim < 13 then
            let found := ⟨addr, curPrim, .procedural leaf.leafDesc.geomIndex
              (leaf.primIndex ⟨curPrim, h⟩) leaf.leafDesc.geomMask⟩
            if leaf.isLast curPrim then some [found]
            else
              (if leaf.numPrimitives ≤ curPrim + 1 then visitProcedurals fuel (addr + nodeBytes) 0
              else visitProcedurals fuel addr (curPrim + 1)).map (found :: ·)
          else none
      | _ => none

/-- A traversal that keeps the leaves, to which its hits point. -/
def visit : Nat → NodeRef → Option (List Found)
  | 0, _ => none
  | fuel + 1, ref =>
      match ref.type with
      | .quad =>
          (visitQuads m fuel ref.node).map
            (List.filter (passes rayMask ∘ LeafPrim.geomMask ∘ Found.prim))
      | .procedural =>
          (visitProcedurals m fuel ref.node ref.curPrim).map
            (List.filter (passes rayMask ∘ LeafPrim.geomMask ∘ Found.prim))
      | .inst =>
          (decodeInstance m ref.node).map (fun prim =>
            [⟨ref.node, 0, prim⟩].filter (passes rayMask ∘ LeafPrim.geomMask ∘ Found.prim))
      | .internal =>
          match m ref.node with
          | some (.node node) =>
              if passes rayMask node.nodeMask then
                (sequence (fun i =>
                  if node.valid i && test (node.bounds i) then
                    (node.child ref.node i).bind (visit fuel)
                  else some [])).map (fun found => (List.finRange 6).flatMap found)
              else some []
          | _ => none
      | .invalid => none

/-- The hits with a primitive of a leaf, in an acceleration structure at an address. Those with a
quad leaf are with the triangles that are there. -/
def Found.hits (format : RtasFormat) (base : BitVec 64) (instLeafPtr : BitVec (leafPtrBits format))
    (found : Found) : List (LeafHit format) :=
  let primLeafPtr := storedLeafPtr format (base + BitVec.ofNat 64 found.addr)
  match found.prim, m found.addr with
  | .quad _ _ _, some (.quad leaf) =>
      ((List.finRange 2).filter (fun i => i.val < leaf.size)).map (fun i =>
        ⟨leaf.hit i, .quad, primLeafPtr, instLeafPtr⟩)
  | .procedural _ _ _, _ => [⟨⟨Fin.ofNat 16 found.slot, 0⟩, .procedural, primLeafPtr, instLeafPtr⟩]
  | _, _ => []

end visit

section visit

variable {m : Nat → Option Cell} {test : Vec3f × Vec3f → Bool} {rayMask : BitVec 8}

theorem map_visitQuads (m : Nat → Option Cell) (fuel addr : Nat) :
    (visitQuads m fuel addr).map (List.map Found.prim) = decodeQuads m fuel addr := by
  induction fuel generalizing addr with
  | zero => rfl
  | succ fuel ih =>
      rw [visitQuads, decodeQuads]
      cases m addr with
      | none => rfl
      | some cell =>
          cases cell with
          | quad leaf =>
              simp only
              split
              · rfl
              · rw [← ih, Option.map_map, Option.map_map]
                rfl
          | _ => rfl

theorem map_visitProcedurals (m : Nat → Option Cell) (fuel addr curPrim : Nat) :
    (visitProcedurals m fuel addr curPrim).map (List.map Found.prim) =
      decodeProcedurals m fuel addr curPrim := by
  induction fuel generalizing addr curPrim with
  | zero => rfl
  | succ fuel ih =>
      rw [visitProcedurals, decodeProcedurals]
      cases m addr with
      | none => rfl
      | some cell =>
          cases cell with
          | procedural leaf =>
              simp only
              split
              · split
                · rfl
                · rw [← ih, ← ih, ← apply_ite (Option.map (List.map Found.prim)), Option.map_map,
                    Option.map_map]
                  rfl
              · rfl
          | _ => rfl

theorem map_filter_prim (found : List Found) :
    (found.filter (passes rayMask ∘ LeafPrim.geomMask ∘ Found.prim)).map Found.prim =
      (found.map Found.prim).filter (passes rayMask ∘ LeafPrim.geomMask) := by
  rw [List.filter_map]
  rfl

/-- A traversal comes to the primitives that it is said to meet. -/
theorem map_visit (m : Nat → Option Cell) (test : Vec3f × Vec3f → Bool) (rayMask : BitVec 8) (fuel : Nat)
    (ref : NodeRef) :
    (visit m test rayMask fuel ref).map (List.map Found.prim) = traverse m test rayMask fuel ref := by
  induction fuel generalizing ref with
  | zero => rfl
  | succ fuel ih =>
      rw [visit, traverse]
      cases ref.type with
      | invalid => rfl
      | quad =>
          simp only [← map_visitQuads, Option.map_map]
          congr 1
          funext found
          exact map_filter_prim found
      | procedural =>
          simp only [← map_visitProcedurals, Option.map_map]
          congr 1
          funext found
          exact map_filter_prim found
      | inst =>
          simp only [Option.map_map]
          congr 1
          funext prim
          exact map_filter_prim [⟨ref.node, 0, prim⟩]
      | internal =>
          cases m ref.node with
          | none => rfl
          | some cell =>
              cases cell with
              | node node =>
                  simp only
                  split
                  · rw [Option.map_map]
                    have hbelow : ∀ i, (if node.valid i && test (node.bounds i) then
                        (node.child ref.node i).bind (traverse m test rayMask fuel) else some []) =
                        (if node.valid i && test (node.bounds i) then
                          (node.child ref.node i).bind (visit m test rayMask fuel)
                          else some []).map (List.map Found.prim) := by
                      intro i
                      split
                      · rw [Option.map_bind]
                        congr 1
                        funext ref'
                        exact (ih ref').symm
                      · rfl
                    simp only [hbelow, ← map_sequence, Option.map_map]
                    congr 1
                    funext found
                    exact List.map_flatMap
                  · rfl
              | _ => rfl

def Found.Holds (m : Nat → Option Cell) (found : Found) : Prop :=
  match found.prim with
  | .quad _ _ _ => ∃ leaf, m found.addr = some (.quad leaf) ∧ leaf.prim = found.prim
  | .procedural geomIndex primIndex _ => ∃ leaf, m found.addr = some (.procedural leaf) ∧
      leaf.leafDesc.geomIndex = geomIndex ∧
        ∃ h : found.slot < 13, leaf.primIndex ⟨found.slot, h⟩ = primIndex
  | .inst _ _ _ _ _ => ∃ part0 part1, m found.addr = some (.instancePart0 part0) ∧
      m (found.addr + nodeBytes) = some (.instancePart1 part1) ∧
        instancePrim part0 part1 = found.prim

theorem visitQuads_holds {fuel addr : Nat} {list : List Found} (h : visitQuads m fuel addr = some list) :
    ∀ found ∈ list, found.Holds m := by
  induction fuel generalizing addr list with
  | zero => cases h
  | succ fuel ih =>
      rw [visitQuads] at h
      cases hcell : m addr with
      | none => simp [hcell] at h
      | some cell =>
          cases cell with
          | quad leaf =>
              have hfirst : (⟨addr, 0, leaf.prim⟩ : Found).Holds m := ⟨leaf, hcell, rfl⟩
              simp only [hcell] at h
              split at h
              · cases h
                exact List.forall_mem_singleton.2 hfirst
              · obtain ⟨rest, hrest, rfl⟩ := Option.map_eq_some_iff.1 h
                exact List.forall_mem_cons.2 ⟨hfirst, ih hrest⟩
          | _ => simp [hcell] at h

theorem visitProcedurals_holds {fuel addr curPrim : Nat} {list : List Found}
    (h : visitProcedurals m fuel addr curPrim = some list) : ∀ found ∈ list, found.Holds m := by
  induction fuel generalizing addr curPrim list with
  | zero => cases h
  | succ fuel ih =>
      rw [visitProcedurals] at h
      cases hcell : m addr with
      | none => simp [hcell] at h
      | some cell =>
          cases cell with
          | procedural leaf =>
              simp only [hcell] at h
              split at h
              next hslot =>
                have hfirst : (⟨addr, curPrim, .procedural leaf.leafDesc.geomIndex
                    (leaf.primIndex ⟨curPrim, hslot⟩) leaf.leafDesc.geomMask⟩ : Found).Holds m :=
                  ⟨leaf, hcell, rfl, hslot, rfl⟩
                split at h
                · cases h
                  exact List.forall_mem_singleton.2 hfirst
                · obtain ⟨rest, hrest, rfl⟩ := Option.map_eq_some_iff.1 h
                  refine List.forall_mem_cons.2 ⟨hfirst, ?_⟩
                  split at hrest
                  · exact ih hrest
                  · exact ih hrest
              · cases h
          | _ => simp [hcell] at h

theorem decodeInstance_holds {addr : Nat} {prim : LeafPrim} (h : decodeInstance m addr = some prim) :
    (⟨addr, 0, prim⟩ : Found).Holds m := by
  rw [decodeInstance] at h
  split at h
  next part0 part1 h0 h1 =>
    cases h
    exact ⟨part0, part1, h0, h1, rfl⟩
  · cases h

theorem visit_holds {fuel : Nat} {ref : NodeRef} {list : List Found}
    (h : visit m test rayMask fuel ref = some list) : ∀ found ∈ list, found.Holds m := by
  induction fuel generalizing ref list with
  | zero => cases h
  | succ fuel ih =>
      rw [visit] at h
      cases htype : ref.type with
      | invalid =>
          rw [htype] at h
          cases h
      | quad =>
          rw [htype] at h
          obtain ⟨all, hall, rfl⟩ := Option.map_eq_some_iff.1 h
          exact fun found hfound => visitQuads_holds hall found (List.mem_filter.1 hfound).1
      | procedural =>
          rw [htype] at h
          obtain ⟨all, hall, rfl⟩ := Option.map_eq_some_iff.1 h
          exact fun found hfound => visitProcedurals_holds hall found (List.mem_filter.1 hfound).1
      | inst =>
          rw [htype] at h
          obtain ⟨prim, hprim, rfl⟩ := Option.map_eq_some_iff.1 h
          intro found hfound
          rw [List.mem_singleton.1 (List.mem_filter.1 hfound).1]
          exact decodeInstance_holds hprim
      | internal =>
          rw [htype] at h
          cases hcell : m ref.node with
          | none => simp [hcell] at h
          | some cell =>
              cases cell with
              | node node =>
                  simp only [hcell] at h
                  split at h
                  · obtain ⟨below, hbelow, rfl⟩ := Option.map_eq_some_iff.1 h
                    intro found hfound
                    obtain ⟨i, -, hi⟩ := List.mem_flatMap.1 hfound
                    have hchild := of_sequence_eq_some hbelow i
                    split at hchild
                    · obtain ⟨ref', -, href⟩ := Option.bind_eq_some_iff.1 hchild
                      exact ih href found hi
                    · rw [← Option.some.inj hchild] at hi
                      cases hi
                  · cases h
                    exact fun _ hfound => absurd hfound List.not_mem_nil
              | _ => simp [hcell] at h

end visit

structure Addressable (format : RtasFormat) (ptr : BitVec 64) : Prop where
  aligned : ptr.toNat % 64 = 0
  low : format = .version1 → ptr.toNat < 2 ^ 47

theorem leafPtr_storedLeafPtr {ptr : BitVec 64} (h : Addressable format ptr) :
    leafPtr (storedLeafPtr format ptr) = ptr := by
  obtain ⟨haligned, hlow⟩ := h
  have hlt := ptr.isLt
  have hshift : (ptr >>> 6).toNat = ptr.toNat / 64 := by
    rw [BitVec.toNat_ushiftRight, Nat.shiftRight_eq_div_pow]
  apply BitVec.eq_of_toNat_eq
  cases format with
  | version1 =>
      -- the sign bit of the field is that of the pointer, which is not set
      have hlow := hlow rfl
      have hmsb : (storedLeafPtr .version1 ptr).msb = false := by
        rw [BitVec.msb_eq_decide, storedLeafPtr, leafPtrBits, BitVec.toNat_setWidth, hshift]
        exact decide_eq_false (by omega)
      rw [leafPtr, BitVec.signExtend_eq_setWidth_of_msb_false hmsb, BitVec.toNat_mul,
        BitVec.toNat_setWidth, storedLeafPtr, leafPtrBits, BitVec.toNat_setWidth, hshift]
      change _ * 64 % 2 ^ 64 = _
      omega
  | version2 =>
      -- the copies of the sign bit are shifted out
      rw [leafPtr, BitVec.toNat_mul, BitVec.toNat_signExtend, BitVec.toNat_setWidth, storedLeafPtr,
        leafPtrBits, BitVec.toNat_setWidth, hshift]
      change _ * 64 % 2 ^ 64 = _
      split <;> omega

end RTBuild
