import RTBuild.Quadifier
import RTBuild.PrimRefGen

namespace RTBuild

inductive GeometryFlags
  | none
  | isOpaque
  deriving DecidableEq

def convertGeometryFlags (flags : BitVec 8) : GeometryFlags :=
  if flags.getLsbD 0 then .none else .isOpaque

namespace TrianglePairs

open Quadifier

/-- A triangle geometry. A vertex that isvalid refuses is none. -/
structure TriangleGeometry where
  triangleCount : Fin (2 ^ 32)
  getPrimitive : Nat → Indices
  vertexCount : Nat
  getVertex : Nat → Option Vec3f
  geometryFlags : BitVec 8
  geometryMask : BitVec 8

structure Triangle where
  indices : Indices
  p0 : Vec3f
  p1 : Vec3f
  p2 : Vec3f
  gflags : GeometryFlags
  gmask : BitVec 8
  deriving DecidableEq

def Triangle.invalid : Triangle := ⟨⟨0, 0, 0⟩, (0, 0, 0), (0, 0, 0), (0, 0, 0), .none, 0⟩

def Triangle.valid (tri : Triangle) : Bool := tri.gmask != 0

def getTriangle (geom : TriangleGeometry) (primID : Nat) : Triangle :=
  let tri := geom.getPrimitive primID
  if tri.x ≥ geom.vertexCount then .invalid
  else if tri.y ≥ geom.vertexCount then .invalid
  else if tri.z ≥ geom.vertexCount then .invalid
  else
    match geom.getVertex tri.x, geom.getVertex tri.y, geom.getVertex tri.z with
    | some p0, some p1, some p2 =>
        ⟨tri, p0, p1, p2, convertGeometryFlags geom.geometryFlags, geom.geometryMask⟩
    | _, _, _ => .invalid

def Triangle.bounds (tri : Triangle) : NonemptyInterval Vec3f :=
  .pure tri.p0 ⊔ .pure tri.p1 ⊔ .pure tri.p2

def trianglePairPrimRef (geom : TriangleGeometry) (quadification : Nat → Nat)
    (geomID : Fin maxGeometries) (j : Nat) : Option PrimRef :=
  let pair := quadification j
  if pair = paired then none
  else
    let tri0 := getTriangle geom j
    if !tri0.valid then none
    else if pair ≠ triangle then
      let tri1 := getTriangle geom (j + pair)
      if !tri1.valid then none
      else some ⟨tri0.bounds ⊔ tri1.bounds, geomID, Fin.ofNat _ j⟩
    else some ⟨tri0.bounds, geomID, Fin.ofNat _ j⟩

def createTrianglePairPrimRefArray (geom : TriangleGeometry) (quadification : Nat → Nat)
    (geomID : Fin maxGeometries) (r : Nat × Nat) (k : Nat) : List (PrimRef × Nat) × PrimInfo :=
  PrimRefGen.createPrimRefArray (trianglePairPrimRef geom quadification geomID) r.1 r.2 k

def ranges : Nat → List Nat → List (Nat × Nat)
  | _, [] => []
  | first, n :: lengths => (first, first + n) :: ranges (first + n) lengths

def quadify (geom : TriangleGeometry) : List (Nat × Nat) → (Nat → Nat) → Option (Nat → Nat)
  | [], quads => some quads
  | r :: order, quads => do
      let (_, quads) ← pairRange geom.getPrimitive r.1 r.2 quads
      quadify geom order quads

def Covers (quadification : Nat → Nat) (x : Nat) (prim : PrimRef) : Prop :=
  x = prim.primID ∨ x = prim.primID + quadification prim.primID

instance (quadification : Nat → Nat) (x : Nat) : DecidablePred (Covers quadification x) :=
  fun prim => inferInstanceAs (Decidable (x = prim.primID ∨ x = prim.primID + quadification prim.primID))

def producedPrimRefs (geom : TriangleGeometry) (quadification : Nat → Nat) (geomID : Fin maxGeometries)
    (base : Nat × Nat → Nat) (rs : List (Nat × Nat)) : List PrimRef :=
  rs.flatMap (fun r =>
    (createTrianglePairPrimRefArray geom quadification geomID r (base r)).1.map Prod.fst)

def CoversValidOnce (geom : TriangleGeometry) (geomID : Fin maxGeometries) (lengths : List Nat)
    (order : List (Nat × Nat)) (base : Nat × Nat → Nat) : Prop :=
  ∃ quads, quadify geom order (fun _ => 0) = some quads ∧
    ∀ x < geom.triangleCount.val,
      (producedPrimRefs geom quads geomID base (ranges 0 lengths)).countP (Covers quads x) =
        if (getTriangle geom x).valid then 1 else 0

/-- The triangles that the first pass pairs are both valid or both invalid. -/
def PairsAgree (geom : TriangleGeometry) (order : List (Nat × Nat)) : Prop :=
  ∀ quads, quadify geom order (fun _ => 0) = some quads → ∀ p < geom.triangleCount.val,
    quads p ≠ paired → ((getTriangle geom p).valid ↔ (getTriangle geom (p + quads p)).valid)

def Apart (r r' : Nat × Nat) : Prop := r.2 ≤ r'.1 ∨ r'.2 ≤ r.1

theorem mem_ranges {first : Nat} {lengths : List Nat} {r : Nat × Nat} (hr : r ∈ ranges first lengths) :
    first ≤ r.1 ∧ r.1 ≤ r.2 ∧ r.2 ≤ first + lengths.sum := by
  induction lengths generalizing first with
  | nil => exact absurd hr List.not_mem_nil
  | cons n lengths ih =>
      rw [List.sum_cons]
      rcases List.mem_cons.1 hr with rfl | hr
      · simp only
        omega
      · have h := ih hr
        omega

theorem ranges_apart (first : Nat) (lengths : List Nat) : (ranges first lengths).Pairwise Apart := by
  induction lengths generalizing first with
  | nil => exact List.Pairwise.nil
  | cons n lengths ih => exact List.Pairwise.cons (fun r hr => Or.inl (mem_ranges hr).1) (ih _)

theorem flatMap_ranges (first : Nat) (lengths : List Nat) :
    (ranges first lengths).flatMap (fun r => List.range' r.1 (r.2 - r.1)) =
      List.range' first lengths.sum := by
  induction lengths generalizing first with
  | nil => rfl
  | cons n lengths ih =>
      rw [ranges, List.flatMap_cons, ih, List.sum_cons, ← List.range'_append_1]
      simp

/-- The order of the ranges makes no difference, since each writes only its own entries. -/
theorem quadify_spec (geom : TriangleGeometry) {order : List (Nat × Nat)} (hapart : order.Pairwise Apart)
    (hle : ∀ r ∈ order, r.1 ≤ r.2) (quads0 : Nat → Nat) :
    ∃ quads, quadify geom order quads0 = some quads ∧
      (∀ r ∈ order, ∃ matching, Matched geom.getPrimitive r.1 r.2 matching quads) ∧
      ∀ i, (∀ r ∈ order, i < r.1 ∨ r.2 ≤ i) → quads i = quads0 i := by
  induction order generalizing quads0 with
  | nil => exact ⟨quads0, rfl, by simp, fun _ _ => rfl⟩
  | cons r order ih =>
      obtain ⟨hr, hrest⟩ := List.pairwise_cons.1 hapart
      obtain ⟨matching, quads1, hpair, hmatched, hframe1⟩ :=
        pairRange_spec geom.getPrimitive (hle r (List.mem_cons_self ..)) quads0
      obtain ⟨quads, hquadify, hall, hframe⟩ :=
        ih hrest (fun r' hr' => hle r' (List.mem_cons_of_mem r hr')) quads1
      refine ⟨quads, by rw [quadify, hpair]; exact hquadify, ?_, ?_⟩
      · intro r' hr'
        rcases List.mem_cons.1 hr' with rfl | hr'
        · refine ⟨matching, hmatched.congr fun i hfirst hlast => hframe i fun r'' hr'' => ?_⟩
          have hdisj := hr r'' hr''
          simp only [Apart] at hdisj
          omega
        · exact hall r' hr'
      · intro i hi
        rw [hframe i (fun r' hr' => hi r' (List.mem_cons_of_mem r hr'))]
        exact hframe1 i (hi r (List.mem_cons_self ..))

theorem ranges_matched {tri : Nat → Indices} {quads : Nat → Nat} {first : Nat} {lengths : List Nat}
    (h : ∀ r ∈ ranges first lengths, ∃ matching, Matched tri r.1 r.2 matching quads) :
    ∃ matching, Matched tri first (first + lengths.sum) matching quads := by
  induction lengths generalizing first with
  | nil =>
      exact ⟨[], by simp, by simp, by simp, by simp⟩
  | cons n lengths ih =>
      obtain ⟨m, hm⟩ := h _ (List.mem_cons_self ..)
      obtain ⟨m', hm'⟩ := ih (fun r hr => h r (List.mem_cons_of_mem _ hr))
      rw [List.sum_cons, ← Nat.add_assoc]
      exact ⟨m ++ m', hm.append hm' (Nat.le_add_right ..) (Nat.le_add_right ..)⟩

theorem quadify_ranges (geom : TriangleGeometry) {lengths : List Nat} {order : List (Nat × Nat)}
    (horder : order.Perm (ranges 0 lengths)) (quads0 : Nat → Nat) :
    ∃ quads matching, quadify geom order quads0 = some quads ∧
      Matched geom.getPrimitive 0 lengths.sum matching quads := by
  have hapart : order.Pairwise Apart :=
    (horder.pairwise_iff (fun h => Or.symm h)).2 (ranges_apart 0 lengths)
  have hle : ∀ r ∈ order, r.1 ≤ r.2 := fun r hr => (mem_ranges (horder.mem_iff.1 hr)).2.1
  obtain ⟨quads, hquadify, hall, -⟩ := quadify_spec geom hapart hle quads0
  obtain ⟨matching, hmatched⟩ := ranges_matched (fun r hr => hall r (horder.mem_iff.2 hr))
  rw [Nat.zero_add] at hmatched
  exact ⟨quads, matching, hquadify, hmatched⟩

theorem producedPrimRefs_eq (geom : TriangleGeometry) (quads : Nat → Nat) (geomID : Fin maxGeometries)
    (base : Nat × Nat → Nat) (lengths : List Nat) :
    producedPrimRefs geom quads geomID base (ranges 0 lengths) =
      (List.range' 0 lengths.sum).filterMap (trianglePairPrimRef geom quads geomID) := by
  rw [← flatMap_ranges, List.filterMap_flatMap, producedPrimRefs]
  refine List.flatMap_congr fun r _ => ?_
  rw [createTrianglePairPrimRefArray, PrimRefGen.createPrimRefArray, PrimRefGen.storePrimRefs_eq]
  simp

def AllValid (geom : TriangleGeometry) (m : Nat × Nat) : Prop :=
  ∀ x ∈ covers m, (getTriangle geom x).valid = true

theorem mem_covers {m : Nat × Nat} {x : Nat} : x ∈ covers m ↔ x = m.1 ∨ x = m.1 + m.2 := by
  rw [covers]
  split
  · rename_i hd
    simp [hd]
  · simp

theorem allValid_iff (geom : TriangleGeometry) (m : Nat × Nat) :
    AllValid geom m ↔
      (getTriangle geom m.1).valid = true ∧ (getTriangle geom (m.1 + m.2)).valid = true := by
  simp [AllValid, mem_covers]

theorem trianglePairPrimRef_partner (geom : TriangleGeometry) {quads : Nat → Nat}
    (geomID : Fin maxGeometries) {j : Nat} (h : quads j = paired) :
    trianglePairPrimRef geom quads geomID j = none :=
  if_pos h

theorem trianglePairPrimRef_lead (geom : TriangleGeometry) {quads : Nat → Nat}
    (geomID : Fin maxGeometries) {m : Nat × Nat} (hlead : quads m.1 = m.2)
    (hmax : m.2 ≤ maxDistance) :
    (AllValid geom m ∧ ∃ bounds,
      trianglePairPrimRef geom quads geomID m.1 = some ⟨bounds, geomID, Fin.ofNat _ m.1⟩) ∨
    (¬ AllValid geom m ∧ trianglePairPrimRef geom quads geomID m.1 = none) := by
  have hne : m.2 ≠ paired := Nat.ne_of_lt (Nat.lt_of_le_of_lt hmax (by decide))
  simp only [trianglePairPrimRef, hlead, if_neg hne, AllValid, covers, triangle]
  cases hvalid : (getTriangle geom m.1).valid
  · simp
    split <;> simp [hvalid]
  · by_cases hd : m.2 = 0
    · simp [hd, hvalid]
    · cases hvalid' : (getTriangle geom (m.1 + m.2)).valid <;> simp [hd, hvalid, hvalid']

section Matching

variable {geom : TriangleGeometry} {quads : Nat → Nat} {m : Nat × Nat}

theorem covers_iff (hlead : quads m.1 = m.2) (hlt : m.1 < 2 ^ 32) (bounds : NonemptyInterval Vec3f)
    (geomID : Fin maxGeometries) (x : Nat) :
    Covers quads x ⟨bounds, geomID, Fin.ofNat _ m.1⟩ ↔ x ∈ covers m := by
  have hval : (Fin.ofNat (2 ^ 32) m.1).val = m.1 := Nat.mod_eq_of_lt hlt
  rw [Covers, hval, hlead, mem_covers]

theorem filterMap_covers (geomID : Fin maxGeometries) (hpartner : m.2 ≠ 0 → quads (m.1 + m.2) = paired) :
    (covers m).filterMap (trianglePairPrimRef geom quads geomID) =
      [m.1].filterMap (trianglePairPrimRef geom quads geomID) := by
  rw [covers]
  split
  · rfl
  · rename_i hd
    have hnone := trianglePairPrimRef_partner geom geomID (hpartner hd)
    simp only [List.filterMap_cons, hnone, List.filterMap_nil]

theorem countP_covers (geom : TriangleGeometry) {quads : Nat → Nat} {m : Nat × Nat}
    (geomID : Fin maxGeometries) (hlead : quads m.1 = m.2) (hmax : m.2 ≤ maxDistance)
    (hpartner : m.2 ≠ 0 → quads (m.1 + m.2) = paired) (hlt : m.1 < 2 ^ 32) (x : Nat) :
    (x ∈ covers m ∧ AllValid geom m →
      ((covers m).filterMap (trianglePairPrimRef geom quads geomID)).countP (Covers quads x) = 1) ∧
    (¬ (x ∈ covers m ∧ AllValid geom m) →
      ((covers m).filterMap (trianglePairPrimRef geom quads geomID)).countP (Covers quads x) = 0) := by
  rw [filterMap_covers geomID hpartner]
  rcases trianglePairPrimRef_lead geom geomID hlead hmax with ⟨hvalid, bounds, hsome⟩ | ⟨hvalid, hnone⟩
  · have hcovers := covers_iff hlead hlt bounds geomID x
    simp only [List.filterMap_cons, hsome, List.filterMap_nil, List.countP_cons, List.countP_nil,
      decide_eq_true_eq, hcovers, hvalid, and_true]
    exact ⟨fun hx => by rw [if_pos hx], fun hx => by rw [if_neg hx]⟩
  · simp [hnone, hvalid]

end Matching

/-- A matching covers a triangle by the pair that it belongs to and by no other. -/
theorem countP_matching {geom : TriangleGeometry} {quads : Nat → Nat} (geomID : Fin maxGeometries)
    {matching : List (Nat × Nat)} {n : Nat} (h : Matched geom.getPrimitive 0 n matching quads)
    (hn : n ≤ 2 ^ 32) {m : Nat × Nat} (hm : m ∈ matching) {x : Nat} (hx : x ∈ covers m) :
    (AllValid geom m →
      ((List.range' 0 n).filterMap (trianglePairPrimRef geom quads geomID)).countP
        (Covers quads x) = 1) ∧
    (¬ AllValid geom m →
      ((List.range' 0 n).filterMap (trianglePairPrimRef geom quads geomID)).countP
        (Covers quads x) = 0) := by
  obtain ⟨before, after, rfl⟩ := List.append_of_mem hm
  have hlt : ∀ m' ∈ before ++ m :: after, m'.1 < 2 ^ 32 := fun m' hm' =>
    Nat.lt_of_lt_of_le (h.mem_range hm' (mem_covers_fst m')).2 hn
  have hcount := fun m' hm' => countP_covers geom geomID (h.lead m' hm') (h.le_max m' hm')
    (fun hd => (h.partner m' hm' hd).1) (hlt m' hm') x
  have hperm : ((before ++ m :: after).flatMap covers).Perm
      (covers m ++ (before ++ after).flatMap covers) := by
    rw [← List.flatMap_cons]
    exact List.perm_middle.flatMap_right covers
  have hnodup := (List.nodup_append.1 (hperm.nodup_iff.1 h.nodup)).2.2
  have hrest : (((before ++ after).flatMap covers).filterMap
      (trianglePairPrimRef geom quads geomID)).countP (Covers quads x) = 0 := by
    rw [List.filterMap_flatMap, List.countP_flatMap, List.sum_eq_zero_iff]
    intro c hc
    obtain ⟨m', hm', rfl⟩ := List.mem_map.1 hc
    have hmem : m' ∈ before ++ m :: after := by
      rcases List.mem_append.1 hm' with hm' | hm'
      · exact List.mem_append_left _ hm'
      · exact List.mem_append_right _ (List.mem_cons_of_mem m hm')
    refine (hcount m' hmem).2 fun hx' => ?_
    exact hnodup x hx x (List.mem_flatMap.2 ⟨m', hm', hx'.1⟩) rfl
  have htotal :
      ((List.range' 0 n).filterMap (trianglePairPrimRef geom quads geomID)).countP (Covers quads x) =
      ((covers m).filterMap (trianglePairPrimRef geom quads geomID)).countP (Covers quads x) := by
    have hall := h.perm.symm.trans hperm
    rw [Nat.sub_zero] at hall
    rw [(hall.filterMap _).countP_eq, List.filterMap_append, List.countP_append, hrest, Nat.add_zero]
  rw [htotal]
  exact ⟨fun hv => (hcount m hm).1 ⟨hx, hv⟩, fun hv => (hcount m hm).2 fun hv' => hv hv'.2⟩

/-- Triangle geometries keep all their valid triangles exactly when the pairing
of the first pass never joins a valid triangle to an invalid one. -/
theorem coversValidOnce_iff (geom : TriangleGeometry) (geomID : Fin maxGeometries) (lengths : List Nat)
    (order : List (Nat × Nat)) (base : Nat × Nat → Nat) (hsum : lengths.sum = geom.triangleCount)
    (horder : order.Perm (ranges 0 lengths)) :
    CoversValidOnce geom geomID lengths order base ↔ PairsAgree geom order := by
  obtain ⟨quads, matching, hquadify, hmatched⟩ := quadify_ranges geom horder (fun _ => 0)
  have hn : lengths.sum ≤ 2 ^ 32 := hsum ▸ geom.triangleCount.isLt.le
  have hcount := fun m (hm : m ∈ matching) x (hx : x ∈ covers m) =>
    countP_matching geomID hmatched hn hm hx
  have hquads : ∀ quads', quadify geom order (fun _ => 0) = some quads' → quads' = quads :=
    fun quads' h => Option.some.inj (h.symm.trans hquadify)
  constructor
  · rintro ⟨quads', hquads', h⟩ quads'' hquads'' p hp hpaired
    obtain rfl := hquads quads' hquads'
    obtain rfl := hquads quads'' hquads''
    rw [producedPrimRefs_eq] at h
    obtain ⟨m, hm, hmem⟩ := hmatched.exists_mem (Nat.zero_le p) (hsum ▸ hp)
    have hall : ∀ x ∈ covers m, (AllValid geom m ↔ (getTriangle geom x).valid = true) := by
      intro x hx
      have hx' := h x (hsum ▸ (hmatched.mem_range hm hx).2)
      by_cases hv : AllValid geom m
      · exact ⟨fun _ => hv x hx, fun _ => hv⟩
      · rw [(hcount m hm x hx).2 hv] at hx'
        refine ⟨fun hv' => absurd hv' hv, fun hx'' => ?_⟩
        rw [if_pos hx''] at hx'
        exact absurd hx' (by decide)
    have hlead : p = m.1 := by
      by_contra hne
      have hp : p = m.1 + m.2 := (mem_covers.1 hmem).resolve_left hne
      have hd : m.2 ≠ 0 := by omega
      exact hpaired (hp ▸ (hmatched.partner m hm hd).1)
    rw [hlead, hmatched.lead m hm]
    exact (hall _ (mem_covers.2 (Or.inl rfl))).symm.trans (hall _ (mem_covers.2 (Or.inr rfl)))
  · intro hagree
    refine ⟨quads, hquadify, fun x hx => ?_⟩
    rw [producedPrimRefs_eq]
    obtain ⟨m, hm, hmem⟩ := hmatched.exists_mem (Nat.zero_le x) (hsum ▸ hx)
    have hlt : m.1 < geom.triangleCount.val := hsum ▸ (hmatched.mem_range hm (mem_covers_fst m)).2
    have hlead := hmatched.lead m hm
    have hpaired : quads m.1 ≠ paired := by
      rw [hlead]
      exact Nat.ne_of_lt (Nat.lt_of_le_of_lt (hmatched.le_max m hm) (by decide))
    have hsame := hagree quads hquadify m.1 hlt hpaired
    rw [hlead] at hsame
    have hvalid : AllValid geom m ↔ (getTriangle geom x).valid = true := by
      rw [allValid_iff]
      rcases mem_covers.1 hmem with rfl | rfl
      · exact ⟨fun h => h.1, fun h => ⟨h, hsame.1 h⟩⟩
      · exact ⟨fun h => h.2, fun h => ⟨hsame.2 h, h⟩⟩
    by_cases hv : AllValid geom m
    · rw [(hcount m hm x hmem).1 hv, if_pos (hvalid.1 hv)]
    · rw [(hcount m hm x hmem).2 hv, if_neg fun h => hv (hvalid.2 h)]

/-- Two triangles that share an edge; the last vertex is the only one that can be invalid. -/
def strip (corner : Option Vec3f) : TriangleGeometry where
  triangleCount := 2
  getPrimitive := fun primID => if primID = 0 then ⟨0, 1, 2⟩ else ⟨2, 1, 3⟩
  vertexCount := 4
  getVertex := fun v =>
    if v = 0 then some (0, 0, 0) else if v = 1 then some (1, 0, 0)
    else if v = 2 then some (0, 1, 0) else corner
  geometryFlags := 0
  geometryMask := 1

theorem quadify_strip (corner : Option Vec3f) : ∃ quads,
    quadify (strip corner) [(0, 2)] (fun _ => 0) = some quads ∧ quads 0 = 1 ∧ quads 1 = paired :=
  ⟨_, rfl, rfl, rfl⟩

theorem coversValidOnce_iff_strip :
    CoversValidOnce (strip (some (1, 1, 0))) 0 [2] [(0, 2)] (fun _ => 0) ∧
      ¬ CoversValidOnce (strip none) 0 [2] [(0, 2)] (fun _ => 0) := by
  constructor
  · apply (coversValidOnce_iff (strip (some (1, 1, 0))) 0 [2] [(0, 2)] (fun _ => 0) rfl
      (List.Perm.refl _)).2
    obtain ⟨quads, hquads, h0, h1⟩ := quadify_strip (some (1, 1, 0))
    intro quads' hquads' p hp hpaired
    obtain rfl := Option.some.inj (hquads'.symm.trans hquads)
    obtain rfl | rfl : p = 0 ∨ p = 1 := by
      have hp : p < 2 := hp
      omega
    · rw [h0]
      decide
    · exact absurd h1 hpaired
  · intro h
    have hagree := (coversValidOnce_iff (strip none) 0 [2] [(0, 2)] (fun _ => 0) rfl
      (List.Perm.refl _)).1 h
    obtain ⟨quads, hquads, h0, h1⟩ := quadify_strip none
    have hsame := hagree quads hquads 0 (by decide) (by rw [h0]; decide)
    rw [h0] at hsame
    revert hsame
    decide

theorem not_coversValidOnce_strip :
    ¬ ∀ (geom : TriangleGeometry) (geomID : Fin maxGeometries) (lengths : List Nat)
      (order : List (Nat × Nat)) (base : Nat × Nat → Nat), lengths.sum = geom.triangleCount →
      order.Perm (ranges 0 lengths) → CoversValidOnce geom geomID lengths order base := by
  intro h
  obtain ⟨quads, hquads, hcount⟩ := h (strip none) 0 [2] [(0, 2)] (fun _ => 0) rfl (List.Perm.refl _)
  have h0 := hcount 0 (by decide)
  obtain rfl := Option.some.inj hquads
  revert h0
  decide

end TrianglePairs

end RTBuild
