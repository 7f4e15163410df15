import RTBuild.Leaf
import RTBuild.Library.Clip

namespace RTBuild

open Library Quadifier

/-- A box as extend and intersect compute it. Sides that nothing has been added to are infinite, and a
box is empty where its sides are the wrong way round. -/
structure BBox3fa where
  lower : Fin 3 → WithTop ℚ
  upper : Fin 3 → WithBot ℚ

namespace BBox3fa

def empty : BBox3fa := ⟨fun _ => ⊤, fun _ => ⊥⟩

def ofBounds (b : NonemptyInterval Vec3f) : BBox3fa :=
  ⟨fun dim => component b.fst dim, fun dim => component b.snd dim⟩

def extendPoint (b : BBox3fa) (v : Vec3f) : BBox3fa :=
  ⟨fun dim => min (b.lower dim) (component v dim), fun dim => max (b.upper dim) (component v dim)⟩

def extend (b other : BBox3fa) : BBox3fa :=
  ⟨fun dim => min (b.lower dim) (other.lower dim), fun dim => max (b.upper dim) (other.upper dim)⟩

def intersect (a b : BBox3fa) : BBox3fa :=
  ⟨fun dim => max (a.lower dim) (b.lower dim), fun dim => min (a.upper dim) (b.upper dim)⟩

def side (b : BBox3fa) (dim : Fin 3) : Option (NonemptyInterval ℚ) :=
  match b.lower dim, b.upper dim with
  | (lower : ℚ), (upper : ℚ) => if h : lower ≤ upper then some ⟨(lower, upper), h⟩ else none
  | _, _ => none

theorem corners_le (x y z : NonemptyInterval ℚ) :
    ((x.fst, y.fst, z.fst) : Vec3f) ≤ (x.snd, y.snd, z.snd) :=
  ⟨x.fst_le_snd, y.fst_le_snd, z.fst_le_snd⟩

def toBounds (b : BBox3fa) : Option (NonemptyInterval Vec3f) := do
  let x ← b.side 0
  let y ← b.side 1
  let z ← b.side 2
  return ⟨((x.fst, y.fst, z.fst), (x.snd, y.snd, z.snd)), corners_le x y z⟩

def Contains (b : BBox3fa) (x : Vec3f) : Prop :=
  ∀ dim, b.lower dim ≤ component x dim ∧ (component x dim : WithBot ℚ) ≤ b.upper dim

end BBox3fa

section code

def Crosses (dim : Fin 3) (pos : ℚ) (v0 v1 : Vec3f) : Prop :=
  component v0 dim < pos ∧ pos < component v1 dim ∨ component v1 dim < pos ∧ pos < component v0 dim

instance (dim : Fin 3) (pos : ℚ) (v0 v1 : Vec3f) : Decidable (Crosses dim pos v0 v1) :=
  inferInstanceAs (Decidable (_ ∨ _))

def splitEdge (dim : Fin 3) (pos : ℚ) (v0 v1 : Vec3f) (r : BBox3fa × BBox3fa) : BBox3fa × BBox3fa :=
  let v0d := component v0 dim
  let v1d := component v1 dim
  let left := if v0d ≤ pos then r.1.extendPoint v0 else r.1
  let right := if v0d ≥ pos then r.2.extendPoint v0 else r.2
  if Crosses dim pos v0 v1 then
    let invLength := 1 / (v1d - v0d)
    let c := ((pos - v0d) * invLength) • (v1 - v0) + v0
    (left.extendPoint c, right.extendPoint c)
  else (left, right)

def splitEdges (dim : Fin 3) (pos : ℚ) : List Vec3f → BBox3fa × BBox3fa → BBox3fa × BBox3fa
  | v0 :: v1 :: v, r => splitEdges dim pos (v1 :: v) (splitEdge dim pos v0 v1 r)
  | _, r => r

def splitPolygon (bounds : BBox3fa) (dim : Fin 3) (pos : ℚ) (v : List Vec3f) : BBox3fa × BBox3fa :=
  let r := splitEdges dim pos v (.empty, .empty)
  (r.1.intersect bounds, r.2.intersect bounds)

def TrianglePairs.Triangle.polygon (tri : TrianglePairs.Triangle) : List Vec3f :=
  [tri.p0, tri.p1, tri.p2, tri.p0]

def Quad.polygon (quad : Quad) : List Vec3f := [quad.p0, quad.p1, quad.p2, quad.p3, quad.p0]

def splitTrianglePair (getTriangle : Nat → TrianglePairs.Triangle) (quadification : Nat → Nat)
    (prim : PrimRef) (dim : Fin 3) (pos : ℚ) : BBox3fa × BBox3fa :=
  let pair := quadification prim.primID
  let tri0 := getTriangle prim.primID
  let r := splitPolygon (.ofBounds prim.bounds) dim pos tri0.polygon
  if pair ≠ triangle then
    let tri1 := getTriangle (prim.primID + pair)
    let r1 := splitPolygon (.ofBounds prim.bounds) dim pos tri1.polygon
    (r.1.extend r1.1, r.2.extend r1.2)
  else r

def splitQuad (getQuad : Nat → Quad) (prim : PrimRef) (dim : Fin 3) (pos : ℚ) : BBox3fa × BBox3fa :=
  splitPolygon (.ofBounds prim.bounds) dim pos (getQuad prim.primID).polygon

def splitPrims (prim : PrimRef) (r : BBox3fa × BBox3fa) : Option (PrimRef × PrimRef) := do
  let left ← r.1.toBounds
  let right ← r.2.toBounds
  return (⟨left, prim.geomID, prim.primID⟩, ⟨right, prim.geomID, prim.primID⟩)

end code

def componentMap (dim : Fin 3) : Vec3f →ₗ[ℚ] ℚ where
  toFun v := component v dim
  map_add' u v := by fin_cases dim <;> rfl
  map_smul' a v := by fin_cases dim <;> rfl

@[simp] theorem componentMap_apply (dim : Fin 3) (v : Vec3f) :
    componentMap dim v = component v dim :=
  rfl

namespace BBox3fa

variable {a b : BBox3fa} {x v : Vec3f}

theorem convex_contains (b : BBox3fa) : Convex ℚ {x | b.Contains x} := by
  have hall : {x | b.Contains x} = ⋂ dim, {x | b.lower dim ≤ componentMap dim x} ∩
      {x | (componentMap dim x : WithBot ℚ) ≤ b.upper dim} := by
    ext x
    simp [Contains]
  rw [hall]
  refine convex_iInter fun dim => Convex.inter ?_ ?_
  · have hup : Set.OrdConnected {q : ℚ | b.lower dim ≤ q} :=
      IsUpperSet.ordConnected (fun p q hpq hp => le_trans hp (WithTop.coe_le_coe.2 hpq))
    exact hup.convex.linear_preimage (componentMap dim)
  · have hdown : Set.OrdConnected {q : ℚ | (q : WithBot ℚ) ≤ b.upper dim} :=
      IsLowerSet.ordConnected (fun p q hpq hp => le_trans (WithBot.coe_le_coe.2 hpq) hp)
    exact hdown.convex.linear_preimage (componentMap dim)

theorem contains_extendPoint_self (b : BBox3fa) (v : Vec3f) : (b.extendPoint v).Contains v :=
  fun _ => ⟨min_le_right _ _, le_max_right _ _⟩

theorem Contains.extendPoint (h : b.Contains x) (v : Vec3f) : (b.extendPoint v).Contains x :=
  fun dim => ⟨(min_le_left _ _).trans (h dim).1, (h dim).2.trans (le_max_left _ _)⟩

theorem Contains.extend_left (h : a.Contains x) (b : BBox3fa) : (a.extend b).Contains x :=
  fun dim => ⟨(min_le_left _ _).trans (h dim).1, (h dim).2.trans (le_max_left _ _)⟩

theorem Contains.extend_right (h : b.Contains x) (a : BBox3fa) : (a.extend b).Contains x :=
  fun dim => ⟨(min_le_right _ _).trans (h dim).1, (h dim).2.trans (le_max_right _ _)⟩

theorem contains_intersect : (a.intersect b).Contains x ↔ a.Contains x ∧ b.Contains x := by
  simp only [Contains, intersect, max_le_iff, le_min_iff]
  exact ⟨fun h => ⟨fun dim => ⟨(h dim).1.1, (h dim).2.1⟩, fun dim => ⟨(h dim).1.2, (h dim).2.2⟩⟩,
    fun h dim => ⟨⟨(h.1 dim).1, (h.2 dim).1⟩, ⟨(h.1 dim).2, (h.2 dim).2⟩⟩⟩

theorem contains_ofBounds {bounds : NonemptyInterval Vec3f} :
    (ofBounds bounds).Contains x ↔ x ∈ bounds := by
  simp [Contains, ofBounds, NonemptyInterval.mem_def, Fin.forall_fin_succ, component, Prod.le_def]
  tauto

theorem side_eq_some {b : BBox3fa} {dim : Fin 3} {s : NonemptyInterval ℚ} :
    b.side dim = some s ↔ b.lower dim = s.fst ∧ b.upper dim = s.snd := by
  rw [side]
  constructor
  · intro h
    split at h
    · next lower upper hlower hupper =>
        split at h
        · obtain rfl := Option.some.inj h
          exact ⟨hlower, hupper⟩
        · cases h
    · cases h
  · rintro ⟨hlower, hupper⟩
    rw [hlower, hupper]
    simp only [s.fst_le_snd, dite_true]

theorem toBounds_eq_some {b : BBox3fa} {bounds : NonemptyInterval Vec3f} :
    b.toBounds = some bounds ↔
      ∀ dim, b.lower dim = component bounds.fst dim ∧ b.upper dim = component bounds.snd dim := by
  have hsides : b.toBounds = some bounds ↔ ∃ x y z : NonemptyInterval ℚ,
      b.side 0 = some x ∧ b.side 1 = some y ∧ b.side 2 = some z ∧
        (⟨((x.fst, y.fst, z.fst), (x.snd, y.snd, z.snd)),
          ⟨x.fst_le_snd, y.fst_le_snd, z.fst_le_snd⟩⟩ : NonemptyInterval Vec3f) = bounds := by
    simp [toBounds, Option.bind_eq_some_iff]
  rw [hsides]
  simp only [side_eq_some]
  constructor
  · rintro ⟨x, y, z, hx, hy, hz, rfl⟩ dim
    fin_cases dim
    · exact hx
    · exact hy
    · exact hz
  · intro h
    exact ⟨⟨(bounds.fst.1, bounds.snd.1), bounds.fst_le_snd.1⟩,
      ⟨(bounds.fst.2.1, bounds.snd.2.1), bounds.fst_le_snd.2.1⟩,
      ⟨(bounds.fst.2.2, bounds.snd.2.2), bounds.fst_le_snd.2.2⟩, h 0, h 1, h 2, rfl⟩

theorem eq_ofBounds_of_toBounds {b : BBox3fa} {bounds : NonemptyInterval Vec3f}
    (h : b.toBounds = some bounds) : b = ofBounds bounds := by
  have hsides := toBounds_eq_some.1 h
  obtain ⟨lower, upper⟩ := b
  rw [ofBounds]
  congr 1
  · funext dim
    exact (hsides dim).1
  · funext dim
    exact (hsides dim).2

theorem exists_toBounds {b : BBox3fa}
    (h : ∀ dim, ∃ s : NonemptyInterval ℚ, b.lower dim = s.fst ∧ b.upper dim = s.snd) :
    ∃ bounds, b.toBounds = some bounds := by
  choose s hlower hupper using h
  exact ⟨⟨(((s 0).fst, (s 1).fst, (s 2).fst), ((s 0).snd, (s 1).snd, (s 2).snd)),
    ⟨(s 0).fst_le_snd, (s 1).fst_le_snd, (s 2).fst_le_snd⟩⟩,
    toBounds_eq_some.2 (Fin.forall_fin_succ.2 ⟨⟨hlower 0, hupper 0⟩,
      Fin.forall_fin_succ.2 ⟨⟨hlower 1, hupper 1⟩, fun i => by
        rw [Fin.eq_zero i]
        exact ⟨hlower 2, hupper 2⟩⟩⟩)⟩

structure Bounds (b : BBox3fa) (S : Set Vec3f) : Prop where
  contains : ∀ x ∈ S, b.Contains x
  lower : ∀ dim, b.lower dim = ⊤ ∨ ∃ y ∈ S, b.lower dim = component y dim
  upper : ∀ dim, b.upper dim = ⊥ ∨ ∃ y ∈ S, b.upper dim = component y dim

/-- There is no smaller box. -/
theorem Bounds.least {S : Set Vec3f} (h : a.Bounds S) (hb : ∀ x ∈ S, b.Contains x) (dim : Fin 3) :
    b.lower dim ≤ a.lower dim ∧ a.upper dim ≤ b.upper dim := by
  constructor
  · rcases h.lower dim with htop | ⟨y, hy, hlower⟩
    · rw [htop]
      exact le_top
    · rw [hlower]
      exact (hb y hy dim).1
  · rcases h.upper dim with hbot | ⟨y, hy, hupper⟩
    · rw [hbot]
      exact bot_le
    · rw [hupper]
      exact (hb y hy dim).2

theorem Bounds.extend {S S' : Set Vec3f} (h : a.Bounds S) (h' : b.Bounds S') :
    (a.extend b).Bounds (S ∪ S') := by
  refine ⟨?_, fun dim => ?_, fun dim => ?_⟩
  · rintro x (hx | hx)
    · exact (h.contains x hx).extend_left b
    · exact (h'.contains x hx).extend_right a
  · rcases min_choice (a.lower dim) (b.lower dim) with hmin | hmin
    · exact (h.lower dim).imp hmin.trans (fun ⟨y, hy, heq⟩ => ⟨y, Or.inl hy, hmin.trans heq⟩)
    · exact (h'.lower dim).imp hmin.trans (fun ⟨y, hy, heq⟩ => ⟨y, Or.inr hy, hmin.trans heq⟩)
  · rcases max_choice (a.upper dim) (b.upper dim) with hmax | hmax
    · exact (h.upper dim).imp hmax.trans (fun ⟨y, hy, heq⟩ => ⟨y, Or.inl hy, hmax.trans heq⟩)
    · exact (h'.upper dim).imp hmax.trans (fun ⟨y, hy, heq⟩ => ⟨y, Or.inr hy, hmax.trans heq⟩)

/-- Clipping two boxes and merging them is the same as clipping the merged box, even where one of the
clipped boxes is empty. -/
theorem extend_intersect (a b c : BBox3fa) :
    (a.intersect c).extend (b.intersect c) = (a.extend b).intersect c := by
  simp only [BBox3fa.extend, intersect, ← max_min_distrib_right, ← min_max_distrib_right]

structure Attained (b : BBox3fa) (S : Set Vec3f) : Prop where
  lower : ∀ dim, b.lower dim = ⊤ ∨ ∃ y ∈ S, b.lower dim = component y dim
  upper : ∀ dim, b.upper dim = ⊥ ∨ ∃ y ∈ S, b.upper dim = component y dim

theorem attained_empty (S : Set Vec3f) : empty.Attained S := ⟨fun _ => Or.inl rfl, fun _ => Or.inl rfl⟩

theorem Attained.extendPoint {S : Set Vec3f} (h : b.Attained S) (hv : v ∈ S) :
    (b.extendPoint v).Attained S := by
  refine ⟨fun dim => ?_, fun dim => ?_⟩
  · rcases min_choice (b.lower dim) (component v dim) with hmin | hmin
    · exact (h.lower dim).imp hmin.trans (fun ⟨y, hy, heq⟩ => ⟨y, hy, hmin.trans heq⟩)
    · exact Or.inr ⟨v, hv, hmin⟩
  · rcases max_choice (b.upper dim) (component v dim) with hmax | hmax
    · exact (h.upper dim).imp hmax.trans (fun ⟨y, hy, heq⟩ => ⟨y, hy, hmax.trans heq⟩)
    · exact Or.inr ⟨v, hv, hmax⟩

end BBox3fa

section edges

variable {dim : Fin 3} {pos : ℚ} {v0 v1 x : Vec3f} {v : List Vec3f} {r : BBox3fa × BBox3fa}

/-- The edges cross the plane where their lines do. -/
theorem splitEdge_eq (dim : Fin 3) (pos : ℚ) (v0 v1 : Vec3f) (r : BBox3fa × BBox3fa) :
    splitEdge dim pos v0 v1 r =
      let left := if component v0 dim ≤ pos then r.1.extendPoint v0 else r.1
      let right := if component v0 dim ≥ pos then r.2.extendPoint v0 else r.2
      let c := Clip.crossing (componentMap dim) pos v0 v1
      if Crosses dim pos v0 v1 then
        (left.extendPoint c, right.extendPoint c) else (left, right) := rfl

theorem Crosses.ne (h : Crosses dim pos v0 v1) : component v0 dim ≠ component v1 dim := by
  rcases h with ⟨hlt, hgt⟩ | ⟨hlt, hgt⟩
  · exact (hlt.trans hgt).ne
  · exact (hlt.trans hgt).ne'

theorem Crosses.crossing_mem (h : Crosses dim pos v0 v1) :
    Clip.crossing (componentMap dim) pos v0 v1 ∈ segment ℚ v0 v1 ∧
      component (Clip.crossing (componentMap dim) pos v0 v1) dim = pos := by
  refine ⟨?_, Clip.map_crossing (f := componentMap dim) h.ne⟩
  rcases h with ⟨hlt, hgt⟩ | ⟨hlt, hgt⟩
  · exact Clip.crossing_mem_segment (f := componentMap dim) hlt.le hgt
  · rw [Clip.crossing_comm (f := componentMap dim) (hlt.trans hgt).ne', segment_symm]
    exact Clip.crossing_mem_segment (f := componentMap dim) hlt.le hgt

theorem splitEdge_mono (h : r.1.Contains x) : (splitEdge dim pos v0 v1 r).1.Contains x := by
  have hleft : (if component v0 dim ≤ pos then r.1.extendPoint v0 else r.1).Contains x := by
    split
    · exact h.extendPoint v0
    · exact h
  rw [splitEdge_eq]
  simp only
  split
  · exact hleft.extendPoint _
  · exact hleft

theorem splitEdge_mono_right (h : r.2.Contains x) : (splitEdge dim pos v0 v1 r).2.Contains x := by
  have hright : (if component v0 dim ≥ pos then r.2.extendPoint v0 else r.2).Contains x := by
    split
    · exact h.extendPoint v0
    · exact h
  rw [splitEdge_eq]
  simp only
  split
  · exact hright.extendPoint _
  · exact hright

theorem splitEdge_contains :
    (component v0 dim ≤ pos → (splitEdge dim pos v0 v1 r).1.Contains v0) ∧
    (pos ≤ component v0 dim → (splitEdge dim pos v0 v1 r).2.Contains v0) ∧
    (Crosses dim pos v0 v1 →
      (splitEdge dim pos v0 v1 r).1.Contains (Clip.crossing (componentMap dim) pos v0 v1) ∧
        (splitEdge dim pos v0 v1 r).2.Contains (Clip.crossing (componentMap dim) pos v0 v1)) := by
  rw [splitEdge_eq]
  simp only
  refine ⟨fun hle => ?_, fun hge => ?_, fun hcrosses => ?_⟩
  · rw [if_pos hle]
    split
    · exact (BBox3fa.contains_extendPoint_self r.1 v0).extendPoint _
    · exact BBox3fa.contains_extendPoint_self r.1 v0
  · rw [if_pos (show component v0 dim ≥ pos from hge)]
    split
    · exact (BBox3fa.contains_extendPoint_self r.2 v0).extendPoint _
    · exact BBox3fa.contains_extendPoint_self r.2 v0
  · rw [if_pos hcrosses]
    exact ⟨BBox3fa.contains_extendPoint_self _ _, BBox3fa.contains_extendPoint_self _ _⟩

theorem splitEdge_attained {T : Set Vec3f} (hT : segment ℚ v0 v1 ⊆ T)
    (hleft : r.1.Attained {x ∈ T | component x dim ≤ pos})
    (hright : r.2.Attained {x ∈ T | pos ≤ component x dim}) :
    (splitEdge dim pos v0 v1 r).1.Attained {x ∈ T | component x dim ≤ pos} ∧
      (splitEdge dim pos v0 v1 r).2.Attained {x ∈ T | pos ≤ component x dim} := by
  have hv0 : v0 ∈ T := hT (left_mem_segment ℚ v0 v1)
  have hleft' : (if component v0 dim ≤ pos then r.1.extendPoint v0 else r.1).Attained
      {x ∈ T | component x dim ≤ pos} := by
    split
    · next hle => exact hleft.extendPoint ⟨hv0, hle⟩
    · exact hleft
  have hright' : (if component v0 dim ≥ pos then r.2.extendPoint v0 else r.2).Attained
      {x ∈ T | pos ≤ component x dim} := by
    split
    · next hge => exact hright.extendPoint ⟨hv0, hge⟩
    · exact hright
  rw [splitEdge_eq]
  simp only
  split
  · next hcrosses =>
      obtain ⟨hc, hpos⟩ := hcrosses.crossing_mem
      exact ⟨hleft'.extendPoint ⟨hT hc, hpos.le⟩, hright'.extendPoint ⟨hT hc, hpos.ge⟩⟩
  · exact ⟨hleft', hright'⟩

def Edge (v : List Vec3f) (v0 v1 : Vec3f) : Prop := (v0, v1) ∈ v.zip v.tail

theorem splitEdges_cons (v0 v1 : Vec3f) (v : List Vec3f) (r : BBox3fa × BBox3fa) :
    splitEdges dim pos (v0 :: v1 :: v) r =
      splitEdges dim pos (v1 :: v) (splitEdge dim pos v0 v1 r) := rfl

theorem splitEdges_mono :
    (r.1.Contains x → (splitEdges dim pos v r).1.Contains x) ∧
      (r.2.Contains x → (splitEdges dim pos v r).2.Contains x) := by
  induction v generalizing r with
  | nil => exact ⟨id, id⟩
  | cons v0 v ih =>
      cases v with
      | nil => exact ⟨id, id⟩
      | cons v1 v =>
          rw [splitEdges_cons]
          exact ⟨fun h => ih.1 (splitEdge_mono h), fun h => ih.2 (splitEdge_mono_right h)⟩

theorem splitEdges_contains (h : Edge v v0 v1) :
    (component v0 dim ≤ pos → (splitEdges dim pos v r).1.Contains v0) ∧
    (pos ≤ component v0 dim → (splitEdges dim pos v r).2.Contains v0) ∧
    (Crosses dim pos v0 v1 →
      (splitEdges dim pos v r).1.Contains (Clip.crossing (componentMap dim) pos v0 v1) ∧
        (splitEdges dim pos v r).2.Contains (Clip.crossing (componentMap dim) pos v0 v1)) := by
  induction v generalizing r with
  | nil => exact absurd h List.not_mem_nil
  | cons w0 v ih =>
      cases v with
      | nil => exact absurd h List.not_mem_nil
      | cons w1 v =>
          rw [splitEdges_cons]
          rcases List.mem_cons.1 h with heq | h
          · obtain ⟨rfl, rfl⟩ := Prod.mk.inj heq
            obtain ⟨hleft, hright, hcross⟩ := @splitEdge_contains dim pos v0 v1 r
            exact ⟨fun hle => splitEdges_mono.1 (hleft hle), fun hge => splitEdges_mono.2 (hright hge),
              fun hc => ⟨splitEdges_mono.1 (hcross hc).1, splitEdges_mono.2 (hcross hc).2⟩⟩
          · exact ih h

theorem splitEdges_attained {T : Set Vec3f} (hT : ∀ u w, Edge v u w → segment ℚ u w ⊆ T)
    (hleft : r.1.Attained {x ∈ T | component x dim ≤ pos})
    (hright : r.2.Attained {x ∈ T | pos ≤ component x dim}) :
    (splitEdges dim pos v r).1.Attained {x ∈ T | component x dim ≤ pos} ∧
      (splitEdges dim pos v r).2.Attained {x ∈ T | pos ≤ component x dim} := by
  induction v generalizing r with
  | nil => exact ⟨hleft, hright⟩
  | cons v0 v ih =>
      cases v with
      | nil => exact ⟨hleft, hright⟩
      | cons v1 v =>
          rw [splitEdges_cons]
          have hstep := splitEdge_attained (hT v0 v1 List.mem_cons_self) hleft hright
          exact ih (fun u w huw => hT u w (List.mem_cons_of_mem (v0, v1) huw)) hstep.1 hstep.2

def halves (dim : Fin 3) (pos : ℚ) (v : List Vec3f) : BBox3fa × BBox3fa :=
  splitEdges dim pos v (.empty, .empty)

/-- Boxes around the parts of a set on both sides of a plane, none larger than it has to be. -/
structure SplitsAt (T : Set Vec3f) (dim : Fin 3) (pos : ℚ) (r : BBox3fa × BBox3fa) : Prop where
  left : r.1.Bounds {x ∈ T | component x dim ≤ pos}
  right : r.2.Bounds {x ∈ T | pos ≤ component x dim}

theorem SplitsAt.union {T T' : Set Vec3f} {r' : BBox3fa × BBox3fa} (h : SplitsAt T dim pos r)
    (h' : SplitsAt T' dim pos r') : SplitsAt (T ∪ T') dim pos (r.1.extend r'.1, r.2.extend r'.2) := by
  have hsep : ∀ P : Vec3f → Prop, {x ∈ T ∪ T' | P x} = {x ∈ T | P x} ∪ {x ∈ T' | P x} := by
    intro P
    ext x
    exact or_and_right
  refine ⟨?_, ?_⟩
  · rw [hsep]
    exact h.left.extend h'.left
  · rw [hsep]
    exact h.right.extend h'.right

/-- Boxes for the parts of a set on both sides of a plane and inside of a box, each of them the smallest
one around a part where that is in the box. -/
structure ClipsAt (T : Set Vec3f) (bounds : NonemptyInterval Vec3f) (dim : Fin 3) (pos : ℚ)
    (r : BBox3fa × BBox3fa) : Prop where
  left : ∀ x ∈ T, x ∈ bounds → component x dim ≤ pos → r.1.Contains x
  right : ∀ x ∈ T, x ∈ bounds → pos ≤ component x dim → r.2.Contains x
  least : ∃ halves, SplitsAt T dim pos halves ∧
    r = (halves.1.intersect (.ofBounds bounds), halves.2.intersect (.ofBounds bounds))

theorem SplitsAt.clipsAt {T : Set Vec3f} (h : SplitsAt T dim pos r) (bounds : NonemptyInterval Vec3f) :
    ClipsAt T bounds dim pos (r.1.intersect (.ofBounds bounds), r.2.intersect (.ofBounds bounds)) where
  left x hx hb hle := BBox3fa.contains_intersect.2
    ⟨h.left.contains x ⟨hx, hle⟩, BBox3fa.contains_ofBounds.2 hb⟩
  right x hx hb hge := BBox3fa.contains_intersect.2
    ⟨h.right.contains x ⟨hx, hge⟩, BBox3fa.contains_ofBounds.2 hb⟩
  least := ⟨r, h, rfl⟩

def HasCrossing (dim : Fin 3) (pos : ℚ) (v : List Vec3f) (v0 v1 : Vec3f) : Prop :=
  Crosses dim pos v0 v1 →
    (halves dim pos v).1.Contains (Clip.crossing (componentMap dim) pos v0 v1) ∧
      (halves dim pos v).2.Contains (Clip.crossing (componentMap dim) pos v0 v1)

theorem Edge.hasCrossing (h : Edge v v0 v1) : HasCrossing dim pos v v0 v1 := (splitEdges_contains h).2.2

theorem HasCrossing.symm (h : HasCrossing dim pos v v0 v1) : HasCrossing dim pos v v1 v0 := by
  intro hcrosses
  rw [Clip.crossing_comm (f := componentMap dim) hcrosses.ne]
  exact h hcrosses.symm

theorem halves_contains {s : Set Vec3f} (hs : ∀ u ∈ s, ∃ w, Edge v u w)
    (hpairs : ∀ u ∈ s, ∀ w ∈ s, component u dim < pos → pos < component w dim →
      HasCrossing dim pos v u w) (hx : x ∈ convexHull ℚ s) :
    (component x dim ≤ pos → (halves dim pos v).1.Contains x) ∧
      (pos ≤ component x dim → (halves dim pos v).2.Contains x) := by
  constructor
  · refine Clip.mem_of_mem_convexHull (f := componentMap dim) (BBox3fa.convex_contains _)
      (fun u hu hle => ?_) (fun u hu w hw hlt hgt => ?_) hx
    · obtain ⟨w, hedge⟩ := hs u hu
      exact (splitEdges_contains hedge).1 hle
    · exact (hpairs u hu w hw hlt hgt (Or.inl ⟨hlt, hgt⟩)).1
  · refine Clip.mem_of_mem_convexHull_right (f := componentMap dim) (BBox3fa.convex_contains _)
      (fun u hu hge => ?_) (fun u hu w hw hlt hgt => ?_) hx
    · obtain ⟨w, hedge⟩ := hs u hu
      exact (splitEdges_contains hedge).2.1 hge
    · exact (hpairs u hu w hw hlt hgt (Or.inl ⟨hlt, hgt⟩)).2

/-- Boxes around all of a set in which the edges are, given that they contain it. -/
theorem splitsAt_of_contains {T : Set Vec3f} (hT : ∀ u w, Edge v u w → segment ℚ u w ⊆ T)
    (h : ∀ x ∈ T, (component x dim ≤ pos → (halves dim pos v).1.Contains x) ∧
      (pos ≤ component x dim → (halves dim pos v).2.Contains x)) :
    SplitsAt T dim pos (halves dim pos v) := by
  obtain ⟨hleft, hright⟩ := splitEdges_attained (r := (.empty, .empty)) hT
    (BBox3fa.attained_empty {x ∈ T | component x dim ≤ pos})
    (BBox3fa.attained_empty {x ∈ T | pos ≤ component x dim})
  exact ⟨⟨fun x hx => (h x hx.1).1 hx.2, hleft.lower, hleft.upper⟩,
    ⟨fun x hx => (h x hx.1).2 hx.2, hright.lower, hright.upper⟩⟩

def outline (v : List Vec3f) : Set Vec3f := {x | ∃ u w, Edge v u w ∧ x ∈ segment ℚ u w}

theorem segment_subset_outline (h : Edge v v0 v1) : segment ℚ v0 v1 ⊆ outline v :=
  fun _ hx => ⟨v0, v1, h, hx⟩

/-- Splitting a closed polygon yields the smallest boxes around what its edges have on each side. -/
theorem splitsAt_outline (hclosed : ∀ u w, Edge v u w → ∃ z, Edge v w z) (dim : Fin 3) (pos : ℚ) :
    SplitsAt (outline v) dim pos (halves dim pos v) := by
  refine splitsAt_of_contains (fun u w huw => segment_subset_outline huw) ?_
  rintro x ⟨u, w, huw, hx⟩
  rw [← convexHull_pair] at hx
  refine halves_contains ?_ ?_ hx
  · rintro z (rfl | rfl)
    · exact ⟨w, huw⟩
    · exact hclosed _ _ huw
  · rintro z (rfl | rfl) z' (rfl | rfl) hlt hgt
    · exact absurd (hlt.trans hgt) (lt_irrefl _)
    · exact huw.hasCrossing
    · exact huw.hasCrossing.symm
    · exact absurd (hlt.trans hgt) (lt_irrefl _)

end edges

namespace TrianglePairs.Triangle

variable (tri : TrianglePairs.Triangle)

def surface : Set Vec3f := convexHull ℚ {tri.p0, tri.p1, tri.p2}

/-- Splitting a triangle yields the smallest boxes around what it has on each side of the plane. -/
theorem splitsAt (dim : Fin 3) (pos : ℚ) :
    SplitsAt tri.surface dim pos (halves dim pos tri.polygon) := by
  have h01 : Edge tri.polygon tri.p0 tri.p1 := by simp [Edge, polygon]
  have h12 : Edge tri.polygon tri.p1 tri.p2 := by simp [Edge, polygon]
  have h20 : Edge tri.polygon tri.p2 tri.p0 := by simp [Edge, polygon]
  refine splitsAt_of_contains (fun u w huw => ?_) (fun x hx => halves_contains ?_ ?_ hx)
  · refine (convex_convexHull ℚ _).segment_subset (subset_convexHull ℚ _ ?_) (subset_convexHull ℚ _ ?_)
    all_goals
      simp only [Edge, polygon, List.tail_cons, List.zip_cons_cons, List.zip_nil_right, List.mem_cons,
        Prod.mk.injEq, List.not_mem_nil, or_false] at huw
      simp only [Set.mem_insert_iff, Set.mem_singleton_iff]
      tauto
  · rintro u (rfl | rfl | rfl)
    · exact ⟨_, h01⟩
    · exact ⟨_, h12⟩
    · exact ⟨_, h20⟩
  · rintro u (rfl | rfl | rfl) w (rfl | rfl | rfl) hlt hgt
    · exact absurd (hlt.trans hgt) (lt_irrefl _)
    · exact h01.hasCrossing
    · exact h20.hasCrossing.symm
    · exact h01.hasCrossing.symm
    · exact absurd (hlt.trans hgt) (lt_irrefl _)
    · exact h12.hasCrossing
    · exact h20.hasCrossing
    · exact h12.hasCrossing.symm
    · exact absurd (hlt.trans hgt) (lt_irrefl _)

end TrianglePairs.Triangle

namespace Quad

variable (quad : Quad)

def surface : Set Vec3f :=
  convexHull ℚ {quad.p0, quad.p1, quad.p3} ∪ convexHull ℚ {quad.p2, quad.p3, quad.p1}

def Covered (dim : Fin 3) (pos : ℚ) : Prop :=
  ∀ (bounds : NonemptyInterval Vec3f), ∀ x ∈ quad.surface, x ∈ bounds →
    (component x dim ≤ pos → (splitPolygon (.ofBounds bounds) dim pos quad.polygon).1.Contains x) ∧
      (pos ≤ component x dim → (splitPolygon (.ofBounds bounds) dim pos quad.polygon).2.Contains x)

theorem covered_of_hasCrossing {dim : Fin 3} {pos : ℚ}
    (h : HasCrossing dim pos quad.polygon quad.p1 quad.p3) : quad.Covered dim pos := by
  have h01 : Edge quad.polygon quad.p0 quad.p1 := by simp [Edge, polygon]
  have h12 : Edge quad.polygon quad.p1 quad.p2 := by simp [Edge, polygon]
  have h23 : Edge quad.polygon quad.p2 quad.p3 := by simp [Edge, polygon]
  have h30 : Edge quad.polygon quad.p3 quad.p0 := by simp [Edge, polygon]
  have hcontains : ∀ x ∈ quad.surface,
      (component x dim ≤ pos → (halves dim pos quad.polygon).1.Contains x) ∧
        (pos ≤ component x dim → (halves dim pos quad.polygon).2.Contains x) := by
    rintro x (hx | hx)
    · refine halves_contains ?_ ?_ hx
      · rintro u (rfl | rfl | rfl)
        · exact ⟨_, h01⟩
        · exact ⟨_, h12⟩
        · exact ⟨_, h30⟩
      · rintro u (rfl | rfl | rfl) w (rfl | rfl | rfl) hlt hgt
        · exact absurd (hlt.trans hgt) (lt_irrefl _)
        · exact h01.hasCrossing
        · exact h30.hasCrossing.symm
        · exact h01.hasCrossing.symm
        · exact absurd (hlt.trans hgt) (lt_irrefl _)
        · exact h
        · exact h30.hasCrossing
        · exact h.symm
        · exact absurd (hlt.trans hgt) (lt_irrefl _)
    · refine halves_contains ?_ ?_ hx
      · rintro u (rfl | rfl | rfl)
        · exact ⟨_, h23⟩
        · exact ⟨_, h30⟩
        · exact ⟨_, h12⟩
      · rintro u (rfl | rfl | rfl) w (rfl | rfl | rfl) hlt hgt
        · exact absurd (hlt.trans hgt) (lt_irrefl _)
        · exact h23.hasCrossing
        · exact h12.hasCrossing.symm
        · exact h23.hasCrossing.symm
        · exact absurd (hlt.trans hgt) (lt_irrefl _)
        · exact h.symm
        · exact h12.hasCrossing
        · exact h
        · exact absurd (hlt.trans hgt) (lt_irrefl _)
  intro bounds x hx hbounds
  have hin := BBox3fa.contains_ofBounds.2 hbounds
  exact ⟨fun hle => BBox3fa.contains_intersect.2 ⟨(hcontains x hx).1 hle, hin⟩,
    fun hge => BBox3fa.contains_intersect.2 ⟨(hcontains x hx).2 hge, hin⟩⟩

/-- The loop over the edges leaves out the diagonal, which has to cross the plane in both boxes. -/
theorem covered_iff (dim : Fin 3) (pos : ℚ) :
    quad.Covered dim pos ↔ HasCrossing dim pos quad.polygon quad.p1 quad.p3 := by
  refine ⟨fun h hcrosses => ?_, quad.covered_of_hasCrossing⟩
  obtain ⟨hmem, hpos⟩ := hcrosses.crossing_mem
  have hsurface : Clip.crossing (componentMap dim) pos quad.p1 quad.p3 ∈ quad.surface :=
    Or.inl (segment_subset_convexHull (by simp) (by simp) hmem)
  obtain ⟨hleft, hright⟩ := h (NonemptyInterval.pure _) _ hsurface (NonemptyInterval.mem_pure_self _)
  exact ⟨(BBox3fa.contains_intersect.1 (hleft hpos.le)).1,
    (BBox3fa.contains_intersect.1 (hright hpos.ge)).1⟩

/-- The crossing of a line through two corners, of which one may be on the plane. -/
theorem crossing_of_edge {v : List Vec3f} {dim : Fin 3} {pos : ℚ} {u w : Vec3f}
    (hu : ∃ z, Edge v u z) (hedge : HasCrossing dim pos v u w) (hle : component u dim ≤ pos)
    (hgt : pos < component w dim) :
    (halves dim pos v).1.Contains (Clip.crossing (componentMap dim) pos u w) ∧
      (halves dim pos v).2.Contains (Clip.crossing (componentMap dim) pos u w) := by
  rcases hle.eq_or_lt with heq | hlt
  · obtain ⟨z, hz⟩ := hu
    rw [Clip.crossing_of_eq (f := componentMap dim) heq]
    exact ⟨(splitEdges_contains hz).1 heq.le, (splitEdges_contains hz).2.1 heq.ge⟩
  · exact hedge (Or.inl ⟨hlt, hgt⟩)

section diagonals

variable {v : List Vec3f} {p0 p1 p2 p3 : Vec3f} {dim : Fin 3} {pos : ℚ}

/-- Where one diagonal crosses the plane, given that all edges at the ends of the other one cross it in
both boxes. -/
theorem crossing_of_diagonals (hmeet : (segment ℚ p0 p2 ∩ segment ℚ p1 p3).Nonempty)
    (hcorner : ∀ p, p = p0 ∨ p = p2 → ∃ z, Edge v p z)
    (hedge1 : ∀ p, p = p0 ∨ p = p2 → HasCrossing dim pos v p1 p)
    (hedge3 : ∀ p, p = p0 ∨ p = p2 → HasCrossing dim pos v p p3)
    (hlt : component p1 dim < pos) (hgt : pos < component p3 dim) :
    (halves dim pos v).1.Contains (Clip.crossing (componentMap dim) pos p1 p3) ∧
      (halves dim pos v).2.Contains (Clip.crossing (componentMap dim) pos p1 p3) := by
  obtain ⟨x, ⟨a, b, ha, hb, hab, hx⟩, c, d, hc, hd, hcd, hx'⟩ := hmeet
  obtain rfl : a = 1 - b := by linarith
  obtain rfl : c = 1 - d := by linarith
  have hb1 : b ≤ 1 := by linarith
  have hbelow : ∀ p, p = p0 ∨ p = p2 → component p dim ≤ pos →
      (halves dim pos v).1.Contains (Clip.crossing (componentMap dim) pos p p3) ∧
        (halves dim pos v).2.Contains (Clip.crossing (componentMap dim) pos p p3) :=
    fun p hp hle => crossing_of_edge (hcorner p hp) (hedge3 p hp) hle hgt
  have habove : ∀ p, p = p0 ∨ p = p2 → pos < component p dim →
      (halves dim pos v).1.Contains (Clip.crossing (componentMap dim) pos p1 p) ∧
        (halves dim pos v).2.Contains (Clip.crossing (componentMap dim) pos p1 p) :=
    fun p hp hgt => hedge1 p hp (Or.inl ⟨hlt, hgt⟩)
  exact ⟨Clip.crossing_mem_of_diagonals (f := componentMap dim) (BBox3fa.convex_contains _) hb hb1
      (hx.trans hx'.symm) hlt hgt (fun p hp hle => (hbelow p hp hle).1)
      (fun p hp hgt => (habove p hp hgt).1),
    Clip.crossing_mem_of_diagonals (f := componentMap dim) (BBox3fa.convex_contains _) hb hb1
      (hx.trans hx'.symm) hlt hgt (fun p hp hle => (hbelow p hp hle).2)
      (fun p hp hgt => (habove p hp hgt).2)⟩

end diagonals

/-- The diagonals of a quad meet if it is flat and convex. -/
theorem hasCrossing_of_diagonals (h : (segment ℚ quad.p0 quad.p2 ∩ segment ℚ quad.p1 quad.p3).Nonempty)
    (dim : Fin 3) (pos : ℚ) : HasCrossing dim pos quad.polygon quad.p1 quad.p3 := by
  have h01 : Edge quad.polygon quad.p0 quad.p1 := by simp [Edge, polygon]
  have h12 : Edge quad.polygon quad.p1 quad.p2 := by simp [Edge, polygon]
  have h23 : Edge quad.polygon quad.p2 quad.p3 := by simp [Edge, polygon]
  have h30 : Edge quad.polygon quad.p3 quad.p0 := by simp [Edge, polygon]
  have hcorner : ∀ p, p = quad.p0 ∨ p = quad.p2 → ∃ z, Edge quad.polygon p z := by
    rintro p (rfl | rfl)
    · exact ⟨_, h01⟩
    · exact ⟨_, h23⟩
  have hedge1 : ∀ p, p = quad.p0 ∨ p = quad.p2 → HasCrossing dim pos quad.polygon quad.p1 p := by
    rintro p (rfl | rfl)
    · exact h01.hasCrossing.symm
    · exact h12.hasCrossing
  have hedge3 : ∀ p, p = quad.p0 ∨ p = quad.p2 → HasCrossing dim pos quad.polygon p quad.p3 := by
    rintro p (rfl | rfl)
    · exact h30.hasCrossing.symm
    · exact h23.hasCrossing
  rintro (⟨hlt, hgt⟩ | ⟨hlt, hgt⟩)
  · exact crossing_of_diagonals h hcorner hedge1 hedge3 hlt hgt
  · rw [segment_symm ℚ quad.p1] at h
    rw [Clip.crossing_comm (f := componentMap dim) (hlt.trans hgt).ne']
    exact crossing_of_diagonals h hcorner (fun p hp => (hedge3 p hp).symm)
      (fun p hp => (hedge1 p hp).symm) hlt hgt

/-- A quad of which three corners are on one side of a plane, that is not flat. -/
def bent : Quad := ⟨(-1, -1, -4), (-1, 0, 0), (-1, 1, -4), (1, 0, 4), .isOpaque, 0xFF⟩

/-- The point (0, 0, 2) of the diagonal is above the box on the left. -/
theorem not_hasCrossing_bent : ¬ HasCrossing 0 0 bent.polygon bent.p1 bent.p3 := by
  intro h
  have hcontains := (h (Or.inl (by decide +kernel))).1 2
  exact absurd hcontains.2 (by decide +kernel)

end Quad

/-- What splitPolygon leaves of triangles and of quads. For triangles the boxes are exact. A quad loses
nothing if and only if its second diagonal, which is no edge, crosses the plane inside of both boxes, as
that of a flat and convex quad does. -/
theorem splitPolygon_conservative :
    (∀ (tri : TrianglePairs.Triangle) bounds dim pos, ClipsAt tri.surface bounds dim pos
      (splitPolygon (.ofBounds bounds) dim pos tri.polygon)) ∧
      (∀ (quad : Quad) dim pos,
        quad.Covered dim pos ↔ HasCrossing dim pos quad.polygon quad.p1 quad.p3) ∧
      (∀ quad : Quad, (segment ℚ quad.p0 quad.p2 ∩ segment ℚ quad.p1 quad.p3).Nonempty →
        ∀ dim pos, quad.Covered dim pos) ∧
      ¬ Quad.bent.Covered 0 0 :=
  ⟨fun tri bounds dim pos => (tri.splitsAt dim pos).clipsAt bounds, fun quad => quad.covered_iff,
    fun quad h dim pos => quad.covered_of_hasCrossing (quad.hasCrossing_of_diagonals h dim pos),
    fun h => Quad.not_hasCrossing_bent ((Quad.bent.covered_iff 0 0).1 h)⟩

end RTBuild
