import RTBuild.Depth
import RTBuild.SwapPhase
import RTBuild.Library.Reduce

namespace RTBuild.Binning

open Library Library.Segment

structure BinMapping (BINS : Nat) where
  num : Nat
  num_pos : 0 < num
  num_le : num ≤ BINS
  ofs : Vec3f
  scale : Vec3f

namespace BinMapping

variable {BINS : Nat} (m : BinMapping BINS)

def binUnsafe (p : Vec3f) (dim : Fin 3) : Int :=
  ⌊(component p dim - component m.ofs dim) * component m.scale dim⌋

def bin (p : Vec3f) (dim : Fin 3) : Nat := (max (min (m.binUnsafe p dim) (m.num - 1)) 0).toNat

def invalid (dim : Fin 3) : Bool := component m.scale dim = 0

def isLeft (dim : Fin 3) (pos : Nat) (ref : PrimRef) : Bool := m.binUnsafe ref.center2 dim < pos

theorem bin_lt (p : Vec3f) (dim : Fin 3) : m.bin p dim < m.num := by
  have hpos := m.num_pos
  rw [bin]
  omega

/-- Clamping does not move a bin over a position between the bins. -/
theorem isLeft_iff {dim : Fin 3} {pos : Nat} (hpos : 0 < pos) (hlt : pos < m.num) (ref : PrimRef) :
    m.isLeft dim pos ref = true ↔ m.bin ref.center2 dim < pos := by
  rw [isLeft, decide_eq_true_eq, bin]
  omega

end BinMapping

structure BinInfo where
  counts : Nat → Fin 3 → BitVec 32
  bounds : Nat → Fin 3 → BBox3f

namespace BinInfo

variable {BINS : Nat} (m : BinMapping BINS)

def clear : BinInfo := ⟨fun _ _ => 0, fun _ _ => ⊥⟩

def add (info : BinInfo) (prim : PrimRef) : BinInfo where
  counts i dim := if m.bin prim.center2 dim = i then info.counts i dim + 1 else info.counts i dim
  bounds i dim :=
    if m.bin prim.center2 dim = i then info.bounds i dim ⊔ prim.bounds else info.bounds i dim

def bin : List PrimRef → BinInfo → BinInfo
  | [], info => info
  | [prim0], info => info.add m prim0
  | prim0 :: prim1 :: prims, info => bin prims ((info.add m prim0).add m prim1)

def merge (numBins : Nat) (a b : BinInfo) : BinInfo where
  counts i dim := if i < numBins then a.counts i dim + b.counts i dim else a.counts i dim
  bounds i dim := if i < numBins then a.bounds i dim ⊔ b.bounds i dim else a.bounds i dim

end BinInfo

inductive Area
  | finite (q : ℚ)
  | inf
  | nan
  deriving DecidableEq

namespace Area

def mul : Area → Nat → Area
  | finite q, n => finite (q * n)
  | inf, n => if n = 0 then nan else inf
  | nan, _ => nan

def add : Area → Area → Area
  | nan, _ => nan
  | _, nan => nan
  | inf, _ => inf
  | _, inf => inf
  | finite a, finite b => finite (a + b)

def lt : Area → Area → Bool
  | finite a, finite b => a < b
  | finite _, inf => true
  | _, _ => false

end Area

def expectedApproxHalfArea (box : BBox3f) : Area :=
  match box with
  | ⊥ => .inf
  | (box : NonemptyInterval Vec3f) =>
      let d := box.snd - box.fst
      .finite (d.1 * (d.2.1 + d.2.2) + d.2.1 * d.2.2)

def blocks (blockSize : Nat) (count : BitVec 32) : Nat :=
  ⌊((count + BitVec.ofNat 32 (blockSize - 1)).toNat : ℚ) * (1 / blockSize)⌋₊

structure BinSplit (BINS : Nat) where
  sah : Area
  dim : Option (Fin 3)
  pos : Nat
  mapping : BinMapping BINS

def BinSplit.isLeft {BINS : Nat} (split : BinSplit BINS) (ref : PrimRef) : Bool :=
  match split.dim with
  | none => false
  | some dim => split.mapping.isLeft dim split.pos ref

namespace BinInfo

variable {BINS : Nat} (info : BinInfo) (m : BinMapping BINS)

section sweeps

variable (dim : Fin 3)

structure RightSweep where
  count : BitVec 32
  box : BBox3f
  rAreas : Nat → Area
  rCounts : Nat → BitVec 32

def sweepRight : Nat → RightSweep → RightSweep
  | 0, s => s
  | i + 1, s =>
      let count := s.count + info.counts (i + 1) dim
      let box := s.box ⊔ info.bounds (i + 1) dim
      sweepRight i
        ⟨count, box, Function.update s.rAreas (i + 1) (expectedApproxHalfArea box),
          Function.update s.rCounts (i + 1) count⟩

structure LeftSweep where
  count : BitVec 32
  box : BBox3f
  bestSAH : Area
  bestPos : Nat

def sweepLeft (blockSize : Nat) (right : RightSweep) : Nat → Nat → LeftSweep → LeftSweep
  | 0, _, s => s
  | n + 1, i, s =>
      let count := s.count + info.counts (i - 1) dim
      let box := s.box ⊔ info.bounds (i - 1) dim
      let sah := ((expectedApproxHalfArea box).mul (blocks blockSize count)).add
        ((right.rAreas i).mul (blocks blockSize (right.rCounts i)))
      sweepLeft blockSize right n (i + 1)
        ⟨count, box, if sah.lt s.bestSAH then sah else s.bestSAH,
          if sah.lt s.bestSAH then i else s.bestPos⟩

def sweep (blockSize : Nat) : LeftSweep :=
  let right := info.sweepRight dim (m.num - 1) ⟨0, ⊥, fun _ => .finite 0, fun _ => 0⟩
  info.sweepLeft dim blockSize right (m.num - 1) 1 ⟨0, ⊥, .inf, 0⟩

end sweeps

def bestDim (vbest : Fin 3 → LeftSweep) : List (Fin 3) → BinSplit BINS → BinSplit BINS
  | [], best => best
  | dim :: dims, best =>
      if m.invalid dim then bestDim vbest dims best
      else if (vbest dim).bestSAH.lt best.sah ∧ (vbest dim).bestPos ≠ 0 then
        bestDim vbest dims ⟨(vbest dim).bestSAH, some dim, (vbest dim).bestPos, m⟩
      else bestDim vbest dims best

def bestBlockSize (blockSize : Nat) : BinSplit BINS :=
  bestDim m (fun dim => info.sweep m dim blockSize) (List.finRange 3) ⟨.inf, none, 0, m⟩

structure SplitInfo where
  leftCount : Nat
  leftBounds : BBox3f
  rightCount : Nat
  rightBounds : BBox3f

def getSplitInfo (dim : Fin 3) (pos : Nat) : SplitInfo where
  leftCount := ((List.range' 0 pos).map (fun i => (info.counts i dim).toNat)).sum
  leftBounds := (List.range' 0 pos).foldl (fun box i => box ⊔ info.bounds i dim) ⊥
  rightCount := ((List.range' pos (m.num - pos)).map (fun i => (info.counts i dim).toNat)).sum
  rightBounds := (List.range' pos (m.num - pos)).foldl (fun box i => box ⊔ info.bounds i dim) ⊥

end BinInfo

/-- Counter and box sum up some primitives. The counter has 32 bits. -/
structure Sums (l : List PrimRef) (count : BitVec 32) (box : BBox3f) : Prop where
  count : count = BitVec.ofNat 32 l.length
  box : box = unionBounds l

theorem unionBounds_append (l l' : List PrimRef) :
    unionBounds (l ++ l') = unionBounds l ⊔ unionBounds l' := by
  induction l with
  | nil => exact (bot_sup_eq _).symm
  | cons prim l ih =>
      show (prim.bounds : BBox3f) ⊔ unionBounds (l ++ l') =
          (prim.bounds : BBox3f) ⊔ unionBounds l ⊔ unionBounds l'
      rw [ih, sup_assoc]

namespace Sums

variable {l l' l'' : List PrimRef} {count count' : BitVec 32} {box box' : BBox3f}

theorem nil : Sums [] 0 ⊥ := ⟨rfl, rfl⟩

theorem append (h : Sums l count box) (h' : Sums l' count' box') (hperm : l''.Perm (l ++ l')) :
    Sums l'' (count + count') (box ⊔ box') := by
  constructor
  · rw [h.count, h'.count, hperm.length_eq, List.length_append, BitVec.ofNat_add]
  · rw [h.box, h'.box, unionBounds_perm hperm, unionBounds_append]

theorem concat (h : Sums l count box) (prim : PrimRef) :
    Sums (l ++ [prim]) (count + 1) (box ⊔ prim.bounds) := by
  have hone : Sums [prim] 1 (prim.bounds : BBox3f) := ⟨rfl, (sup_bot_eq _).symm⟩
  exact h.append hone (List.Perm.refl _)

end Sums

section bins

variable {BINS : Nat} {m : BinMapping BINS}

def between (m : BinMapping BINS) (l : List PrimRef) (dim : Fin 3) (lo hi : Nat) : List PrimRef :=
  l.filter (fun prim => lo ≤ m.bin prim.center2 dim && m.bin prim.center2 dim < hi)

theorem between_perm (m : BinMapping BINS) (l : List PrimRef) (dim : Fin 3) {lo mid hi : Nat}
    (hlo : lo ≤ mid) (hhi : mid ≤ hi) :
    (between m l dim lo hi).Perm (between m l dim lo mid ++ between m l dim mid hi) := by
  have hsplit := List.filter_append_perm (fun prim => decide (m.bin prim.center2 dim < mid))
    (between m l dim lo hi)
  have hleft : (between m l dim lo hi).filter (fun prim => m.bin prim.center2 dim < mid) =
      between m l dim lo mid := by
    rw [between, List.filter_filter]
    apply List.filter_congr
    intro prim _
    rw [Bool.eq_iff_iff]
    simp only [Bool.and_eq_true, decide_eq_true_eq]
    omega
  have hright : (between m l dim lo hi).filter (fun prim => !decide (m.bin prim.center2 dim < mid)) =
      between m l dim mid hi := by
    rw [between, List.filter_filter]
    apply List.filter_congr
    intro prim _
    rw [Bool.eq_iff_iff]
    simp only [Bool.and_eq_true, decide_eq_true_eq, Bool.not_eq_true', decide_eq_false_iff_not]
    omega
  rw [hleft, hright] at hsplit
  exact hsplit.symm

def Binned (m : BinMapping BINS) (l : List PrimRef) (info : BinInfo) : Prop :=
  ∀ i dim, Sums (between m l dim i (i + 1)) (info.counts i dim) (info.bounds i dim)

theorem Binned.clear (m : BinMapping BINS) : Binned m [] .clear := fun _ _ => Sums.nil

theorem Binned.add {l : List PrimRef} {info : BinInfo} (h : Binned m l info) (prim : PrimRef) :
    Binned m (l ++ [prim]) (info.add m prim) := by
  intro i dim
  rw [between, List.filter_append]
  by_cases hi : m.bin prim.center2 dim = i
  · have hin : [prim].filter (fun prim =>
        i ≤ m.bin prim.center2 dim && m.bin prim.center2 dim < i + 1) = [prim] := by
      simp [hi]
    simp only [hin, BinInfo.add, if_pos hi]
    exact (h i dim).concat prim
  · have hout : [prim].filter (fun prim =>
        i ≤ m.bin prim.center2 dim && m.bin prim.center2 dim < i + 1) = [] := by
      simp
      omega
    simp only [hout, BinInfo.add, if_neg hi, List.append_nil]
    exact h i dim

theorem Binned.bin {l : List PrimRef} {info : BinInfo} (h : Binned m l info) (prims : List PrimRef) :
    Binned m (l ++ prims) (BinInfo.bin m prims info) := by
  induction prims, info using BinInfo.bin.induct m generalizing l with
  | case1 info => rwa [List.append_nil]
  | case2 prim0 info => exact h.add prim0
  | case3 prim0 prim1 prims info ih =>
      have hboth := ih ((h.add prim0).add prim1)
      rwa [List.append_assoc, List.append_assoc] at hboth

theorem Binned.merge {l l' : List PrimRef} {a b : BinInfo} (h : Binned m l a) (h' : Binned m l' b) :
    Binned m (l ++ l') (BinInfo.merge m.num a b) := by
  intro i dim
  have hperm : (between m (l ++ l') dim i (i + 1)).Perm
      (between m l dim i (i + 1) ++ between m l' dim i (i + 1)) :=
    List.Perm.of_eq (List.filter_append ..)
  by_cases hi : i < m.num
  · simp only [BinInfo.merge, if_pos hi]
    exact (h i dim).append (h' i dim) hperm
  · have hnone : between m l' dim i (i + 1) = [] := by
      apply List.filter_eq_nil_iff.2
      intro prim _
      have hlt := m.bin_lt prim.center2 dim
      simp only [Bool.and_eq_true, decide_eq_true_eq]
      omega
    rw [hnone, List.append_nil] at hperm
    simp only [BinInfo.merge, if_neg hi]
    exact ⟨(h i dim).count.trans (by rw [hperm.length_eq]),
      (h i dim).box.trans (unionBounds_perm hperm).symm⟩

def binned (m : BinMapping BINS) (t : Reduce.Tree PrimRef) : BinInfo :=
  t.eval .clear (fun prims => BinInfo.bin m prims .clear) (BinInfo.merge m.num)

theorem binned_spec (m : BinMapping BINS) (t : Reduce.Tree PrimRef) : Binned m t.items (binned m t) := by
  apply Reduce.Tree.eval_induct
  · exact Binned.clear m
  · intro prims
    exact (Binned.clear m).bin prims
  · intro l l' a b h h'
    exact h.merge h'

section sweeps

variable {l : List PrimRef} {info : BinInfo} (dim : Fin 3)

theorem between_empty (m : BinMapping BINS) (l : List PrimRef) {lo hi : Nat} (h : hi ≤ lo) :
    between m l dim lo hi = [] := by
  apply List.filter_eq_nil_iff.2
  intro prim _
  simp only [Bool.and_eq_true, decide_eq_true_eq]
  omega

structure RightSums (m : BinMapping BINS) (l : List PrimRef) (dim : Fin 3) (i : Nat)
    (s : BinInfo.RightSweep) : Prop where
  sums : Sums (between m l dim (i + 1) m.num) s.count s.box
  areas : ∀ j, i < j → j < m.num →
    s.rAreas j = expectedApproxHalfArea (unionBounds (between m l dim j m.num))
  counts : ∀ j, i < j → j < m.num → s.rCounts j = BitVec.ofNat 32 (between m l dim j m.num).length

theorem sweepRight_spec (h : Binned m l info) {i : Nat} (hi : i < m.num) {s : BinInfo.RightSweep}
    (hs : RightSums m l dim i s) : RightSums m l dim 0 (info.sweepRight dim i s) := by
  induction i generalizing s with
  | zero => exact hs
  | succ i ih =>
      have hsums : Sums (between m l dim (i + 1) m.num) (s.count + info.counts (i + 1) dim)
          (s.box ⊔ info.bounds (i + 1) dim) := by
        apply hs.sums.append (h (i + 1) dim)
        exact (between_perm m l dim (Nat.le_succ (i + 1)) hi).trans List.perm_append_comm
      apply ih (by omega)
      refine ⟨hsums, fun j hj hj' => ?_, fun j hj hj' => ?_⟩
      · by_cases heq : j = i + 1
        · simp only [heq, Function.update_self, hsums.box]
        · simp only [Function.update_of_ne heq]
          exact hs.areas j (by omega) hj'
      · by_cases heq : j = i + 1
        · simp only [heq, Function.update_self, hsums.count]
        · simp only [Function.update_of_ne heq]
          exact hs.counts j (by omega) hj'

theorem blocks_zero (blockSize : Nat) : blocks blockSize 0 = 0 := by
  have hmod : (0 + BitVec.ofNat 32 (blockSize - 1)).toNat ≤ blockSize - 1 := by
    have hzero : (0 : BitVec 32) + BitVec.ofNat 32 (blockSize - 1) = BitVec.ofNat 32 (blockSize - 1) :=
      BitVec.zero_add _
    rw [hzero, BitVec.toNat_ofNat]
    exact Nat.mod_le ..
  rw [blocks]
  apply Nat.floor_eq_zero.2
  generalize (0 + BitVec.ofNat 32 (blockSize - 1)).toNat = n at hmod
  rcases Nat.eq_zero_or_pos blockSize with hzero | hpos
  · -- no caller passes a block size of zero
    rw [hzero, Nat.cast_zero, div_zero, mul_zero]
    exact one_pos
  · have hlt : (n : ℚ) < blockSize := by exact_mod_cast (by omega : n < blockSize)
    rw [mul_one_div]
    exact (div_lt_one (by exact_mod_cast hpos)).2 hlt

theorem mul_blocks_eq_nan {blockSize : Nat} {box : BBox3f} {count : BitVec 32} (h : Sums [] count box) :
    (expectedApproxHalfArea box).mul (blocks blockSize count) = .nan := by
  have hcount : count = 0 := h.count
  have hbox : box = ⊥ := h.box
  rw [hcount, hbox, blocks_zero]
  rfl

@[simp] theorem Area.nan_add (a : Area) : Area.nan.add a = .nan := rfl

@[simp] theorem Area.add_nan (a : Area) : a.add .nan = .nan := by
  cases a <;> rfl

theorem Area.nan_lt (a : Area) : Area.nan.lt a = false := rfl

/-- The position is between bins and has primitives on both sides. -/
structure Separates (m : BinMapping BINS) (l : List PrimRef) (dim : Fin 3) (pos : Nat) : Prop where
  pos_pos : 0 < pos
  pos_lt : pos < m.num
  left_ne : between m l dim 0 pos ≠ []
  right_ne : between m l dim pos m.num ≠ []

theorem Separates.of_lt {blockSize i : Nat} {right : BinInfo.RightSweep}
    (hright : RightSums m l dim 0 right) (hi : 0 < i) (hlt : i < m.num) {count : BitVec 32}
    {box : BBox3f} (hleft : Sums (between m l dim 0 i) count box) {best : Area}
    (hbetter : (((expectedApproxHalfArea box).mul (blocks blockSize count)).add
      ((right.rAreas i).mul (blocks blockSize (right.rCounts i)))).lt best = true) :
    Separates m l dim i := by
  have hrest :
      Sums (between m l dim i m.num) (right.rCounts i) (unionBounds (between m l dim i m.num)) :=
    ⟨hright.counts i hi hlt, rfl⟩
  refine ⟨hi, hlt, fun hempty => ?_, fun hempty => ?_⟩
  · rw [hempty] at hleft
    rw [mul_blocks_eq_nan hleft, Area.nan_add, Area.nan_lt] at hbetter
    exact Bool.noConfusion hbetter
  · have harea := hright.areas i hi hlt
    rw [hempty] at hrest harea
    rw [harea, mul_blocks_eq_nan hrest, Area.add_nan, Area.nan_lt] at hbetter
    exact Bool.noConfusion hbetter

theorem sweepLeft_spec (h : Binned m l info) {blockSize : Nat} {right : BinInfo.RightSweep}
    (hright : RightSums m l dim 0 right) {n i : Nat} (hi : 0 < i) (hn : i + n ≤ m.num)
    {s : BinInfo.LeftSweep} (hsums : Sums (between m l dim 0 (i - 1)) s.count s.box)
    (hbest : s.bestPos ≠ 0 → Separates m l dim s.bestPos) :
    (info.sweepLeft dim blockSize right n i s).bestPos ≠ 0 →
      Separates m l dim (info.sweepLeft dim blockSize right n i s).bestPos := by
  induction n generalizing i s with
  | zero => exact hbest
  | succ n ih =>
      have hleft : Sums (between m l dim 0 i) (s.count + info.counts (i - 1) dim)
          (s.box ⊔ info.bounds (i - 1) dim) := by
        have hbin := h (i - 1) dim
        rw [Nat.sub_add_cancel hi] at hbin
        exact hsums.append hbin (between_perm m l dim (Nat.zero_le _) (Nat.sub_le i 1))
      rw [BinInfo.sweepLeft]
      apply ih (Nat.succ_pos i) (by omega)
      · exact hleft
      · simp only
        split
        · rename_i hbetter
          intro _
          exact Separates.of_lt dim hright hi (by omega) hleft hbetter
        · exact hbest

theorem sweep_spec (h : Binned m l info) (blockSize : Nat)
    (hpos : (info.sweep m dim blockSize).bestPos ≠ 0) :
    Separates m l dim (info.sweep m dim blockSize).bestPos := by
  have hnum := m.num_pos
  have hstart : RightSums m l dim (m.num - 1) ⟨0, ⊥, fun _ => .finite 0, fun _ => 0⟩ := by
    refine ⟨?_, fun j hj hj' => ?_, fun j hj hj' => ?_⟩
    · rw [between_empty dim m l (by omega)]
      exact Sums.nil
    · omega
    · omega
  have hright := sweepRight_spec dim h (by omega) hstart
  apply sweepLeft_spec dim h hright Nat.one_pos (by omega) _ (fun hzero => absurd rfl hzero) hpos
  rw [between_empty dim m l (Nat.zero_le _)]
  exact Sums.nil

theorem bestDim_spec {vbest : Fin 3 → BinInfo.LeftSweep}
    (hvbest : ∀ dim, (vbest dim).bestPos ≠ 0 → Separates m l dim (vbest dim).bestPos)
    (dims : List (Fin 3)) {best : BinSplit BINS}
    (hbest : best.mapping = m ∧ ∀ dim, best.dim = some dim → Separates m l dim best.pos) :
    (BinInfo.bestDim m vbest dims best).mapping = m ∧
      ∀ dim, (BinInfo.bestDim m vbest dims best).dim = some dim →
        Separates m l dim (BinInfo.bestDim m vbest dims best).pos := by
  induction dims generalizing best with
  | nil => exact hbest
  | cons dim dims ih =>
      rw [BinInfo.bestDim]
      split
      · exact ih hbest
      · split
        · rename_i hbetter
          apply ih
          refine ⟨rfl, fun dim' hdim => ?_⟩
          obtain rfl := Option.some.inj hdim
          exact hvbest _ hbetter.2
        · exact ih hbest

/-- A valid split has primitives on both sides. -/
theorem bestBlockSize_separates (h : Binned m l info) (blockSize : Nat) :
    (info.bestBlockSize m blockSize).mapping = m ∧
      ∀ dim, (info.bestBlockSize m blockSize).dim = some dim →
        Separates m l dim (info.bestBlockSize m blockSize).pos := by
  apply bestDim_spec
  · intro dim
    exact sweep_spec dim h blockSize
  · exact ⟨rfl, fun dim hdim => absurd hdim (Option.some_ne_none dim).symm⟩

end sweeps

section splitInfo

variable {l : List PrimRef} {info : BinInfo} (dim : Fin 3)

theorem foldl_bounds (h : Binned m l info) (n lo : Nat) (box : BBox3f) :
    (List.range' lo n).foldl (fun box i => box ⊔ info.bounds i dim) box =
      box ⊔ unionBounds (between m l dim lo (lo + n)) := by
  induction n generalizing lo box with
  | zero =>
      rw [Nat.add_zero, between_empty dim m l (Nat.le_refl _)]
      exact (sup_bot_eq _).symm
  | succ n ih =>
      have hend : lo + (n + 1) = lo + 1 + n := by omega
      have hperm := between_perm m l dim (Nat.le_succ lo) (Nat.le_add_right (lo + 1) n)
      rw [List.range'_succ, List.foldl_cons, ih, hend, unionBounds_perm hperm, unionBounds_append,
        (h lo dim).box, sup_assoc]

theorem sum_lengths (m : BinMapping BINS) (l : List PrimRef) (n lo : Nat) :
    ((List.range' lo n).map (fun i => (between m l dim i (i + 1)).length)).sum =
      (between m l dim lo (lo + n)).length := by
  induction n generalizing lo with
  | zero =>
      rw [Nat.add_zero, between_empty dim m l (Nat.le_refl _)]
      rfl
  | succ n ih =>
      have hend : lo + (n + 1) = lo + 1 + n := by omega
      have hperm := between_perm m l dim (Nat.le_succ lo) (Nat.le_add_right (lo + 1) n)
      rw [List.range'_succ, List.map_cons, List.sum_cons, ih, hend, hperm.length_eq, List.length_append]

theorem toNat_counts (h : Binned m l info) (i : Nat) :
    (info.counts i dim).toNat = (between m l dim i (i + 1)).length % 2 ^ 32 := by
  rw [(h i dim).count, BitVec.toNat_ofNat]

theorem sum_counts_modEq (h : Binned m l info) (n lo : Nat) :
    (between m l dim lo (lo + n)).length ≡
      ((List.range' lo n).map (fun i => (info.counts i dim).toNat)).sum [MOD 2 ^ 32] := by
  rw [← sum_lengths]
  induction List.range' lo n with
  | nil => rfl
  | cons i is ih =>
      rw [List.map_cons, List.map_cons, List.sum_cons, List.sum_cons, toNat_counts dim h]
      exact (Nat.mod_modEq _ _).symm.add ih

theorem sum_counts (h : Binned m l info) (hl : l.length < 2 ^ 32) (n lo : Nat) :
    (between m l dim lo (lo + n)).length =
      ((List.range' lo n).map (fun i => (info.counts i dim).toNat)).sum := by
  rw [← sum_lengths]
  congr 1
  apply List.map_congr_left
  intro i _
  have hlt : (between m l dim i (i + 1)).length < 2 ^ 32 := (List.length_filter_le _ _).trans_lt hl
  rw [toNat_counts dim h, Nat.mod_eq_of_lt hlt]

end splitInfo

theorem filter_isLeft {l : List PrimRef} {dim : Fin 3} {pos : Nat} (hpos : 0 < pos) (hlt : pos < m.num) :
    l.filter (m.isLeft dim pos) = between m l dim 0 pos ∧
      l.filter (fun ref => !m.isLeft dim pos ref) = between m l dim pos m.num := by
  constructor
  · apply List.filter_congr
    intro ref _
    rw [Bool.eq_iff_iff, m.isLeft_iff hpos hlt]
    simp only [Bool.and_eq_true, decide_eq_true_eq]
    omega
  · apply List.filter_congr
    intro ref _
    have hbin := m.bin_lt ref.center2 dim
    rw [Bool.eq_iff_iff, Bool.not_eq_true', ← Bool.not_eq_true, m.isLeft_iff hpos hlt]
    simp only [Bool.and_eq_true, decide_eq_true_eq]
    omega

theorem binnedSplit_sides (h : Heuristic) (isLeft : PrimRef → Bool) (prims : Nat → PrimRef)
    {set : PrimInfoRange} (hle : set.begin_ ≤ set.end_) :
    (slice (Splits.binnedSplit h isLeft prims set).prims
      (Splits.binnedSplit h isLeft prims set).linfo.begin_
        (Splits.binnedSplit h isLeft prims set).linfo.end_).Perm
          ((slice prims set.begin_ set.end_).filter isLeft) ∧
      (slice (Splits.binnedSplit h isLeft prims set).prims
        (Splits.binnedSplit h isLeft prims set).rinfo.begin_
        (Splits.binnedSplit h isLeft prims set).rinfo.end_).Perm
          ((slice prims set.begin_ set.end_).filter (fun ref => !isLeft ref)) := by
  rw [Splits.binnedSplit]
  split
  · exact (Partition.serialPartitioning_spec isLeft CentGeomBBox.extendCenter2 prims
      .empty .empty hle).sides_perm
  · exact (Partition.parallelPartitioning_spec CentGeomBBox.merge_foldl prims
      .empty .empty hle (by decide) h.threadCount_pos).sides_perm

theorem exists_of_filter_ne_nil {isLeft : PrimRef → Bool} {prims : Nat → PrimRef} {lo hi : Nat}
    (hne : (slice prims lo hi).filter isLeft ≠ []) : ∃ i, lo ≤ i ∧ i < hi ∧ isLeft (prims i) = true := by
  obtain ⟨ref, href⟩ := List.exists_mem_of_ne_nil _ hne
  obtain ⟨hmem, hleft⟩ := List.mem_filter.1 href
  obtain ⟨i, hi, hi', rfl⟩ := mem_slice.1 hmem
  exact ⟨i, hi, hi', hleft⟩

structure Valid (m : BinMapping BINS) (l : List PrimRef) (split : BinSplit BINS)
    (dim : Fin 3) : Prop where
  separates : Separates m l dim split.pos
  isLeft_eq : split.isLeft = m.isLeft dim split.pos

theorem bestBlockSize_valid {m : BinMapping BINS} {t : Reduce.Tree PrimRef} {blockSize : Nat}
    {dim : Fin 3} (hdim : ((binned m t).bestBlockSize m blockSize).dim = some dim) :
    Valid m t.items ((binned m t).bestBlockSize m blockSize) dim := by
  obtain ⟨hmapping, hseparates⟩ := bestBlockSize_separates (binned_spec m t) blockSize
  refine ⟨hseparates dim hdim, ?_⟩
  funext ref
  rw [BinSplit.isLeft, hdim, hmapping]

theorem Valid.filter {l : List PrimRef} {split : BinSplit BINS} {dim : Fin 3} (h : Valid m l split dim) :
    l.filter split.isLeft = between m l dim 0 split.pos ∧
      l.filter (fun ref => !split.isLeft ref) = between m l dim split.pos m.num := by
  rw [h.isLeft_eq]
  exact filter_isLeft h.separates.pos_pos h.separates.pos_lt

theorem Valid.exists_sides {prims : Nat → PrimRef} {lo hi : Nat} {split : BinSplit BINS} {dim : Fin 3}
    (h : Valid m (slice prims lo hi) split dim) :
    (∃ i, lo ≤ i ∧ i < hi ∧ split.isLeft (prims i) = true) ∧ ∃ i, lo ≤ i ∧ i < hi ∧
      split.isLeft (prims i) = false := by
  constructor
  · apply exists_of_filter_ne_nil
    rw [h.filter.1]
    exact h.separates.left_ne
  · have hright := h.separates.right_ne
    rw [← h.filter.2] at hright
    obtain ⟨i, hi, hi', hnot⟩ := exists_of_filter_ne_nil hright
    exact ⟨i, hi, hi', by simpa using hnot⟩

/-- Splitting at a valid position divides a record as the bins say. The counters
of the bins have 32 bits, and a block size of 0 never comes up. -/
theorem bestBlockSize_partition (m : BinMapping BINS) (t : Reduce.Tree PrimRef) (blockSize : Nat)
    (h : Heuristic) (prims : Nat → PrimRef) (r : BuildRecord)
    (hitems : t.items = slice prims r.begin_ r.end_) (dim : Fin 3)
    (hdim : ((binned m t).bestBlockSize m blockSize).dim = some dim) :
    let split := (binned m t).bestBlockSize m blockSize
    let info := (binned m t).getSplitInfo m dim split.pos
    let s := Splits.binnedSplit h split.isLeft prims r.prims
    (∀ ref, split.isLeft ref = true ↔ m.bin ref.center2 dim < split.pos) ∧
    (s.linfo.end_ - s.linfo.begin_ ≡ info.leftCount [MOD 2 ^ 32] ∧
      s.rinfo.end_ - s.rinfo.begin_ ≡ info.rightCount [MOD 2 ^ 32]) ∧
    (r.size < 2 ^ 32 → s.linfo.end_ - s.linfo.begin_ = info.leftCount ∧
      s.rinfo.end_ - s.rinfo.begin_ = info.rightCount) ∧
    (s.linfo.geomBounds = info.leftBounds ∧ s.rinfo.geomBounds = info.rightBounds) ∧
    (s.linfo.begin_ < s.linfo.end_ ∧ s.rinfo.begin_ < s.rinfo.end_) ∧
    ∀ depth, h.findBlockSize blockSize prims r.prims = some split.isLeft →
      (Splits.sahSplit h depth blockSize prims r).left.size < r.size ∧
        (Splits.sahSplit h depth blockSize prims r).right.size < r.size := by
  intro split info s
  have hbinned := binned_spec m t
  have hvalid : Valid m t.items split dim := bestBlockSize_valid hdim
  rw [hitems] at hbinned hvalid
  obtain ⟨hleft, hright⟩ := hvalid.exists_sides
  have hle : r.begin_ ≤ r.end_ := by
    obtain ⟨i, hi, hi', -⟩ := hleft
    omega
  have hdivides : Splits.Divides prims r.begin_ r.end_ s := Splits.binnedSplit_divides hleft hright
  obtain ⟨hlperm, hrperm⟩ := binnedSplit_sides h split.isLeft prims hle
  change (slice s.prims s.linfo.begin_ s.linfo.end_).Perm
      ((slice prims r.begin_ r.end_).filter split.isLeft) at hlperm
  change (slice s.prims s.rinfo.begin_ s.rinfo.end_).Perm
    ((slice prims r.begin_ r.end_).filter (fun ref => !split.isLeft ref)) at hrperm
  rw [hvalid.filter.1] at hlperm
  rw [hvalid.filter.2] at hrperm
  have hpos := hvalid.separates.pos_lt.le
  have hlast : split.pos + (m.num - split.pos) = m.num := Nat.add_sub_cancel' hpos
  have hllength := hlperm.length_eq
  have hrlength := hrperm.length_eq
  rw [length_slice] at hllength hrlength
  refine ⟨fun ref => ?_, ⟨?_, ?_⟩, fun hsize => ⟨?_, ?_⟩, ⟨?_, ?_⟩, ⟨?_, ?_⟩, fun depth hfind => ?_⟩
  · rw [hvalid.isLeft_eq]
    exact m.isLeft_iff hvalid.separates.pos_pos hvalid.separates.pos_lt ref
  · have hsum := sum_counts_modEq dim hbinned split.pos 0
    rw [Nat.zero_add, ← hllength] at hsum
    exact hsum
  · have hsum := sum_counts_modEq dim hbinned (m.num - split.pos) split.pos
    rw [hlast, ← hrlength] at hsum
    exact hsum
  · have hsum := sum_counts dim hbinned (by rwa [length_slice]) split.pos 0
    rw [Nat.zero_add, ← hllength] at hsum
    exact hsum
  · have hsum := sum_counts dim hbinned (by rwa [length_slice]) (m.num - split.pos) split.pos
    rw [hlast, ← hrlength] at hsum
    exact hsum
  · have hbounds := foldl_bounds dim hbinned split.pos 0 ⊥
    rw [Nat.zero_add, bot_sup_eq, ← unionBounds_perm hlperm, hdivides.lbegin] at hbounds
    exact hdivides.lbounds.trans hbounds.symm
  · have hbounds := foldl_bounds dim hbinned (m.num - split.pos) split.pos ⊥
    rw [hlast, bot_sup_eq, ← unionBounds_perm hrperm, hdivides.meet, hdivides.rend] at hbounds
    exact hdivides.rbounds.trans hbounds.symm
  · rw [hdivides.lbegin]
    exact hdivides.lnonempty
  · rw [hdivides.meet, hdivides.rend]
    exact hdivides.rnonempty
  · have hsplit : Splits.sahSplit h depth blockSize prims r =
        ⟨s.prims, ⟨depth + 1, s.linfo, r.type⟩, ⟨depth + 1, s.rinfo, r.type⟩⟩ := by
      rw [Splits.sahSplit, hfind]
    have hlnonempty := hdivides.lnonempty
    have hrnonempty := hdivides.rnonempty
    rw [hsplit]
    simp only [BuildRecord.size, BuildRecord.begin_, BuildRecord.end_] at hlnonempty hrnonempty ⊢
    rw [hdivides.lbegin, hdivides.meet, hdivides.rend]
    simp only [BuildRecord.begin_, BuildRecord.end_]
    omega

end bins

section builder

def BINS : Nat := 32

def BinMapping.ofPrimInfo (set : PrimInfoRange) : BinMapping BINS :=
  let num := min BINS ⌊(4 + 5 / 100 * (set.end_ - set.begin_ : Nat) : ℚ)⌋₊
  have hfour : 4 ≤ ⌊(4 + 5 / 100 * (set.end_ - set.begin_ : Nat) : ℚ)⌋₊ :=
    Nat.le_floor (le_add_of_nonneg_right (by positivity))
  let eps : ℚ := 1 / 10 ^ 34
  let scale (size : ℚ) : ℚ := if eps < max eps size then 99 / 100 * num / max eps size else 0
  let (ofs, size) : Vec3f × Vec3f := match set.centBounds with
    | ⊥ => (0, 0)
    | (box : NonemptyInterval Vec3f) => (box.fst, box.snd - box.fst)
  { num
    num_pos := Nat.lt_min.2 ⟨Nat.succ_pos 31, Nat.lt_of_lt_of_le (Nat.succ_pos 3) hfour⟩
    num_le := Nat.min_le_left ..
    ofs
    scale := (scale size.1, scale size.2.1, scale size.2.2) }

/-- find_block_size, where chunks says how a large range is cut for the parallel reduction. -/
def findBlockSize (chunks : List PrimRef → Reduce.Tree PrimRef) (blockSize : Nat) (prims : Nat → PrimRef)
    (set : PrimInfoRange) : BinSplit BINS :=
  let mapping := BinMapping.ofPrimInfo set
  let list := slice prims set.begin_ set.end_
  (binned mapping (if set.end_ - set.begin_ < Splits.parallelThreshold then .chunk list
    else chunks list)).bestBlockSize
    mapping blockSize

def Heuristic.binning (h : Heuristic) (chunks : List PrimRef → Reduce.Tree PrimRef)
    (hchunks : ∀ list, (chunks list).items = list) : Heuristic where
  threadCount := h.threadCount
  threadCount_pos := h.threadCount_pos
  findBlockSize blockSize prims set :=
    let split := findBlockSize chunks blockSize prims set
    split.dim.map (fun _ => split.isLeft)
  findBlockSize_valid blockSize prims set isLeft hfind := by
    obtain ⟨dim, hdim, rfl⟩ := Option.map_eq_some_iff.1 hfind
    have hvalid := bestBlockSize_valid hdim
    have hitems : (if set.end_ - set.begin_ < Splits.parallelThreshold then
        .chunk (slice prims set.begin_ set.end_) else chunks (slice prims set.begin_ set.end_)).items =
          slice prims set.begin_ set.end_ := by
      split
      · rfl
      · exact hchunks _
    rw [hitems] at hvalid
    exact hvalid.exists_sides
  halfArea := h.halfArea
  sortBySize := h.sortBySize
  sortBySize_perm := h.sortBySize_perm
  sortByArea := h.sortByArea
  sortByArea_perm := h.sortByArea_perm

end builder

def lineMapping : BinMapping BINS := ⟨3, by decide, by decide, 0, (1 / 2, 0, 0)⟩

theorem bestBlockSize_partition_line :
    let split := (binned lineMapping (.chunk (slice (linePrims 1) 0 3))).bestBlockSize lineMapping 1
    let s := Splits.binnedSplit .median split.isLeft (linePrims 1) ⟨.empty, 0, 3⟩
    s.linfo.begin_ < s.linfo.end_ ∧ s.rinfo.begin_ < s.rinfo.end_ := by
  have h := bestBlockSize_partition lineMapping (.chunk (slice (linePrims 1) 0 3)) 1 .median
    (linePrims 1) ⟨0, ⟨.empty, 0, 3⟩, none⟩ rfl 0 (by decide +kernel)
  exact h.2.2.2.2.1

/-- The counters tell lists apart only up to multiples of 2^32. -/
theorem Binned.congr {BINS : Nat} {m : BinMapping BINS} {l l' : List PrimRef} {a b : BinInfo}
    (h : Binned m l a) (h' : Binned m l' b)
    (hcount : ∀ i dim, (between m l dim i (i + 1)).length ≡
      (between m l' dim i (i + 1)).length [MOD 2 ^ 32])
    (hbox : ∀ i dim, unionBounds (between m l dim i (i + 1)) =
      unionBounds (between m l' dim i (i + 1))) : a = b := by
  obtain ⟨counts, bounds⟩ := a
  obtain ⟨counts', bounds'⟩ := b
  rw [BinInfo.mk.injEq]
  constructor
  · funext i dim
    refine (h i dim).count.trans (Eq.trans ?_ (h' i dim).count.symm)
    exact BitVec.eq_of_toNat_eq (by simpa [Nat.ModEq] using hcount i dim)
  · funext i dim
    exact (h i dim).box.trans ((hbox i dim).trans (h' i dim).box.symm)

theorem between_of_bounds {BINS : Nat} (m : BinMapping BINS) {l : List PrimRef}
    {box : NonemptyInterval Vec3f} (h : ∀ prim ∈ l, prim.bounds = box) (dim : Fin 3) (i : Nat) :
    between m l dim i (i + 1) = if m.bin (center2 box) dim = i then l else [] := by
  split
  case isTrue heq =>
    refine List.filter_eq_self.2 (fun prim hprim => ?_)
    simp [PrimRef.center2, h prim hprim, heq]
  case isFalse hne =>
    refine List.filter_eq_nil_iff.2 (fun prim hprim => ?_)
    simp only [PrimRef.center2, h prim hprim, Bool.and_eq_true, decide_eq_true_eq]
    omega

theorem unionBounds_of_bounds {box : NonemptyInterval Vec3f} {l : List PrimRef} (hne : l ≠ [])
    (h : ∀ prim ∈ l, prim.bounds = box) : unionBounds l = box := by
  induction l with
  | nil => exact absurd rfl hne
  | cons prim l ih =>
      have hprim := h prim (List.mem_cons_self ..)
      change (prim.bounds : BBox3f) ⊔ unionBounds l = box
      cases l with
      | nil => exact congrArg _ hprim
      | cons prim' l =>
          rw [ih (List.cons_ne_nil _ _) (fun p hp => h p (List.mem_cons_of_mem _ hp)), hprim, sup_idem]

def manyPrims (i : Nat) : PrimRef :=
  ⟨.pure (if i ≤ 2 ^ 32 then 0 else 1, 0, 0), Fin.ofNat _ (i / 2 ^ 32), Fin.ofNat _ i⟩

theorem manyPrims_bounds : ∀ prim ∈ slice manyPrims 0 (2 ^ 32 + 1), prim.bounds = .pure 0 := by
  intro prim hprim
  obtain ⟨i, _, hi, rfl⟩ := mem_slice.1 hprim
  rw [manyPrims, if_pos (Nat.le_of_lt_succ hi)]
  rfl

theorem between_manyPrims (dim : Fin 3) (i : Nat) :
    between lineMapping (slice manyPrims 0 (2 ^ 32 + 2)) dim i (i + 1) =
      (if lineMapping.bin (center2 (.pure 0)) dim = i then slice manyPrims 0 (2 ^ 32 + 1) else []) ++
        between lineMapping [manyPrims (2 ^ 32 + 1)] dim i (i + 1) := by
  have hslice : slice manyPrims 0 (2 ^ 32 + 2) =
      slice manyPrims 0 (2 ^ 32 + 1) ++ [manyPrims (2 ^ 32 + 1)] :=
    slice_succ manyPrims (Nat.zero_le _)
  rw [hslice, between, List.filter_append]
  exact congrArg (· ++ _) (between_of_bounds lineMapping manyPrims_bounds dim i)

/-- The bins do not tell the many points from one. -/
theorem binned_manyPrims : binned lineMapping (.chunk (slice manyPrims 0 (2 ^ 32 + 2))) =
    binned lineMapping (.chunk [manyPrims 0, manyPrims (2 ^ 32 + 1)]) := by
  have hone : ∀ prim ∈ [manyPrims 0], prim.bounds = .pure 0 :=
    fun prim hprim => List.mem_singleton.1 hprim ▸ rfl
  have hbetween : ∀ dim i, between lineMapping [manyPrims 0, manyPrims (2 ^ 32 + 1)] dim i (i + 1) =
      (if lineMapping.bin (center2 (.pure 0)) dim = i then [manyPrims 0] else []) ++
        between lineMapping [manyPrims (2 ^ 32 + 1)] dim i (i + 1) := by
    intro dim i
    rw [← List.singleton_append, between, List.filter_append]
    exact congrArg (· ++ _) (between_of_bounds lineMapping hone dim i)
  apply (binned_spec _ _).congr (binned_spec _ _)
  · intro i dim
    simp only [Reduce.Tree.items]
    rw [between_manyPrims, hbetween, List.length_append, List.length_append]
    apply Nat.ModEq.add_right
    split
    · rw [length_slice]
      rfl
    · rfl
  · intro i dim
    simp only [Reduce.Tree.items]
    rw [between_manyPrims, hbetween, unionBounds_append, unionBounds_append]
    congr 1
    split
    · rw [unionBounds_of_bounds _ manyPrims_bounds, unionBounds_of_bounds (List.cons_ne_nil _ _) hone]
      rw [← List.length_pos_iff, length_slice]
      decide
    · rfl

/-- With 2^32 + 1 primitives to the left of a split the counter of the only bin there says 1. -/
theorem not_leftCount_manyPrims :
    let info := binned lineMapping (.chunk (slice manyPrims 0 (2 ^ 32 + 2)))
    let split := info.bestBlockSize lineMapping 1
    let s := Splits.binnedSplit .median split.isLeft manyPrims ⟨.empty, 0, 2 ^ 32 + 2⟩
    split.dim = some 0 ∧ s.linfo.end_ - s.linfo.begin_ = 2 ^ 32 + 1 ∧
      (info.getSplitInfo lineMapping 0 split.pos).leftCount = 1 := by
  intro info split s
  have hinfo : info = binned lineMapping (.chunk [manyPrims 0, manyPrims (2 ^ 32 + 1)]) :=
    binned_manyPrims
  have hdim : split.dim = some 0 := by
    simp only [split, hinfo]
    decide +kernel
  have hpos : split.pos = 1 := by
    simp only [split, hinfo]
    decide +kernel
  have hvalid : Valid lineMapping (slice manyPrims 0 (2 ^ 32 + 2)) split 0 := bestBlockSize_valid hdim
  have hle : (⟨.empty, 0, 2 ^ 32 + 2⟩ : PrimInfoRange).begin_ ≤ 2 ^ 32 + 2 := Nat.zero_le _
  have hlength := (binnedSplit_sides .median split.isLeft manyPrims hle).1.length_eq
  rw [length_slice] at hlength
  refine ⟨hdim, hlength.trans ?_, ?_⟩
  · change ((slice manyPrims 0 (2 ^ 32 + 2)).filter split.isLeft).length = 2 ^ 32 + 1
    have hbin : lineMapping.bin (center2 (.pure 0)) 0 = 0 := by decide +kernel
    have hnone : between lineMapping [manyPrims (2 ^ 32 + 1)] 0 0 (0 + 1) = [] := by decide +kernel
    rw [hvalid.filter.1, hpos, between_manyPrims, if_pos hbin, hnone, List.append_nil, length_slice,
      Nat.sub_zero]
  · rw [hpos, hinfo]
    decide +kernel

end RTBuild.Binning
