import RTBuild.Library.HighBit
import RTBuild.PrimRef

namespace RTBuild

open Library.HighBit

abbrev Vec3ia := Fin 3 → BitVec 32

def spreadBits (x : BitVec 32) : BitVec 32 :=
  let x := (x ||| x <<< 16) &&& 0x030000FF
  let x := (x ||| x <<< 8) &&& 0x0300F00F
  let x := (x ||| x <<< 4) &&& 0x030C30C3
  (x ||| x <<< 2) &&& 0x09249249

def bitInterleave (xin yin zin : BitVec 32) : BitVec 32 :=
  spreadBits xin ||| spreadBits yin <<< 1 ||| spreadBits zin <<< 2

def bsr (v : BitVec 32) : Nat := v.toNat.log2

def lzcnt (x : BitVec 32) : Nat := if x = 0 then 32 else 31 - bsr x

namespace SplittingGrid

def gridSize : Nat := 1024

def code (cell : Vec3ia) : BitVec 32 := bitInterleave (cell 0) (cell 1) (cell 2)

/-- The integers that split_pos computes, without the plane in world space. -/
structure SplitPos where
  diff : Nat
  level : Nat
  dim : Fin 3
  isplit : BitVec 32

def splitPos (ilower iupper : Vec3ia) : Option SplitPos :=
  let lowerCode := code ilower
  let upperCode := code iupper
  if lowerCode = upperCode then none
  else
    let diff := 31 - lzcnt (lowerCode ^^^ upperCode)
    let level := diff / 3
    let dim : Fin 3 := Fin.ofNat 3 diff
    some ⟨diff, level, dim, iupper dim &&& ~~~(1#32 <<< level - 1)⟩

structure Cells where
  ilower : Vec3ia
  iupper : Vec3ia
  le : ∀ dim, (ilower dim).toNat ≤ (iupper dim).toNat
  lt : ∀ dim, (iupper dim).toNat < gridSize

structure Splits (s : SplitPos) (c left right : Cells) : Prop where
  left_lower : left.ilower = c.ilower
  left_upper : left.iupper = Function.update c.iupper s.dim (s.isplit - 1)
  right_lower : right.ilower = Function.update c.ilower s.dim s.isplit
  right_upper : right.iupper = c.iupper

theorem getLsbD_of_lt {x : BitVec 32} (hx : x.toNat < gridSize) {i : Nat} (hi : 10 ≤ i) :
    x.getLsbD i = false :=
  Nat.testBit_lt_two_pow (hx.trans_le (Nat.pow_le_pow_right Nat.two_pos hi))

theorem getLsbD_spreadBits {x : BitVec 32} (hx : x.toNat < gridSize) {i : Nat} (hi : i < 32) :
    (spreadBits x).getLsbD i = (decide (i % 3 = 0) && x.getLsbD (i / 3)) := by
  have hhigh : ∀ i (h : i < 32), 10 ≤ i → x[i] = false := fun i h hi => getLsbD_of_lt hx hi
  interval_cases i <;> simp [spreadBits, hhigh]

def InGrid (cell : Vec3ia) : Prop := ∀ dim, (cell dim).toNat < gridSize

theorem getLsbD_spreadBits_shiftLeft {x : BitVec 32} (hx : x.toNat < gridSize) (shift dim : Fin 3)
    {k : Nat} (hk : 3 * k + dim < 32) :
    (spreadBits x <<< shift.val).getLsbD (3 * k + dim) = (decide (dim = shift) && x.getLsbD k) := by
  rw [BitVec.getLsbD_shiftLeft]
  by_cases hlt : 3 * k + dim < shift
  · have hne : dim ≠ shift := fun h => by omega
    simp [hlt, hne]
  · rw [getLsbD_spreadBits hx (by omega)]
    by_cases hdim : dim = shift
    · subst hdim
      simp [hk]
    · have hmod : (3 * k + dim - shift) % 3 ≠ 0 := by omega
      simp [hmod, hdim]

theorem getLsbD_code {cell : Vec3ia} (h : InGrid cell) (k : Nat) (dim : Fin 3) :
    (code cell).getLsbD (3 * k + dim) = (cell dim).getLsbD k := by
  by_cases hk : 3 * k + dim < 32
  · have hx := getLsbD_spreadBits_shiftLeft (h 0) 0 dim hk
    have hy := getLsbD_spreadBits_shiftLeft (h 1) 1 dim hk
    have hz := getLsbD_spreadBits_shiftLeft (h 2) 2 dim hk
    rw [Fin.val_zero, BitVec.shiftLeft_zero] at hx
    rw [code, bitInterleave, BitVec.getLsbD_or, BitVec.getLsbD_or]
    exact (congrArg₂ or (congrArg₂ or hx hy) hz).trans (by fin_cases dim <;> simp)
  · rw [getLsbD_of_lt (h dim) (by omega), BitVec.getLsbD_of_ge _ _ (Nat.le_of_not_lt hk)]

/-- Codes agree from a bit on when all components agree on the bits that are interleaved there. -/
theorem agreeFrom_code {p q : Vec3ia} (hp : InGrid p) (hq : InGrid q) {l : Nat} :
    AgreeFrom l (code p).toNat (code q).toNat ↔
      ∀ (k : Nat) (dim : Fin 3), l ≤ 3 * k + dim →
        (p dim).toNat.testBit k = (q dim).toNat.testBit k := by
  constructor
  · intro h k dim hl
    have hbit := h _ hl
    rwa [BitVec.testBit_toNat, BitVec.testBit_toNat, getLsbD_code hp, getLsbD_code hq] at hbit
  · intro h i hi
    have hdiv : 3 * (i / 3) + (Fin.ofNat 3 i).val = i := Nat.div_add_mod i 3
    have hbit := h (i / 3) (Fin.ofNat 3 i) (hdiv.symm ▸ hi)
    rwa [← hdiv, BitVec.testBit_toNat, BitVec.testBit_toNat, getLsbD_code hp, getLsbD_code hq]

theorem code_inj {p q : Vec3ia} (hp : InGrid p) (hq : InGrid q) : code p = code q ↔ p = q := by
  refine ⟨fun hcode => ?_, fun h => congrArg code h⟩
  have hagree : AgreeFrom 0 (code p).toNat (code q).toNat := fun i _ => by rw [hcode]
  funext dim
  apply BitVec.eq_of_toNat_eq
  apply Nat.eq_of_testBit_eq
  exact fun k => (agreeFrom_code hp hq).1 hagree k dim (Nat.zero_le _)

/-- The difference counts up to the highest bit where the codes differ. -/
theorem diff_eq {x : BitVec 32} (hx : x ≠ 0) : 31 - lzcnt x = x.toNat.log2 := by
  have hlog : x.toNat.log2 < 32 := (Nat.log2_lt (fun h => hx (BitVec.eq_of_toNat_eq h))).2 x.isLt
  rw [lzcnt, if_neg hx, bsr]
  omega

theorem toNat_isplit (x : BitVec 32) {level : Nat} (h : level < 32) :
    (x &&& ~~~(1#32 <<< level - 1)).toNat = x.toNat / 2 ^ level * 2 ^ level := by
  have hpow : 2 ^ level < 2 ^ 32 := Nat.pow_lt_pow_right (by decide) h
  have hmask : (1#32 <<< level - 1).toNat = 2 ^ level - 1 := by
    have htwo : (1#32 <<< level).toNat = 2 ^ level := BitVec.toNat_twoPow_of_lt h
    have hle : 1#32 ≤ 1#32 <<< level := by
      rw [BitVec.le_def, htwo]
      exact Nat.one_le_two_pow
    change (1#32 <<< level - 1#32).toNat = _
    rw [BitVec.toNat_sub_of_le hle, htwo]
    rfl
  apply Nat.eq_of_testBit_eq
  intro i
  rw [Nat.testBit_mul_two_pow, Nat.testBit_div_two_pow, BitVec.testBit_toNat, BitVec.getLsbD_and,
    BitVec.getLsbD_not, ← BitVec.testBit_toNat (1#32 <<< level - 1), hmask, Nat.testBit_two_pow_sub_one]
  by_cases hi : level ≤ i
  · rw [Nat.sub_add_cancel hi, BitVec.testBit_toNat]
    by_cases hlt : i < 32
    · simp [hi, hlt]
    · simp [BitVec.getLsbD_of_ge x i (Nat.le_of_not_lt hlt)]
  · simp [hi, Nat.lt_of_not_le hi]

theorem Cells.inGrid_upper (c : Cells) : InGrid c.iupper := c.lt

theorem Cells.inGrid_lower (c : Cells) : InGrid c.ilower := fun dim => (c.le dim).trans_lt (c.lt dim)

/-- What split_pos computes from the highest bit where the codes differ. -/
structure SplitPos.Describes (s : SplitPos) (c : Cells) : Prop where
  level_eq : s.level = s.diff / 3
  dim_eq : s.dim.val = s.diff % 3
  level_lt : s.level < 10
  isplit_eq : s.isplit.toNat = (c.iupper s.dim).toNat / 2 ^ s.level * 2 ^ s.level
  upper_div : (c.iupper s.dim).toNat / 2 ^ s.level = (c.ilower s.dim).toNat / 2 ^ s.level + 1
  agree : AgreeFrom (s.diff + 1) (code c.ilower).toNat (code c.iupper).toNat
  differ : (code c.ilower).toNat.testBit s.diff ≠ (code c.iupper).toNat.testBit s.diff

theorem splitPos_describes {c : Cells} {s : SplitPos} (h : splitPos c.ilower c.iupper = some s) :
    s.Describes c := by
  rw [splitPos] at h
  split at h
  · cases h
  · next hne =>
      have hxor : code c.ilower ^^^ code c.iupper ≠ 0 := fun h => hne (BitVec.xor_eq_zero_iff.1 h)
      have hne' : (code c.ilower).toNat ≠ (code c.iupper).toNat := fun h => hne (BitVec.eq_of_toNat_eq h)
      have hdiffer := testBit_log2_ne hne'
      have hagree := agreeFrom_log2 hne'
      rw [diff_eq hxor, BitVec.toNat_xor] at h
      generalize ((code c.ilower).toNat ^^^ (code c.iupper).toNat).log2 = diff at h hdiffer hagree
      obtain rfl := Option.some.inj h
      have hdiv : 3 * (diff / 3) + (Fin.ofNat 3 diff).val = diff := Nat.div_add_mod diff 3
      -- the bit of the code is bit level of the component
      have hbit : (c.ilower (Fin.ofNat 3 diff)).toNat.testBit (diff / 3) ≠
          (c.iupper (Fin.ofNat 3 diff)).toNat.testBit (diff / 3) := by
        have hcode := hdiffer
        rwa [← hdiv, BitVec.testBit_toNat, BitVec.testBit_toNat, getLsbD_code c.inGrid_lower,
          getLsbD_code c.inGrid_upper] at hcode
      have hlevel : diff / 3 < 10 := by
        by_contra hge
        apply hbit
        rw [BitVec.testBit_toNat, BitVec.testBit_toNat,
          getLsbD_of_lt (c.inGrid_lower _) (Nat.le_of_not_lt hge),
          getLsbD_of_lt (c.inGrid_upper _) (Nat.le_of_not_lt hge)]
      have habove : AgreeFrom (diff / 3 + 1) (c.ilower (Fin.ofNat 3 diff)).toNat
          (c.iupper (Fin.ofNat 3 diff)).toNat := by
        intro k hk
        exact (agreeFrom_code c.inGrid_lower c.inGrid_upper).1 hagree k _ (by omega)
      exact ⟨rfl, rfl, hlevel, toNat_isplit _ (hlevel.trans (by decide)),
        div_eq_succ (c.le _) hbit habove, hagree, hdiffer⟩

namespace SplitPos.Describes

variable {c : Cells} {s : SplitPos} (h : s.Describes c)

include h

theorem diff_eq : 3 * s.level + s.dim = s.diff := by
  rw [h.level_eq, h.dim_eq]
  exact Nat.div_add_mod _ _

theorem diff_lt {l : Nat} (hagree : AgreeFrom l (code c.ilower).toNat (code c.iupper).toNat) :
    s.diff < l := by
  by_contra hle
  exact h.differ (hagree _ (Nat.le_of_not_lt hle))

theorem lower_lt : (c.ilower s.dim).toNat < s.isplit.toNat := by
  rw [h.isplit_eq, h.upper_div, Nat.add_mul, Nat.one_mul]
  exact Nat.lt_div_mul_add (Nat.two_pow_pos _)

theorem le_upper : s.isplit.toNat ≤ (c.iupper s.dim).toNat := by
  rw [h.isplit_eq]
  exact Nat.div_mul_le_self _ _

theorem dvd : 2 ^ s.level ∣ s.isplit.toNat := by
  rw [h.isplit_eq]
  exact Nat.dvd_mul_left _ _

theorem toNat_pred : (s.isplit - 1).toNat = s.isplit.toNat - 1 := by
  have hpos := h.lower_lt
  have hle : 1#32 ≤ s.isplit := by
    rw [BitVec.le_def, BitVec.toNat_one (by decide)]
    omega
  exact BitVec.toNat_sub_of_le hle

theorem isplit_div : s.isplit.toNat / 2 ^ s.level = (c.iupper s.dim).toNat / 2 ^ s.level := by
  rw [h.isplit_eq]
  exact Nat.mul_div_cancel _ (Nat.two_pow_pos _)

theorem pred_div : (s.isplit - 1).toNat / 2 ^ s.level = (c.ilower s.dim).toNat / 2 ^ s.level := by
  have hpow := Nat.two_pow_pos s.level
  rw [h.toNat_pred, h.isplit_eq, h.upper_div]
  apply Nat.div_eq_of_lt_le
  · rw [Nat.add_mul, Nat.one_mul]
    omega
  · exact Nat.sub_lt (Nat.mul_pos (Nat.succ_pos _) hpow) Nat.one_pos

/-- Cells that differ from the given ones in the chosen dimension only, and there below the level
only, have codes that differ in lower bits. -/
theorem agree_of {p q : Vec3ia} (hp : InGrid p) (hq : InGrid q)
    (hdim : (p s.dim).toNat / 2 ^ s.level = (q s.dim).toNat / 2 ^ s.level)
    (hothers : ∀ dim, dim ≠ s.dim → p dim = c.ilower dim ∧ q dim = c.iupper dim) :
    AgreeFrom s.diff (code p).toNat (code q).toNat := by
  have hdiff := h.diff_eq
  apply (agreeFrom_code hp hq).2
  intro k dim hk
  by_cases heq : dim = s.dim
  · subst heq
    exact agreeFrom_iff.2 hdim k (by omega)
  · obtain ⟨hlower, hupper⟩ := hothers dim heq
    rw [hlower, hupper]
    have hne : dim.val ≠ s.dim.val := fun h => heq (Fin.ext h)
    exact (agreeFrom_code c.inGrid_lower c.inGrid_upper).1 h.agree k dim (by omega)

def left : Cells where
  ilower := c.ilower
  iupper := Function.update c.iupper s.dim (s.isplit - 1)
  le dim := by
    have hlt := h.lower_lt
    by_cases heq : dim = s.dim
    · subst heq
      rw [Function.update_self, h.toNat_pred]
      omega
    · rw [Function.update_of_ne heq]
      exact c.le dim
  lt dim := by
    have hle := h.le_upper
    have hlt := c.lt s.dim
    by_cases heq : dim = s.dim
    · subst heq
      rw [Function.update_self, h.toNat_pred]
      omega
    · rw [Function.update_of_ne heq]
      exact c.lt dim

def right : Cells where
  ilower := Function.update c.ilower s.dim s.isplit
  iupper := c.iupper
  le dim := by
    by_cases heq : dim = s.dim
    · subst heq
      rw [Function.update_self]
      exact h.le_upper
    · rw [Function.update_of_ne heq]
      exact c.le dim
  lt := c.lt

theorem splits : Splits s c h.left h.right := ⟨rfl, rfl, rfl, rfl⟩

variable {left right : Cells} (hsplits : Splits s c left right)

include hsplits

theorem left_agree : AgreeFrom s.diff (code left.ilower).toNat (code left.iupper).toNat := by
  apply h.agree_of left.inGrid_lower left.inGrid_upper
  · rw [hsplits.left_lower, hsplits.left_upper, Function.update_self]
    exact h.pred_div.symm
  · intro dim hne
    rw [hsplits.left_lower, hsplits.left_upper, Function.update_of_ne hne]
    exact ⟨rfl, rfl⟩

theorem right_agree : AgreeFrom s.diff (code right.ilower).toNat (code right.iupper).toNat := by
  apply h.agree_of right.inGrid_lower right.inGrid_upper
  · rw [hsplits.right_lower, hsplits.right_upper, Function.update_self]
    exact h.isplit_div
  · intro dim hne
    rw [hsplits.right_lower, hsplits.right_upper, Function.update_of_ne hne]
    exact ⟨rfl, rfl⟩

end SplitPos.Describes

def Step (c c' : Cells) : Prop :=
  ∃ s left right, splitPos c.ilower c.iupper = some s ∧ Splits s c left right ∧ (c' = left ∨ c' = right)

theorem Step.agree {c c' : Cells} (h : Step c c') {l : Nat}
    (hagree : AgreeFrom l (code c.ilower).toNat (code c.iupper).toNat) :
    ∃ l' < l, AgreeFrom l' (code c'.ilower).toNat (code c'.iupper).toNat := by
  obtain ⟨s, left, right, hsplit, hsplits, hside⟩ := h
  have hs := splitPos_describes hsplit
  refine ⟨s.diff, hs.diff_lt hagree, ?_⟩
  rcases hside with rfl | rfl
  · exact hs.left_agree hsplits
  · exact hs.right_agree hsplits

/-- Each split removes at least the highest bit where the codes differ. -/
theorem length_le_of_agree {c : Cells} {cs : List Cells} (hchain : (c :: cs).IsChain Step) {l : Nat}
    (hagree : AgreeFrom l (code c.ilower).toNat (code c.iupper).toNat) : cs.length ≤ l := by
  induction cs generalizing c l with
  | nil => exact Nat.zero_le l
  | cons c' cs ih =>
      obtain ⟨hstep, hrest⟩ := List.isChain_cons_cons.1 hchain
      obtain ⟨l', hl', hagree'⟩ := hstep.agree hagree
      exact (Nat.succ_le_succ (ih hrest hagree')).trans hl'

theorem Cells.agree_thirty (c : Cells) : AgreeFrom 30 (code c.ilower).toNat (code c.iupper).toNat := by
  apply (agreeFrom_code c.inGrid_lower c.inGrid_upper).2
  intro k dim hk
  have hk' : 10 ≤ k := by omega
  exact (getLsbD_of_lt (c.inGrid_lower dim) hk').trans (getLsbD_of_lt (c.inGrid_upper dim) hk').symm

/-- The plane of a split separates the cells, and splits end after one for each bit of the code. -/
theorem splitPos_separates (c : Cells) :
    (code c.ilower = code c.iupper ↔ c.ilower = c.iupper) ∧
      (splitPos c.ilower c.iupper = none ↔ c.ilower = c.iupper) ∧
      (∀ s, splitPos c.ilower c.iupper = some s →
        s.dim.val = s.diff % 3 ∧ s.level = s.diff / 3 ∧
          (c.ilower s.dim).toNat < s.isplit.toNat ∧ s.isplit.toNat ≤ (c.iupper s.dim).toNat ∧
          2 ^ s.level ∣ s.isplit.toNat ∧
          ∃ left right, Splits s c left right ∧
            (∀ s', splitPos left.ilower left.iupper = some s' → s'.diff < s.diff) ∧
            ∀ s', splitPos right.ilower right.iupper = some s' → s'.diff < s.diff) ∧
      ∀ cs : List Cells, (c :: cs).IsChain Step → cs.length ≤ 30 := by
  have hcode := code_inj c.inGrid_lower c.inGrid_upper
  refine ⟨hcode, ?_, fun s hs => ?_, fun cs hchain => length_le_of_agree hchain c.agree_thirty⟩
  · rw [← hcode, splitPos]
    split
    · next heq => exact iff_of_true rfl heq
    · next hne => exact iff_of_false (Option.some_ne_none _) hne
  · have h := splitPos_describes hs
    refine ⟨h.dim_eq, h.level_eq, h.lower_lt, h.le_upper, h.dvd, h.left, h.right, h.splits, ?_, ?_⟩
    · intro s' hs'
      exact (splitPos_describes hs').diff_lt (h.left_agree h.splits)
    · intro s' hs'
      exact (splitPos_describes hs').diff_lt (h.right_agree h.splits)

end SplittingGrid

end RTBuild
