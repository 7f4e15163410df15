import Mathlib

namespace RTBuild.Library.Grid

variable {K : Type} [Field K] [LinearOrder K] [IsStrictOrderedRing K] [FloorRing K]

def point (e : Int) (q : Int) : K := q * 2 ^ e

def cell (e : Int) (v : K) : K := v * 2 ^ (-e)

def down (e : Int) (v : K) : Int := ⌊cell e v⌋

def up (e : Int) (v : K) : Int := ⌈cell e v⌉

omit [IsStrictOrderedRing K] in
theorem cell_mul (e : Int) (v : K) : cell e v * 2 ^ e = v := by
  rw [cell, mul_assoc, ← zpow_add₀ two_ne_zero, neg_add_cancel, zpow_zero, mul_one]

theorem cell_mono (e : Int) {v w : K} (h : v ≤ w) : cell e v ≤ cell e w :=
  mul_le_mul_of_nonneg_right h (zpow_pos two_pos _).le

theorem cell_nonneg (e : Int) {v : K} (h : 0 ≤ v) : 0 ≤ cell e v :=
  mul_nonneg h (zpow_pos two_pos _).le

theorem cell_anti {e e' : Int} (he : e ≤ e') {v : K} (h : 0 ≤ v) : cell e' v ≤ cell e v := by
  apply mul_le_mul_of_nonneg_left _ h
  exact zpow_le_zpow_right₀ one_le_two (neg_le_neg he)

theorem point_down_le (e : Int) (v : K) : point e (down e v) ≤ v := by
  calc
    point e (down e v) ≤ cell e v * 2 ^ e :=
      mul_le_mul_of_nonneg_right (Int.floor_le _) (zpow_pos two_pos e).le
    _ = v := cell_mul e v

theorem le_point_up (e : Int) (v : K) : v ≤ point e (up e v) := by
  calc
    v = cell e v * 2 ^ e := (cell_mul e v).symm
    _ ≤ point e (up e v) := mul_le_mul_of_nonneg_right (Int.le_ceil _) (zpow_pos two_pos e).le

/-- The power of two above a number is the coarsest grid in which it is below one. -/
theorem cell_log_lt_one (v : K) : cell (Int.log 2 v + 1) v < 1 := by
  have hlt : v < (2 : K) ^ (Int.log 2 v + 1) := by
    exact_mod_cast Int.lt_zpow_succ_log_self Nat.one_lt_two v
  calc
    cell (Int.log 2 v + 1) v < 2 ^ (Int.log 2 v + 1) * 2 ^ (-(Int.log 2 v + 1)) :=
      mul_lt_mul_of_pos_right hlt (zpow_pos two_pos _)
    _ = 1 := by rw [← zpow_add₀ two_ne_zero, add_neg_cancel, zpow_zero]

omit [IsStrictOrderedRing K] in
theorem cell_sub (e n : Int) (v : K) : cell (e - n) v = cell e v * 2 ^ n := by
  rw [cell, cell, mul_assoc, ← zpow_add₀ two_ne_zero]
  congr 2
  ring

end RTBuild.Library.Grid
