import Mathlib.Data.Nat.Bitwise

namespace RTBuild.Library.HighBit

variable {a b l : Nat}

def AgreeFrom (l a b : Nat) : Prop := ∀ i, l ≤ i → a.testBit i = b.testBit i

theorem agreeFrom_iff : AgreeFrom l a b ↔ a / 2 ^ l = b / 2 ^ l := by
  constructor
  · intro h
    apply Nat.eq_of_testBit_eq
    intro i
    rw [Nat.testBit_div_two_pow, Nat.testBit_div_two_pow]
    exact h _ (Nat.le_add_left _ _)
  · intro h i hi
    have hbit := congrArg (fun n => n.testBit (i - l)) h
    simp only [Nat.testBit_div_two_pow] at hbit
    rwa [Nat.sub_add_cancel hi] at hbit

theorem xor_ne_zero (h : a ≠ b) : a ^^^ b ≠ 0 := fun hxor => h (Nat.xor_eq_zero_iff.1 hxor)

theorem testBit_log2_ne (h : a ≠ b) : a.testBit (a ^^^ b).log2 ≠ b.testBit (a ^^^ b).log2 := by
  have hbit := Nat.testBit_log2 (xor_ne_zero h)
  rw [Nat.testBit_xor] at hbit
  intro heq
  rw [heq, Bool.xor_self] at hbit
  exact Bool.false_ne_true hbit

theorem agreeFrom_log2 (h : a ≠ b) : AgreeFrom ((a ^^^ b).log2 + 1) a b := by
  intro i hi
  have hlt : a ^^^ b < 2 ^ i := (Nat.log2_lt (xor_ne_zero h)).1 hi
  have hbit := Nat.testBit_lt_two_pow hlt
  rw [Nat.testBit_xor] at hbit
  simpa using hbit

/-- Where ordered numbers first differ from above, the greater one has the bit. -/
theorem div_eq_succ (hle : a ≤ b) (hne : a.testBit l ≠ b.testBit l) (habove : AgreeFrom (l + 1) a b) :
    b / 2 ^ l = a / 2 ^ l + 1 := by
  have hhalf := agreeFrom_iff.1 habove
  rw [Nat.pow_succ, ← Nat.div_div_eq_div_mul, ← Nat.div_div_eq_div_mul] at hhalf
  have hmono := Nat.div_le_div_right (c := 2 ^ l) hle
  have hodd : a / 2 ^ l % 2 ≠ b / 2 ^ l % 2 := by
    intro heq
    apply hne
    rw [Nat.testBit_eq_decide_div_mod_eq, Nat.testBit_eq_decide_div_mod_eq, heq]
  omega

end RTBuild.Library.HighBit
