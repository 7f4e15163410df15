import RTBuild.PrimRef

namespace RTBuild

/-- What a float of a buffer can be. The arithmetic on numbers is exact, and zero has no sign. -/
inductive FloatValue
  | nan
  | inf (negative : Bool)
  | num (x : ℚ)
  deriving DecidableEq

namespace FloatValue

def toRat : FloatValue → Option ℚ
  | num x => some x
  | _ => none

instance : Add FloatValue where
  add
    | num x, num y => num (x + y)
    | nan, _ => nan
    | _, nan => nan
    | inf s, inf s' => if s = s' then inf s else nan
    | inf s, num _ => inf s
    | num _, inf s => inf s

def scaleInf (s : Bool) (x : ℚ) : FloatValue := if x = 0 then nan else inf (s ^^ decide (x < 0))

instance : Mul FloatValue where
  mul
    | num x, num y => num (x * y)
    | nan, _ => nan
    | _, nan => nan
    | inf s, inf s' => inf (s ^^ s')
    | inf s, num x => scaleInf s x
    | num x, inf s => scaleInf s x

def lt : FloatValue → FloatValue → Bool
  | num x, num y => decide (x < y)
  | inf s, num _ => s
  | num _, inf s => !s
  | inf s, inf s' => s && !s'
  | _, _ => false

/-- _mm_min_ps, which is its second argument where one of them is not a number -/
def minPs (a b : FloatValue) : FloatValue := if a.lt b then a else b

def maxPs (a b : FloatValue) : FloatValue := if b.lt a then a else b

def ofTop : WithTop ℚ → FloatValue
  | ⊤ => inf false
  | (x : ℚ) => num x

def ofBot : WithBot ℚ → FloatValue
  | ⊥ => inf true
  | (x : ℚ) => num x

variable {a b : FloatValue} {q : ℚ}

theorem toRat_eq_some : a.toRat = some q ↔ a = num q := by
  cases a with
  | num x => exact ⟨fun h => congrArg num (Option.some.inj h), fun h => congrArg some (num.inj h)⟩
  | _ => exact ⟨fun h => (by cases h), fun h => (by cases h)⟩

/-- A sum is a number only where both terms are. -/
theorem of_add_eq_num (h : a + b = num q) : ∃ x y, a = num x ∧ b = num y := by
  cases a with
  | num x =>
      cases b with
      | num y => exact ⟨x, y, rfl, rfl⟩
      | _ => cases h
  | nan => cases b <;> cases h
  | inf s =>
      cases b with
      | inf s' =>
          change (if s = s' then inf s else nan) = num q at h
          split at h
          all_goals cases h
      | _ => cases h

theorem scaleInf_ne_num {s : Bool} {x : ℚ} : scaleInf s x ≠ num q := by
  rw [scaleInf]
  split
  all_goals exact fun h => by cases h

theorem of_mul_eq_num (h : a * b = num q) : ∃ x y, a = num x ∧ b = num y := by
  cases a with
  | num x =>
      cases b with
      | num y => exact ⟨x, y, rfl, rfl⟩
      | inf s => exact absurd h scaleInf_ne_num
      | nan => cases h
  | nan => cases b <;> cases h
  | inf s =>
      cases b with
      | num x => exact absurd h scaleInf_ne_num
      | _ => cases h

theorem minPs_eq_or (a b : FloatValue) : a.minPs b = a ∨ a.minPs b = b := by
  rw [minPs]
  split
  · exact Or.inl rfl
  · exact Or.inr rfl

theorem minPs_ofTop (a : WithTop ℚ) (x : ℚ) : (ofTop a).minPs (num x) = ofTop (min a x) := by
  cases a with
  | top => rw [min_eq_right le_top]; rfl
  | coe y =>
      change (if decide (y < x) = true then num y else num x) = _
      rw [← WithTop.coe_min]
      by_cases h : y < x
      · rw [if_pos (decide_eq_true h), min_eq_left h.le]
        rfl
      · rw [if_neg (by simpa using h), min_eq_right (not_lt.1 h)]
        rfl

theorem maxPs_ofBot (a : WithBot ℚ) (x : ℚ) : (ofBot a).maxPs (num x) = ofBot (max a x) := by
  cases a with
  | bot => rw [max_eq_right bot_le]; rfl
  | coe y =>
      change (if decide (x < y) = true then num y else num x) = _
      rw [← WithBot.coe_max]
      by_cases h : x < y
      · rw [if_pos (decide_eq_true h), max_eq_left h.le]
        rfl
      · rw [if_neg (by simpa using h), max_eq_right (not_lt.1 h)]
        rfl

theorem eq_of_ofTop_eq_num {a : WithTop ℚ} (h : ofTop a = num q) : a = q := by
  cases a with
  | top => cases h
  | coe x => exact congrArg _ (num.inj h)

theorem eq_of_ofBot_eq_num {a : WithBot ℚ} (h : ofBot a = num q) : a = q := by
  cases a with
  | bot => cases h
  | coe x => exact congrArg _ (num.inj h)

end FloatValue

abbrev FloatVec := Fin 3 → FloatValue

namespace FloatVec

def ofVec3f (v : Vec3f) : FloatVec := fun dim => .num (component v dim)

def finite (v : FloatVec) : Option Vec3f := do
  let x ← (v 0).toRat
  let y ← (v 1).toRat
  let z ← (v 2).toRat
  return (x, y, z)

theorem finite_eq_some {v : FloatVec} {p : Vec3f} : v.finite = some p ↔ v = ofVec3f p := by
  obtain ⟨x, y, z⟩ := p
  simp only [finite, Option.bind_eq_bind, Option.bind_eq_some_iff, FloatValue.toRat_eq_some]
  constructor
  · rintro ⟨x', hx, y', hy, z', hz, heq⟩
    cases heq
    funext dim
    fin_cases dim
    · exact hx
    · exact hy
    · exact hz
  · rintro rfl
    exact ⟨x, rfl, y, rfl, z, rfl, rfl⟩

theorem exists_finite {v : FloatVec} (h : ∀ dim, ∃ x, v dim = .num x) : ∃ p, v.finite = some p := by
  obtain ⟨x, hx⟩ := h 0
  obtain ⟨y, hy⟩ := h 1
  obtain ⟨z, hz⟩ := h 2
  refine ⟨(x, y, z), ?_⟩
  rw [finite, hx, hy, hz]
  rfl

end FloatVec

end RTBuild
