import Retl.Proofs.IntBounds
import Mathlib.Tactic.Ring
/-!
# Division rounds toward zero

The arithmetic operators on two 32-bit integers. `/` and `%` refuse a zero divisor with
the error `Division by zero`, and only a zero divisor. Otherwise `/` gives
`truncatingDiv`, the quotient of the magnitudes with the sign fixed afterwards, and `%`
gives `truncatingMod`, what that quotient leaves of the dividend. The two divide rounding
toward zero: they put the dividend back together, the remainder is smaller than the divisor
and has the sign of the dividend, and the quotient's magnitude is the floor of the
magnitudes' quotient (`TruncatedDivision`). The quotient is no larger than the dividend in
magnitude, so it leaves 32 bits only for `-2^31 / -1`, the one division that overflows; the
remainder never does. `+`, `-` and `*` give their exact result where it lies in
`[-2^31, 2^31 - 1]` and an overflow error where it does not.

The main statement is `Operators.arithmetic_on_int32`, about the structure `ArithmeticLaw`
that lists these rules for one pair of operands.
-/

namespace Retl

/-- The quotient `q` and remainder `r` of dividing `a` by `b`, rounding toward zero. -/
structure TruncatedDivision (a b q r : Int) : Prop where
  /-- Quotient and remainder put the dividend back together. -/
  recombines : a = b * q + r
  /-- The remainder is smaller than the divisor in magnitude. -/
  rem_lt : r.natAbs < b.natAbs
  /-- A remainder other than zero has the sign of the dividend. -/
  rem_sign : r = 0 ∨ r.sign = a.sign
  /-- The quotient's magnitude is the floor of the magnitudes' quotient. -/
  quot_natAbs : q.natAbs = a.natAbs / b.natAbs

namespace TruncatedDivision

/-- The remainder rounding toward zero leaves is zero or has the sign of the dividend. -/
theorem tmod_sign (a b : Int) : a.tmod b = 0 ∨ (a.tmod b).sign = a.sign := by
  rcases Int.lt_trichotomy a 0 with ha | rfl | ha
  · -- a negative dividend: the remainder is that of its negation, negated
    have hneg : 0 ≤ (-a).tmod b := Int.tmod_nonneg b (by omega)
    rw [Int.neg_tmod] at hneg
    rcases (show a.tmod b = 0 ∨ a.tmod b < 0 by omega) with h | h
    · exact Or.inl h
    · right
      rw [Int.sign_eq_neg_one_of_neg h, Int.sign_eq_neg_one_of_neg ha]
  · simp
  · have hnonneg : 0 ≤ a.tmod b := Int.tmod_nonneg b ha.le
    rcases (show a.tmod b = 0 ∨ 0 < a.tmod b by omega) with h | h
    · exact Or.inl h
    · right
      rw [Int.sign_eq_one_of_pos h, Int.sign_eq_one_of_pos ha]

end TruncatedDivision

namespace Operators

/-- The magnitude of the operators' quotient is the quotient of the magnitudes: the sign
fixed afterwards does not change it. -/
theorem natAbs_truncatingDiv (a b : Int) : (truncatingDiv a b).natAbs = a.natAbs / b.natAbs := by
  unfold truncatingDiv
  split
  · rw [← Int.natCast_ediv, Int.natAbs_natCast]
  · rw [Int.natAbs_neg, ← Int.natCast_ediv, Int.natAbs_natCast]

end Operators

namespace TruncatedDivision

open Operators in
/-- The operators' quotient and remainder divide rounding toward zero. The remainder is what
the quotient leaves of the dividend, so the two put it back together by the remainder's
formula, and the quotient's magnitude is read off its own; the remainder's bounds are those
of `Int.tmod`, which it equals. -/
theorem of_truncating {a b : Int} (hb : b ≠ 0) :
    TruncatedDivision a b (truncatingDiv a b) (truncatingMod a b) where
  recombines := by
    rw [truncatingMod]
    ring
  rem_lt := by
    rw [truncatingMod_eq_tmod, Int.natAbs_tmod]
    exact Nat.mod_lt _ (Int.natAbs_pos.mpr hb)
  rem_sign := truncatingMod_eq_tmod a b ▸ tmod_sign a b
  quot_natAbs := natAbs_truncatingDiv a b

end TruncatedDivision

/-- The quotient of a 32-bit dividend fits in 32 bits except for `-2^31 / -1`. -/
theorem fitsInt32_truncatingDiv_iff {a b : Int} (ha : fitsInt32 a = true) (hb : b ≠ 0) :
    fitsInt32 (Operators.truncatingDiv a b) = true ↔ ¬(a = -2 ^ 31 ∧ b = -1) := by
  rw [Operators.truncatingDiv_eq_tdiv]
  rw [fitsInt32_iff] at ha ⊢
  have habs : (a.tdiv b).natAbs = a.natAbs / b.natAbs := Int.natAbs_tdiv a b
  constructor
  · rintro ⟨-, hlt⟩ ⟨rfl, rfl⟩
    rw [Int.tdiv_neg, Int.tdiv_one] at hlt
    omega
  · intro hnot
    by_cases hone : b.natAbs = 1
    · -- dividing by `1` or `-1` gives the dividend or its negation
      rcases (show b = 1 ∨ b = -1 by omega) with rfl | rfl
      · rw [Int.tdiv_one]
        exact ha
      · rw [Int.tdiv_neg, Int.tdiv_one]
        omega
    · -- a divisor of magnitude two or more at least halves the dividend
      have hhalf : a.natAbs / b.natAbs ≤ a.natAbs / 2 :=
        Nat.div_le_div_left (by omega) (by decide)
      omega

/-- The remainder by a 32-bit divisor fits in 32 bits. -/
theorem fitsInt32_truncatingMod (a : Int) {b : Int} (hb : fitsInt32 b = true) (hb0 : b ≠ 0) :
    fitsInt32 (Operators.truncatingMod a b) = true := by
  rw [fitsInt32_iff] at hb ⊢
  have hlt := (TruncatedDivision.of_truncating (a := a) hb0).rem_lt
  omega

namespace Operators

/-- What `intResult` gives, with the bounds of 32 bits written out. -/
theorem intResult_eq (name : String) (n : Int) :
    intResult name n = if -2 ^ 31 ≤ n ∧ n ≤ 2 ^ 31 - 1 then .int n
      else .error ("Integer overflow in " ++ name) := by
  have hfits : fitsInt32 n = true ↔ -2 ^ 31 ≤ n ∧ n ≤ 2 ^ 31 - 1 := by
    rw [fitsInt32_iff]
    omega
  by_cases h : -2 ^ 31 ≤ n ∧ n ≤ 2 ^ 31 - 1
  · rw [if_pos h, intResult, if_pos (hfits.mpr h)]
  · rw [if_neg h, intResult, if_neg (fun hf => h (hfits.mp hf))]

/-- An overflow error is never the error of a zero divisor. -/
theorem intResult_ne_division_by_zero (name : String) (n : Int) :
    intResult name n ≠ .error "Division by zero" := by
  rw [intResult_eq]
  split
  · exact Value.noConfusion
  · intro h
    -- the two messages differ in their first letter
    have hhead := congrArg (fun s => s.toList.head?) (Value.error.inj h)
    simp at hhead

/-- An operator that refuses a zero divisor, at a divisor other than zero, computes. -/
theorem arithmetic_of_ne_zero (name : String) (f : Int → Int → Int) (divides : Bool)
    (a : Int) {b : Int} (hb : b ≠ 0) :
    arithmetic name f divides (.int a) (.int b) = intResult name (f a b) := by
  simp [arithmetic, hb]

theorem arithmetic_zero (name : String) (f : Int → Int → Int) (a : Int) :
    arithmetic name f true (.int a) (.int 0) = .error "Division by zero" := by
  simp [arithmetic]

/-- An operator that refuses a zero divisor gives `Division by zero` exactly at one. -/
theorem arithmetic_division_by_zero_iff (name : String) (f : Int → Int → Int) (a b : Int) :
    arithmetic name f true (.int a) (.int b) = .error "Division by zero" ↔ b = 0 := by
  constructor
  · intro h
    by_contra hb
    rw [arithmetic_of_ne_zero name f true a hb] at h
    exact intResult_ne_division_by_zero name _ h
  · rintro rfl
    exact arithmetic_zero name f a

/-- How the arithmetic operators treat two 32-bit integers `a` and `b`. -/
structure ArithmeticLaw (a b : Int) : Prop where
  /-- `/` refuses exactly a zero divisor. -/
  div_by_zero_iff : binary .div (.int a) (.int b) = .error "Division by zero" ↔ b = 0
  /-- `%` refuses exactly a zero divisor. -/
  rem_by_zero_iff : binary .rem (.int a) (.int b) = .error "Division by zero" ↔ b = 0
  /-- At any other divisor `/` gives `truncatingDiv` and `%` gives `truncatingMod`, which
  divide rounding toward zero, and only `-2^31 / -1` overflows. -/
  truncates : b ≠ 0 → TruncatedDivision a b (truncatingDiv a b) (truncatingMod a b) ∧
    binary .div (.int a) (.int b) =
      (if a = -2 ^ 31 ∧ b = -1 then .error "Integer overflow in divide"
        else .int (truncatingDiv a b)) ∧
    binary .rem (.int a) (.int b) = .int (truncatingMod a b)
  /-- `/` overflows exactly at `-2^31 / -1`. -/
  div_overflow_iff :
    binary .div (.int a) (.int b) = .error "Integer overflow in divide" ↔ a = -2 ^ 31 ∧ b = -1
  /-- `%` never overflows. -/
  rem_never_overflows : binary .rem (.int a) (.int b) ≠ .error "Integer overflow in take remainder of"
  /-- `+` is exact, or overflows when the sum leaves 32 bits. -/
  add : binary .add (.int a) (.int b) =
    if -2 ^ 31 ≤ a + b ∧ a + b ≤ 2 ^ 31 - 1 then .int (a + b) else .error "Integer overflow in add"
  /-- `-` is exact, or overflows when the difference leaves 32 bits. -/
  sub : binary .sub (.int a) (.int b) =
    if -2 ^ 31 ≤ a - b ∧ a - b ≤ 2 ^ 31 - 1 then .int (a - b)
    else .error "Integer overflow in subtract"
  /-- `*` is exact, or overflows when the product leaves 32 bits. -/
  mul : binary .mul (.int a) (.int b) =
    if -2 ^ 31 ≤ a * b ∧ a * b ≤ 2 ^ 31 - 1 then .int (a * b)
    else .error "Integer overflow in multiply"

section Int32

variable {a b : Int}

/-- `/` by a divisor other than zero: the quotient rounded toward zero, which overflows
only for `-2^31 / -1`. -/
theorem binary_div_of_ne_zero (ha : fitsInt32 a = true) (hb : b ≠ 0) :
    binary .div (.int a) (.int b) =
      if a = -2 ^ 31 ∧ b = -1 then .error "Integer overflow in divide"
      else .int (truncatingDiv a b) := by
  have hfit := fitsInt32_truncatingDiv_iff ha hb
  rw [binary, arithmetic_of_ne_zero _ _ _ _ hb, intResult]
  by_cases hmin : a = -2 ^ 31 ∧ b = -1
  · rw [if_pos hmin, if_neg (fun h => hfit.mp h hmin)]
    rfl
  · rw [if_neg hmin, if_pos (hfit.mpr hmin)]

/-- `%` by a 32-bit divisor other than zero: the remainder, which always fits. -/
theorem binary_rem_of_ne_zero (a : Int) (hb : fitsInt32 b = true) (hb0 : b ≠ 0) :
    binary .rem (.int a) (.int b) = .int (truncatingMod a b) := by
  rw [binary, arithmetic_of_ne_zero _ _ _ _ hb0, intResult, if_pos (fitsInt32_truncatingMod a hb hb0)]

theorem div_overflow_iff (ha : fitsInt32 a = true) :
    binary .div (.int a) (.int b) = .error "Integer overflow in divide" ↔
      a = -2 ^ 31 ∧ b = -1 := by
  by_cases hb : b = 0
  · -- a zero divisor gives its own error
    subst hb
    rw [binary, arithmetic_zero]
    simp
  · rw [binary_div_of_ne_zero ha hb]
    split
    · simp only [true_iff]
      assumption
    · simp only [reduceCtorEq, false_iff]
      assumption

theorem rem_never_overflows (hb : fitsInt32 b = true) :
    binary .rem (.int a) (.int b) ≠ .error "Integer overflow in take remainder of" := by
  by_cases hb0 : b = 0
  · subst hb0
    rw [binary, arithmetic_zero]
    simp
  · rw [binary_rem_of_ne_zero a hb hb0]
    exact Value.noConfusion

/-- The arithmetic operators on 32-bit integers: `/` and `%` refuse exactly a zero
divisor, and otherwise give the quotient of the magnitudes with its sign fixed and the
remainder it leaves, which round toward zero, the remainder taking the dividend's sign; `/`
overflows exactly at `-2^31 / -1`, `%` never; `+`, `-` and `*` are exact where the result
fits in 32 bits and overflow where it does not. -/
theorem arithmetic_on_int32 (ha : fitsInt32 a = true) (hb : fitsInt32 b = true) :
    ArithmeticLaw a b where
  div_by_zero_iff := arithmetic_division_by_zero_iff _ _ a b
  rem_by_zero_iff := arithmetic_division_by_zero_iff _ _ a b
  truncates hb0 :=
    ⟨TruncatedDivision.of_truncating hb0, binary_div_of_ne_zero ha hb0,
      binary_rem_of_ne_zero a hb hb0⟩
  div_overflow_iff := div_overflow_iff ha
  rem_never_overflows := rem_never_overflows hb
  add := intResult_eq _ _
  sub := intResult_eq _ _
  mul := intResult_eq _ _

/-- `-2^31 / -1` is the one division that overflows; `-2^31 % -1` is `0`. -/
theorem arithmetic_on_least_int32 :
    fitsInt32 (-2 ^ 31) = true ∧ fitsInt32 (-1) = true ∧ ArithmeticLaw (-2 ^ 31) (-1) :=
  ⟨by decide, by decide, arithmetic_on_int32 (by decide) (by decide)⟩

end Int32

end Operators

end Retl
