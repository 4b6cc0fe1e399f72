import MessageFormat.Binary64.Elementary
import MessageFormat.Proofs.Binary64.Quotient
import MessageFormat.Proofs.Decimal.Significant

/-!
# Decimal exponents

A magnitude lies between the powers of ten that its decimal exponent names
(`le_of_le_decimalExponent`, `lt_of_decimalExponent_lt`), and on every platform its logarithm is
rounded down to the exponent or to a neighbour of it (`magnitude_bounds`). So the places that are kept
of it are a number between two powers of ten, the greater of which is reached by a carry (`le_count`,
`count_le`).
-/

namespace MessageFormat.Binary64

open Decimal (digitCount lt_ten_pow_digitCount one_le_digitCount roundHalfEven
  ten_pow_digitCount_le)

-- The unit is too large a literal to be unfolded.
attribute [local irreducible] unitsPerOne

variable {units n places : Nat}

theorem decimalExponent_whole (some : units / unitsPerOne ≠ 0) :
    decimalExponent units = (digitCount (units / unitsPerOne) : Int) - 1 := by
  rw [decimalExponent, if_neg some]

theorem decimalExponent_part (none : units / unitsPerOne = 0) :
    decimalExponent units = -(digitCount ((unitsPerOne - 1) / units) : Int) := by
  rw [decimalExponent, if_pos none]

theorem le_of_le_decimalExponent (pos : 0 < units) (h : n ≤ decimalExponent units + places) :
    10 ^ n * unitsPerOne ≤ units * 10 ^ places := by
  have onePos := unitsPerOne_pos
  by_cases none : units / unitsPerOne = 0
  · rw [decimalExponent_part none] at h
    have limit := lt_ten_pow_digitCount ((unitsPerOne - 1) / units)
    generalize digitCount ((unitsPerOne - 1) / units) = m at h limit
    have reached : unitsPerOne ≤ 10 ^ m * units := by
      rw [Nat.div_lt_iff_lt_mul pos] at limit
      omega
    calc 10 ^ n * unitsPerOne
        ≤ 10 ^ n * (10 ^ m * units) := Nat.mul_le_mul_left _ reached
      _ = units * 10 ^ (n + m) := by ring
      _ ≤ units * 10 ^ places :=
        Nat.mul_le_mul_left _ (Nat.pow_le_pow_right (by omega) (by omega))
  · rw [decimalExponent_whole none] at h
    have least := ten_pow_digitCount_le none
    have some := one_le_digitCount none
    generalize digitCount (units / unitsPerOne) = count at h least some
    rw [Nat.le_div_iff_mul_le onePos] at least
    calc 10 ^ n * unitsPerOne
        ≤ 10 ^ (count - 1 + places) * unitsPerOne :=
          Nat.mul_le_mul_right _ (Nat.pow_le_pow_right (by omega) (by omega))
      _ = 10 ^ (count - 1) * unitsPerOne * 10 ^ places := by ring
      _ ≤ units * 10 ^ places := Nat.mul_le_mul_right _ least

theorem lt_of_decimalExponent_lt (pos : 0 < units) (h : decimalExponent units + places < n) :
    units * 10 ^ places < 10 ^ n * unitsPerOne := by
  have onePos := unitsPerOne_pos
  by_cases none : units / unitsPerOne = 0
  · rw [decimalExponent_part none] at h
    have less : units < unitsPerOne := by
      rw [Nat.div_eq_zero_iff] at none
      omega
    have some : (unitsPerOne - 1) / units ≠ 0 := by
      rw [Nat.div_ne_zero_iff]
      omega
    have least := ten_pow_digitCount_le some
    have positive := one_le_digitCount some
    generalize digitCount ((unitsPerOne - 1) / units) = m at h least positive
    have missed : 10 ^ (m - 1) * units < unitsPerOne := by
      rw [Nat.le_div_iff_mul_le pos] at least
      omega
    calc units * 10 ^ places
        ≤ units * 10 ^ (n + (m - 1)) :=
          Nat.mul_le_mul_left _ (Nat.pow_le_pow_right (by omega) (by omega))
      _ = 10 ^ n * (10 ^ (m - 1) * units) := by ring
      _ < 10 ^ n * unitsPerOne := Nat.mul_lt_mul_of_pos_left missed (by positivity)
  · rw [decimalExponent_whole none] at h
    have limit := lt_ten_pow_digitCount (units / unitsPerOne)
    have some := one_le_digitCount none
    generalize digitCount (units / unitsPerOne) = count at h limit some
    rw [Nat.div_lt_iff_lt_mul onePos] at limit
    calc units * 10 ^ places
        < 10 ^ count * unitsPerOne * 10 ^ places := Nat.mul_lt_mul_of_pos_right limit (by positivity)
      _ = 10 ^ (count + places) * unitsPerOne := by ring
      _ ≤ 10 ^ n * unitsPerOne :=
        Nat.mul_le_mul_right _ (Nat.pow_le_pow_right (by omega) (by omega))

theorem magnitude_bounds [Elementary] (pos : 0 < units) :
    decimalExponent units - 1 ≤ magnitude units ∧
      magnitude units ≤ decimalExponent units + 1 := by
  rw [magnitude, if_neg (Nat.ne_of_gt pos)]
  exact Elementary.floorLog_near units pos

theorem isWhole_powerOfTen [Elementary] (h : n ≤ 22) :
    IsWhole (Elementary.powerOfTen n) false (10 ^ n) := by
  have small : 10 ^ n < 2 ^ 100 :=
    (Nat.pow_le_pow_right (by omega) h).trans_lt (by decide)
  have sign : ¬ (10 : Int) ^ n < 0 := not_lt.2 (by positivity)
  have whole := isWhole_round false small
  rw [roundUnits_eq_self_iff.2 (significant_ten_pow h)] at whole
  rw [Elementary.powerOfTen_exact n h]
  simpa [ofInt, sign] using whole

/-! ## Places that are kept -/

/-- A magnitude as a number of its last kept places. -/
def count (units places : Nat) : Nat :=
  roundHalfEven (units * 10 ^ places) unitsPerOne

theorem fixed_eq (units places : Nat) : fixed units places = .ofScaled (count units places) places :=
  rfl

theorem le_count (pos : 0 < units) (h : n ≤ decimalExponent units + places) :
    10 ^ n ≤ count units places := by
  have quotient : 10 ^ n ≤ units * 10 ^ places / unitsPerOne :=
    (Nat.le_div_iff_mul_le unitsPerOne_pos).2 (le_of_le_decimalExponent pos h)
  exact quotient.trans (Decimal.le_roundHalfEven _ _)

theorem count_le (pos : 0 < units) (h : decimalExponent units + places < n) :
    count units places ≤ 10 ^ n :=
  Decimal.roundHalfEven_le_of_le unitsPerOne_pos (lt_of_decimalExponent_lt pos h).le

end MessageFormat.Binary64
