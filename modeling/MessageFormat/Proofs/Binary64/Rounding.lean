import MessageFormat.Binary64.Basic
import MessageFormat.Proofs.Decimal

/-!
# Rounding to 53 bits

Rounding leaves just those magnitudes alone that have at most 53 significant bits, all up to `2^53`
among them, and takes none that is farther away than another (`dist_roundUnits_le`). It does not
depend on the unit, so an integer is rounded as its count of units is
(`roundUnits_mul_unitsPerOne`).
-/

namespace MessageFormat

theorem significant_of_le {n : Nat} (h : n ≤ 2 ^ 53) : Significant n := by
  simpa using significant_mul_pow (k := 0) h

theorem roundUnits_one (n : Nat) :
    roundUnits n 1 = Decimal.roundHalfEven n (2 ^ (n.log2 - 52)) * 2 ^ (n.log2 - 52) := by
  simp [roundUnits, roundUnitsTo]

theorem roundUnits_eq_self_iff {n : Nat} : roundUnits n 1 = n ↔ Significant n := by
  constructor
  · intro same
    rw [← same]
    exact roundUnits_significant n 1
  · intro significant
    obtain ⟨q, hq⟩ := Nat.dvd_of_mod_eq_zero significant
    rw [roundUnits_one]
    generalize n.log2 - 52 = k at hq
    rw [hq, Nat.mul_comm (2 ^ k) q, Decimal.roundHalfEven_mul q (Nat.two_pow_pos k)]

theorem two_pow_dvd_of_significant {k e : Nat} (h : Significant k) (high : e ≤ k.log2 - 52) :
    2 ^ e ∣ k :=
  (Nat.pow_dvd_pow 2 high).trans (Nat.dvd_of_mod_eq_zero h)

/-- No number of at most 53 bits is nearer. -/
theorem dist_roundUnits_le (n : Nat) {k : Nat} (h : Significant k) :
    Nat.dist (roundUnits n 1) n ≤ Nat.dist k n := by
  have nearest (m : Nat) := Decimal.dist_roundHalfEven_le n m (Nat.two_pow_pos (n.log2 - 52))
  rw [roundUnits_one]
  rcases Nat.lt_or_ge k.log2 n.log2 with lower | higher
  · -- The power of two between the two is at a step, and not farther away.
    have edge := nearest (2 ^ (n.log2 - (n.log2 - 52)))
    rw [← Nat.pow_add, Nat.sub_add_cancel (Nat.sub_le _ _)] at edge
    have above : 2 ^ n.log2 ≤ n := Nat.log2_self_le (by
      rintro rfl
      exact absurd lower (by simp))
    have below : k < 2 ^ n.log2 :=
      Nat.lt_log2_self.trans_le (Nat.pow_le_pow_right (by decide) lower)
    refine edge.trans ?_
    rw [Nat.dist_eq_sub_of_le above, Nat.dist_eq_sub_of_le (below.le.trans above)]
    omega
  · obtain ⟨m, rfl⟩ := two_pow_dvd_of_significant h (Nat.sub_le_sub_right higher 52)
    rw [Nat.mul_comm _ m]
    exact nearest m

theorem log2_mul_unitsPerOne {n : Nat} (h : n ≠ 0) : (n * unitsPerOne).log2 = n.log2 + 1074 := by
  have pos : n * unitsPerOne ≠ 0 := Nat.mul_ne_zero h (Nat.ne_of_gt unitsPerOne_pos)
  rw [Nat.log2_eq_iff pos, unitsPerOne, unitExponent]
  have least : 2 ^ n.log2 ≤ n := Nat.log2_self_le h
  have limit : n < 2 ^ (n.log2 + 1) := Nat.lt_log2_self
  constructor
  · rw [Nat.pow_add]
    exact Nat.mul_le_mul_right _ least
  · rw [Nat.add_right_comm, Nat.pow_add]
    exact Nat.mul_lt_mul_of_pos_right limit (Nat.two_pow_pos 1074)

theorem roundUnits_mul_unitsPerOne (n : Nat) :
    roundUnits (n * unitsPerOne) 1 = roundUnits n 1 * unitsPerOne := by
  by_cases small : n ≤ 2 ^ 53
  · have whole : Significant (n * unitsPerOne) := significant_mul_pow small
    rw [roundUnits_eq_self_iff.2 whole, roundUnits_eq_self_iff.2 (significant_of_le small)]
  · -- Beyond, the step between neighbours is a number of ones, and scales with them.
    have high : 52 ≤ n.log2 := (Nat.le_log2 (by omega)).2 (by omega)
    have step : n.log2 + 1074 - 52 = (n.log2 - 52) + 1074 := by omega
    rw [roundUnits_one, roundUnits_one, log2_mul_unitsPerOne (by omega), step, Nat.pow_add,
      ← unitExponent, ← unitsPerOne, Decimal.roundHalfEven_scale _ _ unitsPerOne_pos,
      Nat.mul_assoc]

theorem roundUnits_le (n : Nat) : roundUnits n 1 ≤ 2 * n := by
  by_cases zero : n = 0
  · subst zero
    decide
  have step : 2 ^ (n.log2 - 52) ≤ n :=
    (Nat.pow_le_pow_right (by decide) (Nat.sub_le _ _)).trans (Nat.log2_self_le zero)
  rw [roundUnits_one]
  generalize 2 ^ (n.log2 - 52) = s at step
  calc Decimal.roundHalfEven n s * s
      ≤ (n / s + 1) * s := Nat.mul_le_mul_right s (Decimal.roundHalfEven_le n s)
    _ = n / s * s + s := by ring
    _ ≤ n + n := Nat.add_le_add (Nat.div_mul_le_self n s) step
    _ = 2 * n := by ring

theorem roundUnits_pos {n : Nat} (pos : 0 < n) : 0 < roundUnits n 1 := by
  have step : 2 ^ (n.log2 - 52) ≤ n :=
    (Nat.pow_le_pow_right (by decide) (Nat.sub_le _ _)).trans (Nat.log2_self_le (by omega))
  have first : 1 ≤ n / 2 ^ (n.log2 - 52) := (Nat.one_le_div_iff (Nat.two_pow_pos _)).2 step
  have rounded := Decimal.le_roundHalfEven n (2 ^ (n.log2 - 52))
  rw [roundUnits_one]
  exact Nat.mul_pos (by omega) (Nat.two_pow_pos _)

end MessageFormat
