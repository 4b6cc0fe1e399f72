import MessageFormat.Binary64.Text
import MessageFormat.Proofs.Binary64.Rounding

/-!
# Fewest digits of integers

A decimal that reads back as a magnitude is within half a gap of it. Up to `2^53` neighbouring
magnitudes are at most one apart, so that no decimal with fewer digits stands for an integer there
and its text has all its digits (`shortest_whole`).
-/

namespace MessageFormat.Binary64

open Decimal (digits)

theorem gapBelow_le (units : Nat) : gapBelow units ≤ gapAbove units := by
  rw [gapBelow]
  split
  · exact Nat.div_le_self _ _
  · exact le_rfl

theorem gapBelow_pos (units : Nat) : 0 < gapBelow units := by
  rw [gapBelow, gapAbove]
  split
  case isTrue edge =>
    apply Nat.div_pos _ (by decide)
    exact Nat.le_self_pow (by omega) 2
  case isFalse => exact Nat.two_pow_pos _

theorem near_of_gridPoint? {units point : Nat} {exponent : Int}
    (h : gridPoint? units exponent = some point) :
    2 * (point * (unitsPerOne * 10 ^ exponent.toNat)) ≤
        2 * (units * 10 ^ (-exponent).toNat) + gapAbove units * 10 ^ (-exponent).toNat ∧
      2 * (units * 10 ^ (-exponent).toNat) ≤
        2 * (point * (unitsPerOne * 10 ^ exponent.toNat)) +
          gapAbove units * 10 ^ (-exponent).toNat := by
  simp only [gridPoint?, Bool.or_eq_true, Bool.and_eq_true, decide_eq_true_eq, beq_iff_eq] at h
  have gridPos : 0 < unitsPerOne * 10 ^ exponent.toNat :=
    Nat.mul_pos unitsPerOne_pos (Nat.pow_pos (by decide))
  generalize unitsPerOne * 10 ^ exponent.toNat = grid at *
  generalize 10 ^ (-exponent).toNat = scale at *
  -- The magnitude lies between two neighbours on the grid.
  have least : units * scale / grid * grid ≤ units * scale := Nat.div_mul_le_self _ _
  have limit : units * scale < (units * scale / grid + 1) * grid :=
    (Nat.div_lt_iff_lt_mul gridPos).1 (Nat.lt_succ_self _)
  have gaps : gapBelow units * scale ≤ gapAbove units * scale :=
    Nat.mul_le_mul_right _ (gapBelow_le units)
  split at h
  case isTrue reads =>
    cases h
    omega
  case isFalse =>
    split at h
    case isTrue reads =>
      cases h
      omega
    case isFalse => cases h

/-- An integer is its own point on the grid of ones. -/
theorem isSome_gridPoint?_zero (n : Nat) :
    (gridPoint? (n * unitsPerOne) 0).isSome = true := by
  have gap := gapBelow_pos (n * unitsPerOne)
  have whole : n * unitsPerOne / unitsPerOne = n := Nat.mul_div_cancel n unitsPerOne_pos
  simp only [gridPoint?]
  split
  · rfl
  · simp [whole, gap]

theorem gapAbove_whole_le {n : Nat} (small : n < 2 ^ 53) :
    gapAbove (n * unitsPerOne) ≤ unitsPerOne := by
  by_cases zero : n = 0
  · simpa [gapAbove, zero] using Nat.one_le_of_lt unitsPerOne_pos
  have log : n.log2 < 53 := (Nat.log2_lt zero).2 small
  have bits : n.log2 + 1074 - 52 ≤ unitExponent := by
    rw [unitExponent]
    omega
  rw [gapAbove, log2_mul_unitsPerOne zero]
  exact Nat.pow_le_pow_right (by decide) bits

theorem eq_of_gridPoint?_whole {n point exponent : Nat} (small : n < 2 ^ 53)
    (h : gridPoint? (n * unitsPerOne) exponent = some point) : point * 10 ^ exponent = n := by
  have near := near_of_gridPoint? h
  have gap := gapAbove_whole_le small
  simp only [Int.toNat_natCast, Int.toNat_neg_natCast, pow_zero, Nat.mul_one, ← Nat.mul_assoc]
    at near
  have pos := unitsPerOne_pos
  -- Half a gap is less than a one, and both are integers.
  have above : 2 * (point * 10 ^ exponent) ≤ 2 * n + 1 := by
    apply Nat.le_of_mul_le_mul_right _ pos
    linarith [near.1]
  have below : 2 * n ≤ 2 * (point * 10 ^ exponent) + 1 := by
    apply Nat.le_of_mul_le_mul_right _ pos
    linarith [near.2]
  omega

theorem shortestFrom_whole {n : Nat} (small : n < 2 ^ 53) (grids : Nat) :
    ∀ exponent < grids, ∃ point places : Nat,
      shortestFrom (n * unitsPerOne) exponent grids = (point, (places : Int)) ∧
        point * 10 ^ places = n := by
  induction grids with
  | zero =>
    intro exponent h
    cases h
  | succ grids ih =>
    intro exponent h
    rw [shortestFrom]
    cases found : gridPoint? (n * unitsPerOne) exponent with
    | some point => exact ⟨point, exponent, rfl, eq_of_gridPoint?_whole small found⟩
    | none =>
      cases exponent with
      | zero =>
        have some := isSome_gridPoint?_zero n
        rw [Int.natCast_zero] at found
        exact absurd some (by simp [found])
      | succ exponent =>
        obtain ⟨point, places, last, same⟩ := ih exponent (by omega)
        exact ⟨point, places, by simpa using last, same⟩

theorem shortest_whole {n : Nat} (small : n ≤ 2 ^ 53) :
    shortest (n * unitsPerOne) = ⟨digits n, []⟩ := by
  rcases Nat.lt_or_eq_of_le small with less | rfl
  · rcases Nat.eq_zero_or_pos n with rfl | pos
    · simp [shortest, Decimal.digits_zero]
    · have whole : n * unitsPerOne / unitsPerOne = n := Nat.mul_div_cancel n unitsPerOne_pos
      have units : n * unitsPerOne ≠ 0 := Nat.mul_ne_zero (by omega) (Nat.ne_of_gt unitsPerOne_pos)
      have length : (digits n).length ≤ 16 :=
        Decimal.length_digits_le (by decide) (less.trans (by decide))
      have first : decimalExponent (n * unitsPerOne) = ((digits n).length - 1 : Nat) := by
        have some : 0 < (digits n).length := List.length_pos_of_ne_nil (Decimal.digits_ne_nil n)
        rw [decimalExponent, whole, if_neg (by omega), Decimal.digitCount_of_pos pos]
        omega
      obtain ⟨point, places, last, same⟩ :=
        shortestFrom_whole less 17 ((digits n).length - 1) (by omega)
      rw [shortest, if_neg units, first, last]
      simp [Decimal.Numeral.ofScientific, same, Decimal.Numeral.trimFraction,
        Decimal.dropTrailingZeros]
  · -- Above `2^53` the gap is two; the point below and the point above do not come first.
    decide +kernel

end MessageFormat.Binary64
