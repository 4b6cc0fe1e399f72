import MessageFormat.Proofs.Decimal

/-!
# Significant digits

A count of decimal places that is trimmed loses as many of its last zeros as it may
(`Numeral.exists_trimFraction_ofScaled`). So the number of its digits, from the first that is not
zero, is bounded from below and above by powers of ten (`Numeral.le_length_significant_iff`,
`Numeral.length_unfilled_le_iff`).
-/

namespace MessageFormat.Decimal

/-! ## Numbers of digits -/

theorem digits_of_lt_ten {n : Nat} (h : n < 10) : digits n = [n.digitChar] :=
  Nat.toDigits_of_lt_base h

theorem digits_of_ten_le {n : Nat} (h : 10 ≤ n) :
    digits n = digits (n / 10) ++ [(n % 10).digitChar] :=
  Nat.toDigits_of_base_le (by omega) h

theorem digitCount_le_iff {n k : Nat} : digitCount n ≤ k ↔ n < 10 ^ k := by
  rcases Nat.eq_zero_or_pos n with rfl | some
  · simp [digitCount]
  rw [digitCount_of_pos some]
  cases k with
  | zero =>
    have nonempty : 0 < (digits n).length := List.length_pos_of_ne_nil (digits_ne_nil n)
    rw [Nat.pow_zero]
    omega
  | succ k => exact Nat.length_toDigits_le_iff (by omega) (Nat.succ_pos k)

theorem le_digitCount_iff {n k : Nat} (pos : 0 < k) : k ≤ digitCount n ↔ 10 ^ (k - 1) ≤ n := by
  rw [← not_iff_not, Nat.not_le, Nat.not_le, ← digitCount_le_iff]
  omega

theorem one_le_digitCount {n : Nat} (some : n ≠ 0) : 1 ≤ digitCount n := by
  rw [le_digitCount_iff Nat.one_pos]
  exact Nat.one_le_iff_ne_zero.2 some

theorem ten_pow_digitCount_le {n : Nat} (some : n ≠ 0) : 10 ^ (digitCount n - 1) ≤ n :=
  (le_digitCount_iff (one_le_digitCount some)).1 le_rfl

theorem lt_ten_pow_digitCount (n : Nat) : n < 10 ^ digitCount n :=
  digitCount_le_iff.1 le_rfl

theorem padLeft_digits_succ (n : Nat) {places : Nat} (pos : 0 < places) :
    padLeft (places + 1) (digits n) = padLeft places (digits (n / 10)) ++ [(n % 10).digitChar] := by
  rcases Nat.lt_or_ge n 10 with small | large
  · obtain ⟨places, rfl⟩ : ∃ k, places = k + 1 := ⟨places - 1, by omega⟩
    rw [digits_of_lt_ten small, Nat.div_eq_of_lt small, Nat.mod_eq_of_lt small, digits_zero, padLeft,
      padLeft]
    simp [List.replicate_succ']
  · rw [digits_of_ten_le large, padLeft, padLeft, List.length_append, List.length_singleton,
      Nat.add_sub_add_right, List.append_assoc]

theorem dropTrailingZeros_append_singleton (ds : List Char) (d : Char) :
    dropTrailingZeros (ds ++ [d]) = if d = '0' then dropTrailingZeros ds else ds ++ [d] := by
  by_cases zero : d = '0' <;> simp [dropTrailingZeros, zero]

theorem ten_pow_succ_dvd_iff {z n : Nat} : 10 ^ (z + 1) ∣ 10 * n ↔ 10 ^ z ∣ n := by
  rw [Nat.pow_succ', Nat.mul_dvd_mul_iff_left (by omega)]

theorem eq_zero_of_ten_pow_dvd {z n : Nat} (other : ¬ 10 ∣ n) (h : 10 ^ z ∣ n) : z = 0 := by
  by_contra some
  exact other ((dvd_pow_self 10 some).trans h)

theorem digitChar_last_iff {n : Nat} : (n % 10).digitChar = '0' ↔ 10 ∣ n := by
  rw [Nat.digitChar_eq_zero, Nat.dvd_iff_mod_eq_zero]

/-- The digits of a number that is not zero, without the zeros at their end. -/
theorem exists_dropTrailingZeros_digits {n : Nat} (pos : 0 < n) : ∃ zeros, 10 ^ zeros ∣ n ∧
    (∀ z, 10 ^ z ∣ n → z ≤ zeros) ∧ dropTrailingZeros (digits n) = digits (n / 10 ^ zeros) := by
  induction n using Nat.strongRecOn with
  | ind n ih =>
    by_cases tens : 10 ∣ n
    · obtain ⟨q, rfl⟩ := tens
      obtain ⟨zeros, divides, most, dropped⟩ := ih q (by omega) (by omega)
      refine ⟨zeros + 1, ten_pow_succ_dvd_iff.2 divides, ?_, ?_⟩
      · intro z h
        cases z with
        | zero => exact Nat.zero_le _
        | succ z => exact Nat.succ_le_succ (most z (ten_pow_succ_dvd_iff.1 h))
      · rw [digits_of_ten_le (by omega), dropTrailingZeros_append_singleton,
          if_pos (digitChar_last_iff.2 (Nat.dvd_mul_right 10 q)), Nat.mul_div_cancel_left q (by omega),
          dropped, Nat.pow_succ', Nat.mul_div_mul_left _ _ (by omega)]
    · refine ⟨0, by simp, fun z h => (eq_zero_of_ten_pow_dvd tens h).le, ?_⟩
      have last : (n % 10).digitChar ≠ '0' := digitChar_last_iff.not.2 tens
      rw [Nat.pow_zero, Nat.div_one]
      rcases Nat.lt_or_ge n 10 with small | large
      · rw [Nat.mod_eq_of_lt small] at last
        rw [digits_of_lt_ten small, ← List.nil_append [n.digitChar],
          dropTrailingZeros_append_singleton, if_neg last]
      · rw [digits_of_ten_le large, dropTrailingZeros_append_singleton, if_neg last]

namespace Numeral

/-! ## Trimmed numerals -/

theorem ofScaled_succ (n places : Nat) : ofScaled n (places + 1) =
    ⟨(ofScaled (n / 10) places).whole,
      (ofScaled (n / 10) places).fraction ++ [(n % 10).digitChar]⟩ := by
  have power : 10 ^ (places + 1) = 10 * 10 ^ places := Nat.pow_succ'
  have whole : n / 10 ^ (places + 1) = n / 10 / 10 ^ places := by
    rw [power, Nat.div_div_eq_div_mul]
  have rest : n % 10 ^ (places + 1) / 10 = n / 10 % 10 ^ places := by
    rw [power, Nat.mod_mul_right_div_self]
  have last : n % 10 ^ (places + 1) % 10 = n % 10 := by
    rw [power, Nat.mod_mul_right_mod]
  rw [ofScaled, ofScaled, if_neg (Nat.succ_ne_zero places), whole]
  rcases Nat.eq_zero_or_pos places with rfl | pos
  · have digit : n % 10 < 10 := Nat.mod_lt n (by omega)
    simp [digits_of_lt_ten digit, padLeft]
  · rw [padLeft_digits_succ _ pos, rest, last, if_neg (Nat.ne_of_gt pos)]

variable {keep places : Nat}

theorem trimFraction_eq_self {numeral : Numeral} (h : numeral.fraction.length ≤ keep) :
    trimFraction keep numeral = numeral := by
  simp [trimFraction, List.take_of_length_le h, List.drop_eq_nil_of_le h, dropTrailingZeros]

theorem trimFraction_ofScaled_succ (n : Nat) (h : keep ≤ places) :
    trimFraction keep (ofScaled n (places + 1)) =
      if 10 ∣ n then trimFraction keep (ofScaled (n / 10) places) else ofScaled n (places + 1) := by
  have length := length_fraction_ofScaled (n / 10) places
  rw [ofScaled_succ, trimFraction, trimFraction, List.take_append_of_le_length (by omega),
    List.drop_append_of_le_length (by omega), dropTrailingZeros_append_singleton]
  by_cases tens : 10 ∣ n
  · rw [if_pos (digitChar_last_iff.2 tens), if_pos tens]
  · rw [if_neg (digitChar_last_iff.not.2 tens), if_neg tens, ← List.append_assoc,
      List.take_append_drop]

/-- Trimming takes away the last zeros of a count, as many as there are and as it may. -/
theorem exists_trimFraction_ofScaled (n : Nat) (h : keep ≤ places) :
    ∃ zeros ≤ places - keep, 10 ^ zeros ∣ n ∧ (∀ z ≤ places - keep, 10 ^ z ∣ n → z ≤ zeros) ∧
      trimFraction keep (ofScaled n places) = ofScaled (n / 10 ^ zeros) (places - zeros) := by
  have untouched (n places : Nat) : ofScaled n places = ofScaled (n / 10 ^ 0) (places - 0) := by
    simp
  induction places generalizing n with
  | zero =>
    refine ⟨0, Nat.zero_le _, by simp, fun z least _ => by omega, ?_⟩
    rw [trimFraction_eq_self (by simp [length_fraction_ofScaled]), ← untouched]
  | succ places ih =>
    rcases Nat.lt_or_eq_of_le h with room | rfl
    · have room : keep ≤ places := Nat.le_of_lt_succ room
      rw [trimFraction_ofScaled_succ n room]
      split
      case isTrue tens =>
        obtain ⟨q, rfl⟩ := tens
        obtain ⟨zeros, some, divides, most, trimmed⟩ := ih q room
        refine ⟨zeros + 1, by omega, ten_pow_succ_dvd_iff.2 divides, ?_, ?_⟩
        · intro z least h
          cases z with
          | zero => exact Nat.zero_le _
          | succ z => exact Nat.succ_le_succ (most z (by omega) (ten_pow_succ_dvd_iff.1 h))
        · rw [Nat.mul_div_cancel_left q (by omega), trimmed, Nat.pow_succ',
            Nat.mul_div_mul_left _ _ (by omega), Nat.add_sub_add_right]
      case isFalse other =>
        exact ⟨0, Nat.zero_le _, by simp, fun z _ h => (eq_zero_of_ten_pow_dvd other h).le,
          untouched _ _⟩
    · refine ⟨0, Nat.zero_le _, by simp, fun z least _ => by omega, ?_⟩
      rw [trimFraction_eq_self (by simp [length_fraction_ofScaled]), ← untouched]

/-! ## Significant digits -/

/-- The digits from the first that is not zero. -/
def significant (numeral : Numeral) : List Char :=
  (numeral.whole ++ numeral.fraction).dropWhile (· == '0')

/-- The significant digits without zeros that only fill the places before the point. -/
def unfilled (numeral : Numeral) : List Char :=
  if numeral.fraction = [] then dropTrailingZeros numeral.significant else numeral.significant

theorem dropWhile_digits_zero {n : Nat} (pos : 0 < n) :
    (digits n).dropWhile (· == '0') = digits n := by
  induction n using Nat.strongRecOn with
  | ind n ih =>
    rcases Nat.lt_or_ge n 10 with small | large
    · simp [digits_of_lt_ten small, Nat.ne_of_gt pos]
    · have front := ih (n / 10) (by omega) (by omega)
      rw [digits_of_ten_le large, List.dropWhile_append, front]
      simp [digits_ne_nil]

theorem significant_ofScaled (n places : Nat) :
    (ofScaled n places).significant = if n = 0 then [] else digits n := by
  induction places generalizing n with
  | zero =>
    rcases Nat.eq_zero_or_pos n with rfl | pos
    · simp [significant, ofScaled, digits_zero]
    · simp [significant, ofScaled, dropWhile_digits_zero pos, Nat.ne_of_gt pos]
  | succ places ih =>
    have front := ih (n / 10)
    rw [significant] at front
    rw [significant, ofScaled_succ, ← List.append_assoc, List.dropWhile_append, front]
    rcases Nat.lt_or_ge n 10 with small | large
    · by_cases none : n = 0 <;>
        simp [Nat.div_eq_of_lt small, Nat.mod_eq_of_lt small, digits_of_lt_ten small, none]
    · have some : n / 10 ≠ 0 := by omega
      have positive : n ≠ 0 := by omega
      simp [some, positive, digits_ne_nil, digits_of_ten_le large]

theorem length_significant_ofScaled (n places : Nat) :
    (ofScaled n places).significant.length = digitCount n := by
  rw [significant_ofScaled, digitCount]
  split <;> rfl

variable {n least greatest : Nat}

/-- There are so many digits, however many of the zeros at the end may be taken away. -/
theorem le_length_significant_iff (h : keep ≤ places) (pos : 0 < least) :
    least ≤ (trimFraction keep (ofScaled n places)).significant.length ↔
      ∀ z ≤ places - keep, 10 ^ z ∣ n → 10 ^ (least - 1 + z) ≤ n := by
  obtain ⟨zeros, some, divides, most, trimmed⟩ := exists_trimFraction_ofScaled n h
  rw [trimmed, length_significant_ofScaled, le_digitCount_iff pos,
    Nat.le_div_iff_mul_le (by positivity), ← Nat.pow_add]
  constructor
  · intro enough z few multiple
    have less : z ≤ zeros := most z few multiple
    exact (Nat.pow_le_pow_right (by omega) (by omega)).trans enough
  · intro enough
    exact enough zeros some divides

theorem length_unfilled_ofScaled_le_iff :
    (ofScaled n places).unfilled.length ≤ greatest ↔
      ∃ z, (0 < places → z = 0) ∧ 10 ^ z ∣ n ∧ n < 10 ^ (greatest + z) := by
  have fraction := length_fraction_ofScaled n places
  rcases Nat.eq_zero_or_pos places with rfl | pos
  · rw [unfilled, if_pos (List.length_eq_zero_iff.1 fraction), significant_ofScaled]
    split
    case isTrue none =>
      subst none
      exact iff_of_true (Nat.zero_le _) ⟨0, by simp, by simp, by positivity⟩
    case isFalse some =>
      have positive : 0 < n := Nat.pos_of_ne_zero some
      obtain ⟨zeros, divides, most, dropped⟩ := exists_dropTrailingZeros_digits positive
      have quotient : 0 < n / 10 ^ zeros :=
        Nat.div_pos (Nat.le_of_dvd positive divides) (by positivity)
      rw [dropped, ← digitCount_of_pos quotient, digitCount_le_iff,
        Nat.div_lt_iff_lt_mul (by positivity), ← Nat.pow_add]
      constructor
      · exact fun less => ⟨zeros, by simp, divides, less⟩
      · rintro ⟨z, -, multiple, less⟩
        have few : z ≤ zeros := most z multiple
        exact less.trans_le (Nat.pow_le_pow_right (by omega) (by omega))
  · have some : (ofScaled n places).fraction ≠ [] := by
      rw [← List.length_pos_iff, fraction]
      exact pos
    rw [unfilled, if_neg some, length_significant_ofScaled, digitCount_le_iff]
    simp [pos]

/-- There are no more digits, if zeros at the end are not counted that fill the places before the
point, or that may be taken away behind it. -/
theorem length_unfilled_le_iff (h : keep ≤ places) :
    (trimFraction keep (ofScaled n places)).unfilled.length ≤ greatest ↔
      ∃ z, (0 < keep → z ≤ places - keep) ∧ 10 ^ z ∣ n ∧ n < 10 ^ (greatest + z) := by
  obtain ⟨zeros, some, divides, most, trimmed⟩ := exists_trimFraction_ofScaled n h
  rw [trimmed, length_unfilled_ofScaled_le_iff]
  have less_iff (z : Nat) : n / 10 ^ zeros < 10 ^ (greatest + z) ↔
      n < 10 ^ (greatest + (zeros + z)) := by
    rw [Nat.div_lt_iff_lt_mul (by positivity), ← Nat.pow_add, Nat.add_assoc, Nat.add_comm z]
  have multiple_iff (z : Nat) : 10 ^ z ∣ n / 10 ^ zeros ↔ 10 ^ (zeros + z) ∣ n := by
    rw [Nat.pow_add, Nat.dvd_div_iff_mul_dvd divides]
  simp only [less_iff, multiple_iff]
  constructor
  · rintro ⟨z, behind, multiple, less⟩
    refine ⟨zeros + z, fun kept => ?_, multiple, less⟩
    have none : z = 0 := behind (by omega)
    omega
  · rintro ⟨z, allowed, multiple, less⟩
    rcases Nat.le_total z zeros with few | many
    · exact ⟨0, fun _ => rfl, divides, less.trans_le (Nat.pow_le_pow_right (by omega) (by omega))⟩
    · -- More zeros than were taken away stand before the point.
      obtain ⟨more, rfl⟩ := Nat.exists_eq_add_of_le many
      refine ⟨more, fun behind => ?_, multiple, less⟩
      by_contra some
      have next : 10 ^ (zeros + 1) ∣ n := (pow_dvd_pow 10 (by omega)).trans multiple
      have limit := most (zeros + 1)
      omega

end Numeral

end MessageFormat.Decimal
