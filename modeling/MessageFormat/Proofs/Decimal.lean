import MessageFormat.Decimal
import Mathlib

/-!
# Decimal numerals

The digits of a number are digits, stand for the number and are as many as its size asks for. A
numeral that is cut at some places has just so many fraction digits, and trimming it takes away its
last zeros down to the number of places that are kept.
-/

namespace MessageFormat.Decimal

/-! ## Digits -/

theorem isDigit_of_mem_digits {n : Nat} {c : Char} (h : c ∈ digits n) : isDigit c = true := by
  have core : c.isDigit = true := Nat.isDigit_of_mem_toDigits (by decide) (by decide) h
  simpa [isDigit, Char.isDigit, Char.le_def] using core

theorem valueOf_digits (n : Nat) : valueOf (digits n) = n :=
  Nat.ofDigitChars_ten_toDigits

theorem valueOf_append_zeros (ds : List Char) (zeros : Nat) :
    valueOf (ds ++ List.replicate zeros '0') = 10 ^ zeros * valueOf ds :=
  (Nat.ofDigitChars_append 0).trans Nat.ofDigitChars_replicate_zero

theorem digits_ne_nil (n : Nat) : digits n ≠ [] :=
  Nat.toDigits_ne_nil

theorem takeWhile_digits (n : Nat) : (digits n).takeWhile isDigit = digits n :=
  List.takeWhile_eq_self_iff.2 fun _ => isDigit_of_mem_digits

theorem dropWhile_digits (n : Nat) : (digits n).dropWhile isDigit = [] :=
  List.dropWhile_eq_nil_iff.2 fun _ => isDigit_of_mem_digits

theorem exists_digits_cons (n : Nat) : ∃ d ds, digits n = d :: ds ∧ d ≠ '-' ∧ d ≠ '+' := by
  obtain ⟨d, ds, split⟩ := List.exists_cons_of_ne_nil (digits_ne_nil n)
  have digit : isDigit d = true := isDigit_of_mem_digits (split ▸ List.mem_cons_self)
  refine ⟨d, ds, split, ?_, ?_⟩ <;> rintro rfl <;> exact absurd digit (by decide)

theorem digits_zero : digits 0 = ['0'] :=
  Nat.toDigits_zero 10

theorem toList_toString (n : Nat) : (toString n).toList = digits n :=
  Nat.toList_repr

theorem length_digits_le {n places : Nat} (pos : 0 < places) (h : n < 10 ^ places) :
    (digits n).length ≤ places :=
  (Nat.length_toDigits_le_iff (by decide) pos).2 h

theorem digitCount_of_pos {n : Nat} (pos : 0 < n) : digitCount n = (digits n).length :=
  if_neg (Nat.ne_of_gt pos)

/-- A number other than zero has a digit other than zero. -/
theorem exists_mem_digits_ne_zero {n : Nat} (pos : 0 < n) : ∃ c ∈ digits n, c ≠ '0' := by
  by_contra none
  push Not at none
  have zeros : digits n = List.replicate (digits n).length '0' := List.eq_replicate_of_mem none
  have value : valueOf (List.replicate (digits n).length '0') = 0 := valueOf_append_zeros [] _
  rw [← zeros, valueOf_digits] at value
  exact Nat.ne_of_gt pos value

/-! ## Rounding -/

theorem roundHalfEven_cases (num den : Nat) :
    (roundHalfEven num den = num / den ∧ 2 * (num % den) ≤ den) ∨
      (roundHalfEven num den = num / den + 1 ∧ den ≤ 2 * (num % den)) := by
  simp only [roundHalfEven]
  split
  case isTrue low => exact .inl ⟨rfl, low.le⟩
  case isFalse high =>
    split
    · exact .inr ⟨rfl, Nat.le_of_not_lt high⟩
    case isFalse tie =>
      split
      · exact .inl ⟨rfl, Nat.le_of_not_lt tie⟩
      · exact .inr ⟨rfl, Nat.le_of_not_lt high⟩

theorem le_roundHalfEven (num den : Nat) : num / den ≤ roundHalfEven num den := by
  rcases roundHalfEven_cases num den with ⟨down, -⟩ | ⟨up, -⟩ <;> omega

theorem roundHalfEven_le_of_le {num den q : Nat} (pos : 0 < den) (h : num ≤ q * den) :
    roundHalfEven num den ≤ q := by
  have split : num / den * den + num % den = num := Nat.div_add_mod' num den
  rcases roundHalfEven_cases num den with ⟨down, -⟩ | ⟨up, near⟩
  · rw [down]
    exact Nat.div_le_of_le_mul (by rwa [Nat.mul_comm])
  · -- The remainder is not zero, so the quotient is less than the bound.
    rw [up]
    by_contra more
    have bound : q * den ≤ num / den * den := Nat.mul_le_mul_right den (by omega)
    omega

theorem roundHalfEven_le_iff {num den k : Nat} (pos : 0 < den) :
    roundHalfEven num den ≤ k ↔
      2 * num < (2 * k + 1) * den ∨ 2 * num = (2 * k + 1) * den ∧ k % 2 = 0 := by
  have split : num / den * den + num % den = num := Nat.div_add_mod' num den
  have less : num % den < den := Nat.mod_lt num pos
  have middle : (2 * k + 1) * den = 2 * (k * den) + den := by ring
  have next (m : Nat) : (m + 1) * den = m * den + den := Nat.succ_mul _ _
  rcases Nat.lt_trichotomy (num / den) k with below | same | above
  · have bound : (num / den + 1) * den ≤ k * den := Nat.mul_le_mul_right den below
    rw [next] at bound
    exact iff_of_true ((roundHalfEven_le num den).trans below) (.inl (by omega))
  · rw [← same] at middle ⊢
    simp only [roundHalfEven]
    split_ifs <;> omega
  · have bound : (k + 1) * den ≤ num / den * den := Nat.mul_le_mul_right den above
    rw [next] at bound
    exact iff_of_false (Nat.not_le.2 (above.trans_le (le_roundHalfEven num den))) (by omega)

/-- Rounding adds half the denominator at most. -/
theorem roundHalfEven_mul_le (num den : Nat) :
    2 * (roundHalfEven num den * den) ≤ 2 * num + den := by
  have split : num / den * den + num % den = num := Nat.div_add_mod' num den
  have next : (num / den + 1) * den = num / den * den + den := Nat.succ_mul _ _
  rcases roundHalfEven_cases num den with ⟨down, -⟩ | ⟨up, near⟩
  · rw [down]
    omega
  · rw [up]
    omega

/-- Rounding takes away half the denominator at most. -/
theorem le_roundHalfEven_mul (num : Nat) {den : Nat} (pos : 0 < den) :
    2 * num ≤ 2 * (roundHalfEven num den * den) + den := by
  have split : num / den * den + num % den = num := Nat.div_add_mod' num den
  have next : (num / den + 1) * den = num / den * den + den := Nat.succ_mul _ _
  have less : num % den < den := Nat.mod_lt num pos
  rcases roundHalfEven_cases num den with ⟨down, near⟩ | ⟨up, -⟩
  · rw [down]
    omega
  · rw [up]
    omega

/-- No multiple of the denominator is nearer to the numerator. -/
theorem dist_roundHalfEven_le (num m : Nat) {den : Nat} (pos : 0 < den) :
    Nat.dist (roundHalfEven num den * den) num ≤ Nat.dist (m * den) num := by
  have split : num / den * den + num % den = num := Nat.div_add_mod' num den
  have less : num % den < den := Nat.mod_lt num pos
  have next : (num / den + 1) * den = num / den * den + den := Nat.succ_mul _ _
  have multiple : m * den ≤ num / den * den ∨ (num / den + 1) * den ≤ m * den := by
    rcases Nat.lt_or_ge (num / den) m with above | below
    · exact .inr (Nat.mul_le_mul_right den above)
    · exact .inl (Nat.mul_le_mul_right den below)
  simp only [Nat.dist]
  rcases roundHalfEven_cases num den with ⟨down, near⟩ | ⟨up, near⟩
  · rw [down]
    omega
  · rw [up]
    omega

theorem roundHalfEven_mul (q : Nat) {d : Nat} (pos : 0 < d) : roundHalfEven (q * d) d = q := by
  simp [roundHalfEven, pos]

theorem roundHalfEven_scale (num den : Nat) {c : Nat} (pos : 0 < c) :
    roundHalfEven (num * c) (den * c) = roundHalfEven num den := by
  have less (a b : Nat) : (2 * (a * c) < b * c) = (2 * a < b) := by
    rw [← Nat.mul_assoc, Nat.mul_lt_mul_right pos]
  have more (a b : Nat) : (b * c < 2 * (a * c)) = (b < 2 * a) := by
    rw [← Nat.mul_assoc, Nat.mul_lt_mul_right pos]
  simp only [roundHalfEven, Nat.mul_mod_mul_right, Nat.mul_div_mul_right _ _ pos, less, more]

/-! ## Numerals -/

theorem length_padLeft (width : Nat) (ds : List Char) :
    (padLeft width ds).length = max width ds.length := by
  rw [padLeft, List.length_append, List.length_replicate]
  omega

theorem isDigit_of_mem_padLeft {width : Nat} {ds : List Char} (h : ∀ c ∈ ds, isDigit c = true) :
    ∀ c ∈ padLeft width ds, isDigit c = true := by
  intro c hc
  rcases List.mem_append.1 hc with pad | inside
  · rw [List.eq_of_mem_replicate pad]
    rfl
  · exact h c inside

theorem padLeft_eq_self {width : Nat} {ds : List Char} (h : width ≤ ds.length) :
    padLeft width ds = ds := by
  rw [padLeft, Nat.sub_eq_zero_of_le h]
  rfl

theorem exists_dropTrailingZeros_append (ds : List Char) :
    ∃ zeros, ds = dropTrailingZeros ds ++ List.replicate zeros '0' := by
  have all : ∀ c ∈ ds.reverse.takeWhile (· == '0'), c = '0' := by
    intro c hc
    simpa using List.mem_takeWhile_imp hc
  refine ⟨(ds.reverse.takeWhile (· == '0')).length, ?_⟩
  calc ds = (ds.reverse.takeWhile (· == '0') ++ ds.reverse.dropWhile (· == '0')).reverse := by
        rw [List.takeWhile_append_dropWhile, List.reverse_reverse]
    _ = dropTrailingZeros ds ++ (ds.reverse.takeWhile (· == '0')).reverse := List.reverse_append
    _ = dropTrailingZeros ds ++ List.replicate _ '0' := by
        rw [List.eq_replicate_of_mem all, List.reverse_replicate, List.length_replicate]

theorem getLast?_dropTrailingZeros (ds : List Char) :
    (dropTrailingZeros ds).getLast? ≠ some '0' := by
  intro last
  rw [dropTrailingZeros, List.getLast?_reverse] at last
  have kept := List.head?_dropWhile_not (· == '0') ds.reverse
  rw [last] at kept
  exact absurd kept (by decide)

theorem dropTrailingZeros_replicate (k : Nat) : dropTrailingZeros (List.replicate k '0') = [] := by
  rw [dropTrailingZeros, List.reverse_replicate, List.dropWhile_eq_nil_iff.2 (by simp)]
  rfl

namespace Numeral

theorem isDigit_of_mem_whole_ofScaled {n places : Nat} :
    ∀ c ∈ (ofScaled n places).whole, isDigit c = true :=
  fun _ => isDigit_of_mem_digits

theorem isDigit_of_mem_fraction_ofScaled {n places : Nat} :
    ∀ c ∈ (ofScaled n places).fraction, isDigit c = true := by
  rw [ofScaled]
  split
  · simp
  · exact isDigit_of_mem_padLeft fun _ => isDigit_of_mem_digits

theorem length_fraction_ofScaled (n places : Nat) : (ofScaled n places).fraction.length = places := by
  rw [ofScaled]
  split
  case isTrue none => exact none.symm
  case isFalse some =>
    have short : (digits (n % 10 ^ places)).length ≤ places :=
      length_digits_le (by omega) (Nat.mod_lt _ (by positivity))
    rw [length_padLeft, Nat.max_eq_left short]

variable {keep : Nat} {numeral : Numeral}

theorem exists_trimFraction_append (keep : Nat) (numeral : Numeral) : ∃ zeros,
    numeral.fraction = (trimFraction keep numeral).fraction ++ List.replicate zeros '0' := by
  obtain ⟨zeros, dropped⟩ := exists_dropTrailingZeros_append (numeral.fraction.drop keep)
  refine ⟨zeros, ?_⟩
  rw [trimFraction, List.append_assoc, ← dropped, List.take_append_drop]

theorem fraction_trimFraction_isPrefix : (trimFraction keep numeral).fraction <+: numeral.fraction := by
  obtain ⟨zeros, split⟩ := exists_trimFraction_append keep numeral
  exact ⟨_, split.symm⟩

theorem chars_trimFraction_isPrefix (keep : Nat) (numeral : Numeral) :
    (trimFraction keep numeral).chars <+: numeral.chars := by
  obtain ⟨zeros, split⟩ := exists_trimFraction_append keep numeral
  have whole : (trimFraction keep numeral).whole = numeral.whole := rfl
  rw [chars, chars, whole, split]
  by_cases none : (trimFraction keep numeral).fraction = []
  · rw [none, List.isEmpty_nil, if_pos rfl]
    split
    · exact List.prefix_refl _
    · exact List.prefix_append _ _
  · rw [if_neg (by simpa using none), if_neg (by simp [none])]
    exact ⟨List.replicate zeros '0', by simp⟩

theorem le_length_fraction_trimFraction :
    min keep numeral.fraction.length ≤ (trimFraction keep numeral).fraction.length := by
  rw [trimFraction, List.length_append, List.length_take]
  omega

/-- What is left beyond the places that are kept does not end in a zero. -/
theorem getLast?_fraction_trimFraction
    (longer : keep < (trimFraction keep numeral).fraction.length) :
    (trimFraction keep numeral).fraction.getLast? ≠ some '0' := by
  rw [trimFraction] at longer ⊢
  have rest : dropTrailingZeros (numeral.fraction.drop keep) ≠ [] := by
    intro none
    rw [none, List.append_nil, List.length_take] at longer
    omega
  rw [List.getLast?_append_of_ne_nil _ rest]
  exact getLast?_dropTrailingZeros _

/-- An integer that is cut at some places keeps none of them. -/
theorem trimFraction_ofScaled_whole (n places : Nat) :
    trimFraction 0 (ofScaled (n * 10 ^ places) places) = ⟨digits n, []⟩ := by
  have pos : 0 < 10 ^ places := by positivity
  rw [ofScaled, Nat.mul_mod_left, Nat.mul_div_cancel _ pos, trimFraction]
  split
  · rfl
  · have zeros : padLeft places (digits 0) = List.replicate (places - 1 + 1) '0' := by
      rw [digits_zero, padLeft, List.replicate_succ']
      rfl
    simp [zeros, dropTrailingZeros_replicate]

end Numeral

end MessageFormat.Decimal
