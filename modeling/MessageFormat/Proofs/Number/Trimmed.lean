import MessageFormat.Proofs.Number.Body

/-!
# Grouped and trimmed digits

Trimming takes zeros behind the point away and nothing else, so a text goes on to denote the same
number (`denoted_eq_of_zeros`), and the point itself goes with the last of the digits behind it
(`IsDigital.getLast?_chars`).
-/

namespace MessageFormat.NumberFormat

open Decimal (Numeral isDigit valueOf)

variable {numeral : Numeral} {text other : List Char}

/-- The number that a text of digits denotes. -/
def denoted (text : List Char) : ℚ :=
  valueOf (wholeDigits text ++ fractionDigits text) / 10 ^ (fractionDigits text).length

theorem denoted_eq_of_zeros {zeros : Nat} (whole : wholeDigits other = wholeDigits text)
    (fraction : fractionDigits other = fractionDigits text ++ List.replicate zeros '0') :
    denoted other = denoted text := by
  have value : valueOf (wholeDigits other ++ fractionDigits other) =
      10 ^ zeros * valueOf (wholeDigits text ++ fractionDigits text) := by
    rw [whole, fraction, ← List.append_assoc, Decimal.valueOf_append_zeros]
  have places : (fractionDigits other).length = zeros + (fractionDigits text).length := by
    rw [fraction, List.length_append, List.length_replicate, Nat.add_comm]
  rw [denoted, denoted, value, places, pow_add]
  push_cast
  exact mul_div_mul_left _ _ (by positivity)

namespace IsDigital

theorem wholeDigits_chars (h : IsDigital numeral) : wholeDigits numeral.chars = numeral.whole :=
  (NumberFormat.wholeDigits_chars (h.not_mem rfl).1).trans (List.filter_eq_self.2 h.whole)

theorem fractionDigits_chars (h : IsDigital numeral) :
    fractionDigits numeral.chars = numeral.fraction :=
  NumberFormat.fractionDigits_chars (h.not_mem rfl).1 h.fraction

/-- A numeral ends in a digit. -/
theorem getLast?_chars (h : IsDigital numeral) : numeral.chars.getLast? ≠ some '.' := by
  obtain ⟨whole, fraction⟩ := h.not_mem (c := '.') rfl
  rw [Numeral.chars]
  split
  case isTrue => exact fun last => whole (List.mem_of_mem_getLast? last)
  case isFalse some =>
    have nonempty : numeral.fraction ≠ [] := by simpa using some
    rw [List.getLast?_append_of_ne_nil _ (List.cons_ne_nil _ _),
      List.getLast?_cons_of_ne_nil nonempty]
    exact fun last => fraction (List.mem_of_mem_getLast? last)

end IsDigital

/-- Digits are grouped by three from the right. A text of digits keeps its integer part and what it
denotes when it is trimmed; of its fraction it keeps the places that it is to keep, if it has them,
and it ends neither in a zero behind these nor in a point. -/
theorem grouped_and_trimmed {ds : List Char} (nonempty : ds ≠ []) (digital : IsDigital numeral)
    (keep : Nat) :
    let text := numeral.chars
    let trimmed := (numeral.trimFraction keep).chars
    Grouped ds (group ds) ∧ trimmed <+: text ∧ wholeDigits trimmed = wholeDigits text ∧
    denoted trimmed = denoted text ∧
    min keep (fractionDigits text).length ≤ (fractionDigits trimmed).length ∧
    (keep < (fractionDigits trimmed).length → (fractionDigits trimmed).getLast? ≠ some '0') ∧
    trimmed.getLast? ≠ some '.' := by
  intro text trimmed
  have left : IsDigital (numeral.trimFraction keep) := digital.trimFraction keep
  have whole : wholeDigits trimmed = wholeDigits text :=
    left.wholeDigits_chars.trans digital.wholeDigits_chars.symm
  have before : fractionDigits text = numeral.fraction := digital.fractionDigits_chars
  have after : fractionDigits trimmed = (numeral.trimFraction keep).fraction :=
    left.fractionDigits_chars
  obtain ⟨zeros, split⟩ := Numeral.exists_trimFraction_append keep numeral
  refine ⟨grouped_group nonempty, Numeral.chars_trimFraction_isPrefix keep numeral, whole, ?_, ?_,
    ?_, left.getLast?_chars⟩
  · exact (denoted_eq_of_zeros whole.symm (by rw [before, after, split])).symm
  · rw [before, after]
    exact Numeral.le_length_fraction_trimFraction
  · rw [after]
    exact Numeral.getLast?_fraction_trimFraction

/-- If no place is to be kept, zeros behind the point take the point with them. -/
theorem grouped_and_trimmed_thousand :
    let ds := ['1', '0', '0', '0']
    let numeral : Numeral := ⟨ds, ['0', '0']⟩
    ds ≠ [] ∧ IsDigital numeral ∧ group ds = ['1', ',', '0', '0', '0'] ∧
      numeral.chars = ['1', '0', '0', '0', '.', '0', '0'] ∧ (numeral.trimFraction 0).chars = ds ∧
      Grouped ds ['1', ',', '0', '0', '0'] ∧
      denoted ds = denoted ['1', '0', '0', '0', '.', '0', '0'] := by
  intro ds numeral
  have nonempty : ds ≠ [] := by decide
  have digital : IsDigital numeral := ⟨by simp [numeral, ds, isDigit], by simp [numeral, isDigit],
    nonempty⟩
  obtain ⟨grouped, -, -, same, -⟩ := grouped_and_trimmed nonempty digital 0
  exact ⟨nonempty, digital, rfl, rfl, rfl, grouped, same⟩

end MessageFormat.NumberFormat
