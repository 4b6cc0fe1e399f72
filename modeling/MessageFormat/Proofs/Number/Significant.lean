import MessageFormat.Proofs.Binary64.Exponent
import MessageFormat.Proofs.Number.Body

/-!
# Significant digits of numbers

The places that a number keeps are found from its logarithm before it is rounded, and the least
number of digits is looked at only where a greatest is set. So a number may show too many digits
where rounding carries and the zeros behind the carry are kept, or where its logarithm came out too
small (`Overflows`), and too few where its logarithm came out too great (`FallsShort`). Where places
before the point are dropped, its digits are those of a floating-point product, which is exact unless
the number is large (`exists_isWhole_rescaled`). Main statement:
`NumberFormat.significantDigits_format_iff`, for the elementary functions of any platform.
-/

namespace MessageFormat.NumberFormat

open Binary64 (Elementary HasUnits IsWhole count decimalExponent magnitude)
open Decimal (Numeral dropTrailingZeros isDigit)

-- The unit and the limit are too large to be unfolded.
attribute [local irreducible] unitsPerOne unitsLimit

/-! ## Significant digits of a body -/

/-- The digits of a body from the first that is not zero. -/
def significantDigits (body : List Char) : List Char :=
  (wholeDigits body ++ fractionDigits body).dropWhile (· == '0')

/-- The significant digits without zeros that only fill the places before the point. -/
def unfilledDigits (body : List Char) : List Char :=
  if fractionDigits body = [] then dropTrailingZeros (significantDigits body)
  else significantDigits body

section Body

variable {numeral : Numeral} {options : NumberOptions}

theorem filter_isDigit_groups (ds : List Char) : (group ds).filter isDigit = ds.filter isDigit := by
  have comma : isDigit ',' = false := rfl
  induction ds with
  | nil => rfl
  | cons d rest ih =>
    rw [group]
    split <;> simp [List.filter_cons, comma, ih]

theorem filter_isDigit_written (numeral : Numeral) (options : NumberOptions) :
    ∃ zeros, (written numeral options).filter isDigit =
      List.replicate zeros '0' ++ numeral.whole.filter isDigit := by
  have zero : isDigit '0' = true := rfl
  refine ⟨options.minimumIntegerDigits.getD 1 - numeral.whole.length, ?_⟩
  rw [written]
  split <;> simp [filter_isDigit_groups, padded, Decimal.padLeft, List.filter_append, zero]

theorem significantDigits_body (point : '.' ∉ numeral.whole)
    (fraction : ∀ c ∈ numeral.fraction, isDigit c = true) :
    significantDigits (body numeral options) =
      (numeral.whole.filter isDigit ++ numeral.fraction).dropWhile (· == '0') := by
  obtain ⟨zeros, filtered⟩ := filter_isDigit_written numeral options
  rw [significantDigits, wholeDigits_body point, fractionDigits_body point fraction, filtered,
    List.append_assoc, List.dropWhile_append_of_pos]
  intro c hc
  simp [List.eq_of_mem_replicate hc]

theorem IsDigital.significantDigits_body (digital : IsDigital numeral) :
    significantDigits (body numeral options) = numeral.significant := by
  rw [NumberFormat.significantDigits_body (digital.not_mem rfl).1 digital.fraction,
    List.filter_eq_self.2 digital.whole, Numeral.significant]

theorem IsDigital.unfilledDigits_body (digital : IsDigital numeral) :
    unfilledDigits (body numeral options) = numeral.unfilled := by
  rw [unfilledDigits, digital.significantDigits_body,
    fractionDigits_body (digital.not_mem rfl).1 digital.fraction, Numeral.unfilled]

theorem significantDigits_infinite :
    significantDigits (body ⟨['i', 'n', 'f'], []⟩ options) = [] := by
  rw [significantDigits_body (by simp) (by simp)]
  rfl

theorem unfilledDigits_infinite : unfilledDigits (body ⟨['i', 'n', 'f'], []⟩ options) = [] := by
  rw [unfilledDigits, significantDigits_infinite]
  exact ite_self []

theorem isDigital_fixed (units places : Nat) : IsDigital (Binary64.fixed units places) :=
  isDigital_ofScaled _ _

end Body

/-! ## Bounds of the options -/

/-- The numbers of significant digits, where they are set, are in order and supported. -/
structure SignificantLimits (options : NumberOptions) : Prop where
  least_pos : ∀ least, options.minimumSignificantDigits = some least → 1 ≤ least
  ordered : ∀ least greatest, options.minimumSignificantDigits = some least →
    options.maximumSignificantDigits = some greatest → least ≤ greatest
  greatest_pos : ∀ greatest, options.maximumSignificantDigits = some greatest → 1 ≤ greatest
  supported : ∀ greatest, options.maximumSignificantDigits = some greatest → greatest ≤ 21

/-- So many digits are kept, even if they are zeros behind the point. -/
def leastDigits (options : NumberOptions) : Nat :=
  options.minimumSignificantDigits.getD 1

/-- The places behind the point that are kept for so many significant digits. -/
def keptPlaces [Elementary] (units digits : Nat) : Nat :=
  ((digits : Int) - 1 - magnitude units).toNat

/-- The places before the point that are not kept for so many significant digits. -/
def droppedPlaces [Elementary] (units digits : Nat) : Nat :=
  (magnitude units + 1 - digits).toNat

/-- A magnitude rounded to a power of ten, as floating-point numbers. -/
def rescaled [Elementary] (units places : Nat) : Binary64 :=
  let power := Elementary.powerOfTen places
  (Binary64.round false units 1 / power).roundHalfAway * power

section Numeral

variable {options : NumberOptions} {units least greatest : Nat}

theorem SignificantLimits.leastDigits_pos (limits : SignificantLimits options) :
    1 ≤ leastDigits options := by
  rw [leastDigits]
  cases set : options.minimumSignificantDigits with
  | none => exact le_rfl
  | some least => exact limits.least_pos least set

theorem SignificantLimits.leastDigits_le (limits : SignificantLimits options)
    (set : options.maximumSignificantDigits = some greatest) : leastDigits options ≤ greatest := by
  rw [leastDigits]
  cases asked : options.minimumSignificantDigits with
  | none => exact limits.greatest_pos greatest set
  | some least => exact limits.ordered least greatest asked set

theorem SignificantLimits.getD_bind_fits? (limits : SignificantLimits options)
    (set : options.maximumSignificantDigits = some greatest) :
    (options.minimumSignificantDigits.bind fits?).getD 1 = leastDigits options := by
  have small := limits.leastDigits_le set
  have supported := limits.supported greatest set
  rw [leastDigits] at small ⊢
  cases asked : options.minimumSignificantDigits with
  | none => rfl
  | some least =>
    rw [asked, Option.getD_some] at small
    simp [fits?, show least < 2 ^ 31 by omega]

theorem numeral_eq_withSignificant [Elementary] (units : Nat) (limits : SignificantLimits options)
    (set : options.maximumSignificantDigits = some greatest) :
    numeral units options =
      if greatest ≤ magnitude units + 1 then
        integerNumeral (rescaled units (droppedPlaces units greatest))
      else (Binary64.fixed units (keptPlaces units greatest)).trimFraction
        (keptPlaces units (leastDigits options)) := by
  have pos := limits.greatest_pos greatest set
  have supported := limits.supported greatest set
  have least := limits.leastDigits_le set
  have fits : fits? (max greatest 1) = some greatest := by
    rw [Nat.max_eq_left pos, fits?, if_pos (by omega)]
  have dropped : ((greatest : Int) - 1 - magnitude units).natAbs = droppedPlaces units greatest ∨
      ¬ greatest ≤ magnitude units + 1 := by
    rw [droppedPlaces]
    omega
  simp only [numeral, set, withSignificant, fits, Option.getD_some, limits.getD_bind_fits? set,
    Nat.min_eq_left least]
  by_cases large : greatest ≤ magnitude units + 1
  · rw [if_pos (by omega), if_pos large, dropped.resolve_right (not_not.2 large)]
    rfl
  · rw [if_neg (by omega), if_neg large]
    rfl

end Numeral

/-! ## Places behind the point -/

section Places

variable [Elementary] {units least greatest : Nat}

/-- The number is not rounded up to the power of ten that its logarithm came out at, and so many of
its last digits are zeros that too few are left. -/
def FallsShort (units least greatest : Nat) : Prop :=
  magnitude units < least ∧ count units (keptPlaces units greatest) < 10 ^ (greatest - 1) ∧
    10 ^ (greatest - least) ∣ count units (keptPlaces units greatest)

/-- The number is rounded to a power of ten, and all the zeros are kept. -/
def Carries (units least greatest : Nat) : Prop :=
  least = greatest ∧ count units (keptPlaces units greatest) = 10 ^ greatest

/-- The number is rounded to more digits than are allowed, as it carries or its logarithm came out
below its first digit. None of the zeros at the end may be dropped, there is none, or, where it carries
as well, there is one too many. -/
def Overflows (units least greatest : Nat) : Prop :=
  10 ^ greatest ≤ count units (keptPlaces units greatest) ∧
    (least = greatest ∨ ¬ 10 ∣ count units (keptPlaces units greatest) ∨
      least + 1 = greatest ∧ magnitude units + 1 < least ∧
        count units (keptPlaces units greatest) = 10 ^ (greatest + 1))

theorem keptPlaces_mono (h : least ≤ greatest) : keptPlaces units least ≤ keptPlaces units greatest := by
  rw [keptPlaces, keptPlaces]
  omega

/-- The first digit is not more than one place behind that of the logarithm. -/
theorem ten_pow_le_count (pos : 0 < units) (two : 2 ≤ greatest)
    (behind : magnitude units + 1 < greatest) :
    10 ^ (greatest - 2) ≤ count units (keptPlaces units greatest) := by
  have near := Binary64.magnitude_bounds pos
  apply Binary64.le_count pos
  rw [keptPlaces]
  omega

/-- The first digit is not more than one place before that of the logarithm, unless it carries. -/
theorem count_le_ten_pow (pos : 0 < units) (behind : magnitude units + 1 < greatest) :
    count units (keptPlaces units greatest) ≤ 10 ^ (greatest + 1) := by
  have near := Binary64.magnitude_bounds pos
  apply Binary64.count_le pos
  rw [keptPlaces]
  omega

theorem le_length_significant_iff_not_fallsShort (pos : 0 < units) (one : 1 ≤ least)
    (ordered : least ≤ greatest) (behind : magnitude units + 1 < greatest) :
    least ≤ ((Binary64.fixed units (keptPlaces units greatest)).trimFraction
        (keptPlaces units least)).significant.length ↔ ¬ FallsShort units least greatest := by
  have first (two : 2 ≤ greatest) := ten_pow_le_count pos two behind
  rw [Binary64.fixed_eq, Numeral.le_length_significant_iff (keptPlaces_mono ordered) one, FallsShort]
  generalize count units (keptPlaces units greatest) = n at first ⊢
  rw [keptPlaces, keptPlaces]
  constructor
  · rintro enough ⟨below, short, multiple⟩
    have reached := enough (greatest - least) (by omega) multiple
    have all : least - 1 + (greatest - least) = greatest - 1 := by omega
    rw [all] at reached
    omega
  · intro long zeros few multiple
    by_contra short
    -- No place but the first is missing, so all zeros behind the least digits are dropped.
    have missing : greatest - 1 ≤ least - 1 + zeros := by
      by_contra enough
      have power : 10 ^ (least - 1 + zeros) ≤ 10 ^ (greatest - 2) :=
        Nat.pow_le_pow_right (by omega) (by omega)
      exact short (power.trans (first (by omega)))
    have all : zeros = greatest - least := by omega
    have digits : least - 1 + zeros = greatest - 1 := by omega
    rw [digits] at short
    exact long ⟨by omega, by omega, all ▸ multiple⟩

theorem length_unfilled_le_iff_not_overflows (pos : 0 < units) (one : 1 ≤ least)
    (ordered : least ≤ greatest) (behind : magnitude units + 1 < greatest) :
    ((Binary64.fixed units (keptPlaces units greatest)).trimFraction
        (keptPlaces units least)).unfilled.length ≤ greatest ↔ ¬ Overflows units least greatest := by
  have limit := count_le_ten_pow pos behind
  rw [Binary64.fixed_eq, Numeral.length_unfilled_le_iff (keptPlaces_mono ordered), Overflows]
  generalize count units (keptPlaces units greatest) = n at limit ⊢
  rw [keptPlaces, keptPlaces]
  constructor
  · rintro ⟨zeros, few, multiple, less⟩ ⟨reached, stuck⟩
    have some : zeros ≠ 0 := by
      rintro rfl
      exact Nat.not_le.2 less reached
    rcases stuck with rfl | none | ⟨next, far, rfl⟩
    · omega
    · exact none ((dvd_pow_self 10 some).trans multiple)
    · have once : zeros = 1 := by omega
      exact less.ne (by rw [once])
  · intro room
    rcases Nat.lt_or_ge n (10 ^ greatest) with less | reached
    · exact ⟨0, by simp, by simp, less⟩
    · simp only [reached, true_and, not_or, not_not, not_and] at room
      obtain ⟨apart, multiple, twice⟩ := room
      rcases limit.lt_or_eq with less | rfl
      · exact ⟨1, by omega, by simpa using multiple, less⟩
      · refine ⟨2, fun kept => ?_, Nat.pow_dvd_pow 10 (by omega),
          Nat.pow_lt_pow_right (by omega) (by omega)⟩
        have more : least + 1 ≠ greatest := fun next => twice next (by omega) rfl
        omega

/-- With an exact logarithm there are more digits only if the number carries. -/
theorem Overflows.carries (h : Overflows units least greatest) (pos : 0 < units)
    (exact : magnitude units = decimalExponent units) (behind : magnitude units + 1 < greatest)
    (one : 1 ≤ greatest) : Carries units least greatest := by
  obtain ⟨reached, stuck⟩ := h
  have limit : count units (keptPlaces units greatest) ≤ 10 ^ greatest := by
    apply Binary64.count_le pos
    rw [keptPlaces]
    omega
  have carried := Nat.le_antisymm limit reached
  rw [carried] at stuck
  refine ⟨?_, carried⟩
  rcases stuck with same | none | ⟨-, -, twice⟩
  · exact same
  · exact absurd (dvd_pow_self 10 (Nat.ne_of_gt one)) none
  · exact absurd twice (Nat.pow_lt_pow_right (by omega) (Nat.lt_succ_self greatest)).ne

end Places

/-! ## Places before the point -/

section Rescaled

variable {x : Binary64} {negative : Bool} {units shown digits places : Nat}

theorem integerNumeral_of_hasUnits (h : HasUnits x negative shown) :
    integerNumeral x = .ofScaled (count shown 0) 0 := by
  obtain ⟨_, _, rfl⟩ := h
  rfl

theorem integerNumeral_of_not_finite (h : ∀ negative shown, ¬ HasUnits x negative shown) :
    integerNumeral x = ⟨['i', 'n', 'f'], []⟩ := by
  cases x with
  | finite negative units significant bounded => exact absurd ⟨significant, bounded, rfl⟩ (h _ _)
  | nan => rfl
  | infinite => rfl

theorem count_whole (k : Nat) : count (k * unitsPerOne) 0 = k := by
  rw [count, Nat.pow_zero, Nat.mul_one, Decimal.roundHalfEven_mul k unitsPerOne_pos]

/-- Divided by the power of ten, rounded and multiplied back, a number that is not large becomes a
multiple of the power with the digits that are kept, or with one more if it carries. -/
theorem exists_isWhole_rescaled [Elementary] (significant : Significant units)
    (bounded : units < unitsLimit) (one : 1 ≤ digits) (few : digits + places ≤ 16)
    (lower : 10 ^ (digits - 1) * unitsPerOne * 10 ^ places ≤ units)
    (upper : units ≤ 10 ^ digits * unitsPerOne * 10 ^ places) :
    ∃ k, 10 ^ (digits - 1) ≤ k ∧ k ≤ 10 ^ digits ∧
      IsWhole (rescaled units places) false (k * 10 ^ places) := by
  have power : IsWhole (Elementary.powerOfTen places) false (10 ^ places) :=
    Binary64.isWhole_powerOfTen (by omega)
  have powerPos : 0 < 10 ^ places := by positivity
  have quotient := (Binary64.hasUnits_round_of_significant false significant bounded).div_whole
    power powerPos
  have least : 10 ^ (digits - 1) * unitsPerOne ≤ roundUnits units (10 ^ places) :=
    le_roundUnits (Binary64.significant_ten_pow_ones (by omega)) powerPos lower
  have greatest : roundUnits units (10 ^ places) ≤ 10 ^ digits * unitsPerOne :=
    roundUnits_le_of_le (Binary64.significant_ten_pow_ones (by omega)) powerPos upper
  have rounded := quotient.roundHalfAway
  generalize roundUnits units (10 ^ places) = q at least greatest rounded
  obtain ⟨low, high⟩ := Binary64.nearest_bounds least greatest
  generalize (2 * q + unitsPerOne) / (2 * unitsPerOne) = k at rounded low high
  have product : k * 10 ^ places ≤ 10 ^ 16 := by
    calc k * 10 ^ places ≤ 10 ^ digits * 10 ^ places := Nat.mul_le_mul_right _ high
      _ = 10 ^ (digits + places) := (Nat.pow_add ..).symm
      _ ≤ 10 ^ 16 := Nat.pow_le_pow_right (by omega) few
  refine ⟨k, low, high, rounded.mul power ?_ (Binary64.mul_unitsPerOne_lt (by omega))⟩
  rcases Nat.eq_zero_or_pos places with rfl | some
  · rw [Nat.pow_zero, Nat.mul_one]
    exact HasUnits.significant rounded
  · exact Binary64.significant_mul_ten_pow some product

end Rescaled

/-! ## The numeral of a number -/

section Shown

variable [Elementary] {options : NumberOptions} {units least greatest : Nat}

/-- So many digits are left at least, whatever zeros are dropped at their end. -/
def ReachesLeast (options : NumberOptions) (units least : Nat) : Prop :=
  match options.maximumSignificantDigits with
  | none =>
      let bounds := fractionBounds options
      ∀ zeros ≤ bounds.2 - bounds.1, 10 ^ zeros ∣ count units bounds.2 →
        10 ^ (least - 1 + zeros) ≤ count units bounds.2
  | some greatest =>
      if greatest ≤ magnitude units + 1 then
        ∃ negative shown, HasUnits (rescaled units (droppedPlaces units greatest)) negative shown ∧
          10 ^ (least - 1) ≤ count shown 0
      else ¬ FallsShort units least greatest

/-- There are no more digits, if zeros are not counted that only fill the places before the point. -/
def KeepsGreatest (options : NumberOptions) (units greatest : Nat) : Prop :=
  if greatest ≤ magnitude units + 1 then
    ∀ negative shown, HasUnits (rescaled units (droppedPlaces units greatest)) negative shown →
      ∃ zeros, 10 ^ zeros ∣ count shown 0 ∧ count shown 0 < 10 ^ (greatest + zeros)
  else ¬ Overflows units (leastDigits options) greatest

/-- A number is rounded behind the point, or before it to an integer, which may be past all finite
numbers. -/
theorem numeral_cases (units : Nat) (limits : SignificantLimits options)
    (set : options.maximumSignificantDigits = some greatest) :
    (¬ greatest ≤ magnitude units + 1 ∧
      numeral units options = (Binary64.fixed units (keptPlaces units greatest)).trimFraction
        (keptPlaces units (leastDigits options))) ∨
    (greatest ≤ magnitude units + 1 ∧ ∃ negative shown,
      HasUnits (rescaled units (droppedPlaces units greatest)) negative shown ∧
        numeral units options = .ofScaled (count shown 0) 0) ∨
    (greatest ≤ magnitude units + 1 ∧
      (∀ negative shown, ¬ HasUnits (rescaled units (droppedPlaces units greatest)) negative shown) ∧
        numeral units options = ⟨['i', 'n', 'f'], []⟩) := by
  have shape := numeral_eq_withSignificant units limits set
  by_cases before : greatest ≤ magnitude units + 1
  · rw [if_pos before] at shape
    by_cases finite : ∃ negative shown,
        HasUnits (rescaled units (droppedPlaces units greatest)) negative shown
    · obtain ⟨negative, shown, h⟩ := finite
      rw [integerNumeral_of_hasUnits h] at shape
      exact .inr (.inl ⟨before, negative, shown, h, shape⟩)
    · push Not at finite
      rw [integerNumeral_of_not_finite finite] at shape
      exact .inr (.inr ⟨before, finite, shape⟩)
  · rw [if_neg before] at shape
    exact .inl ⟨before, shape⟩

theorem minus_not_mem_body (units : Nat) (limits : SignificantLimits options) :
    '-' ∉ body (numeral units options) options := by
  cases set : options.maximumSignificantDigits with
  | none =>
    rw [numeral, set]
    exact (isDigital_withFraction units options).minus_not_mem_body
  | some greatest =>
    rcases numeral_cases units limits set with ⟨-, kept⟩ | ⟨-, -, shown, -, whole⟩ | ⟨-, -, infinite⟩
    · rw [kept]
      exact ((isDigital_fixed _ _).trimFraction _).minus_not_mem_body
    · rw [whole]
      exact (isDigital_ofScaled _ _).minus_not_mem_body
    · rw [infinite]
      exact not_mem_body (by simp) (by simp) (by simp) (by simp)

theorem le_length_significantDigits_iff (pos : 0 < units) (limits : SignificantLimits options)
    (asked : options.minimumSignificantDigits = some least) :
    least ≤ (significantDigits (body (numeral units options) options)).length ↔
      ReachesLeast options units least := by
  have one := limits.least_pos least asked
  cases set : options.maximumSignificantDigits with
  | none =>
    have free : numeral units options = withFraction units options := by rw [numeral, set]
    have ordered : (fractionBounds options).1 ≤ (fractionBounds options).2 := Nat.le_max_right _ _
    rw [ReachesLeast, set, free, (isDigital_withFraction units options).significantDigits_body,
      withFraction, Binary64.fixed_eq, Numeral.le_length_significant_iff ordered one]
  | some greatest =>
    have ordered := limits.ordered least greatest asked set
    rw [ReachesLeast, set]
    dsimp only
    rcases numeral_cases units limits set with
      ⟨behind, kept⟩ | ⟨before, negative, shown, h, whole⟩ | ⟨before, none, infinite⟩
    · have digits : leastDigits options = least := by rw [leastDigits, asked, Option.getD_some]
      rw [if_neg behind, kept, ((isDigital_fixed _ _).trimFraction _).significantDigits_body, digits,
        le_length_significant_iff_not_fallsShort pos one ordered (Int.not_le.1 behind)]
    · rw [if_pos before, whole, (isDigital_ofScaled _ _).significantDigits_body,
        Numeral.length_significant_ofScaled, Decimal.le_digitCount_iff one]
      constructor
      · exact fun enough => ⟨negative, shown, h, enough⟩
      · rintro ⟨_, _, h', enough⟩
        rwa [h.unique h']
    · rw [if_pos before, infinite, significantDigits_infinite]
      apply iff_of_false (Nat.not_le.2 one)
      rintro ⟨_, _, h, -⟩
      exact none _ _ h

theorem length_unfilledDigits_le_iff (pos : 0 < units) (limits : SignificantLimits options)
    (set : options.maximumSignificantDigits = some greatest) :
    (unfilledDigits (body (numeral units options) options)).length ≤ greatest ↔
      KeepsGreatest options units greatest := by
  rw [KeepsGreatest]
  rcases numeral_cases units limits set with
    ⟨behind, kept⟩ | ⟨before, negative, shown, h, whole⟩ | ⟨before, none, infinite⟩
  · rw [if_neg behind, kept, ((isDigital_fixed _ _).trimFraction _).unfilledDigits_body,
      length_unfilled_le_iff_not_overflows pos limits.leastDigits_pos (limits.leastDigits_le set)
        (Int.not_le.1 behind)]
  · rw [if_pos before, whole, (isDigital_ofScaled _ _).unfilledDigits_body,
      Numeral.length_unfilled_ofScaled_le_iff]
    constructor
    · rintro ⟨zeros, -, multiple, less⟩ _ _ h'
      rw [← h.unique h']
      exact ⟨zeros, multiple, less⟩
    · intro enough
      obtain ⟨zeros, multiple, less⟩ := enough _ _ h
      exact ⟨zeros, by simp, multiple, less⟩
  · rw [if_pos before, infinite, unfilledDigits_infinite]
    exact iff_of_true (Nat.zero_le _) fun _ _ h => absurd h (none _ _)

/-! ## Numbers that are not large -/

/-- The logarithm is rounded down to the exponent, the number has sixteen places before the point at
most, and it does not carry where all zeros are kept. -/
structure Ordinary (options : NumberOptions) (units greatest : Nat) : Prop where
  logarithm : magnitude units = decimalExponent units
  small : units < 10 ^ 16 * unitsPerOne
  uncarried : magnitude units + 1 < greatest → ¬ Carries units (leastDigits options) greatest

/-- A number that is rounded to a power of ten is rounded to as many digits as are allowed, or it
carries to the next power. -/
theorem Ordinary.exists_rescaled (ordinary : Ordinary options units greatest) (pos : 0 < units)
    (significant : Significant units) (bounded : units < unitsLimit) (one : 1 ≤ greatest)
    (before : greatest ≤ magnitude units + 1) :
    ∃ k, 10 ^ (greatest - 1) ≤ k ∧ k ≤ 10 ^ greatest ∧
      HasUnits (rescaled units (droppedPlaces units greatest)) false
        (k * 10 ^ droppedPlaces units greatest * unitsPerOne) := by
  have few : decimalExponent units < 16 := by
    by_contra many
    have reached : 10 ^ 16 * unitsPerOne ≤ units * 10 ^ 0 :=
      Binary64.le_of_le_decimalExponent pos (by omega)
    exact absurd ordinary.small (by omega)
  have dropped : (droppedPlaces units greatest : Int) = decimalExponent units + 1 - greatest := by
    have logarithm := ordinary.logarithm
    rw [droppedPlaces]
    omega
  generalize droppedPlaces units greatest = places at *
  apply exists_isWhole_rescaled significant bounded one (by omega)
  · have least : 10 ^ (greatest - 1 + places) * unitsPerOne ≤ units * 10 ^ 0 :=
      Binary64.le_of_le_decimalExponent pos (by omega)
    calc 10 ^ (greatest - 1) * unitsPerOne * 10 ^ places
        = 10 ^ (greatest - 1 + places) * unitsPerOne := by ring
      _ ≤ units := by simpa using least
  · have limit : units * 10 ^ 0 < 10 ^ (greatest + places) * unitsPerOne :=
      Binary64.lt_of_decimalExponent_lt pos (by omega)
    calc units ≤ 10 ^ (greatest + places) * unitsPerOne := by simpa using limit.le
      _ = 10 ^ greatest * unitsPerOne * 10 ^ places := by ring

theorem Ordinary.reachesLeast (ordinary : Ordinary options units greatest) (pos : 0 < units)
    (significant : Significant units) (bounded : units < unitsLimit)
    (limits : SignificantLimits options) (set : options.maximumSignificantDigits = some greatest)
    (asked : options.minimumSignificantDigits = some least) : ReachesLeast options units least := by
  have one := limits.greatest_pos greatest set
  have ordered := limits.ordered least greatest asked set
  rw [ReachesLeast, set]
  dsimp only
  split
  case isTrue before =>
    obtain ⟨k, low, -, h⟩ := ordinary.exists_rescaled pos significant bounded one before
    refine ⟨_, _, h, ?_⟩
    rw [count_whole]
    calc 10 ^ (least - 1) ≤ 10 ^ (greatest - 1) := Nat.pow_le_pow_right (by omega) (by omega)
      _ ≤ k := low
      _ ≤ k * 10 ^ droppedPlaces units greatest := Nat.le_mul_of_pos_right k (by positivity)
  case isFalse behind =>
    rintro ⟨-, short, -⟩
    apply Nat.not_le.2 short
    apply Binary64.le_count pos
    rw [keptPlaces, ordinary.logarithm]
    omega

theorem Ordinary.keepsGreatest (ordinary : Ordinary options units greatest) (pos : 0 < units)
    (significant : Significant units) (bounded : units < unitsLimit) (one : 1 ≤ greatest) :
    KeepsGreatest options units greatest := by
  rw [KeepsGreatest]
  split
  case isTrue before =>
    intro _ _ h'
    obtain ⟨k, -, high, h⟩ := ordinary.exists_rescaled pos significant bounded one before
    rw [← h.unique h', count_whole]
    generalize droppedPlaces units greatest = places
    rcases high.lt_or_eq with less | rfl
    · refine ⟨places, Nat.dvd_mul_left _ _, ?_⟩
      rw [Nat.pow_add]
      exact Nat.mul_lt_mul_of_pos_right less (by positivity)
    · rw [← Nat.pow_add]
      exact ⟨places + 1, Nat.pow_dvd_pow 10 (by omega), Nat.pow_lt_pow_right (by omega) (by omega)⟩
  case isFalse behind =>
    intro overflows
    apply ordinary.uncarried (Int.not_le.1 behind)
    exact overflows.carries pos ordinary.logarithm (Int.not_le.1 behind) one

end Shown

/-! ## Digits of a number -/

section Format

variable {value : Binary64} {options : NumberOptions} {negative : Bool} {units : Nat}

theorem units_pos_of_scaled (h : HasUnits (scaled value options) negative units)
    (nonzero : value.isPositive = true ∨ value.isNegative = true) : 0 < units := by
  have pos {sign : Bool} {magnitude : Nat} (h : HasUnits value sign magnitude) : 0 < magnitude := by
    obtain ⟨_, _, rfl⟩ := h
    cases sign <;>
      simpa [Binary64.isPositive, Binary64.isNegative, Nat.pos_iff_ne_zero] using nonzero
  have hundred : IsWhole 100 false 100 := Binary64.isWhole_ofInt (by decide)
  rw [scaled] at h
  split at h
  · obtain ⟨sign, magnitude, found, rfl⟩ := h.of_mul_whole hundred
    exact roundUnits_pos (Nat.mul_pos (pos found) (by decide))
  · exact pos h

/-- Just when a number shows the least number of significant digits that is set, and no more than the
greatest: `ReachesLeast` and `KeepsGreatest` are conditions on its magnitude, on any platform. They
hold of every number that is not large, if its logarithm is rounded down to its exponent and it does
not carry where as many zeros are kept as digits are allowed. Without a greatest number the least is
not looked at. -/
theorem significantDigits_format_iff [Elementary] (value : Binary64) (options : NumberOptions)
    (nonzero : value.isPositive = true ∨ value.isNegative = true)
    (finite : (scaled value options).isFinite = true) (limits : SignificantLimits options) :
    ∃ negative units body, HasUnits (scaled value options) negative units ∧
      (∀ other, IsBody options (format value options) other ↔ other = body) ∧
      (options.maximumSignificantDigits = none →
        format value options = format value { options with minimumSignificantDigits := none }) ∧
      (∀ least, options.minimumSignificantDigits = some least →
        (least ≤ (significantDigits body).length ↔ ReachesLeast options units least)) ∧
      ∀ greatest, options.maximumSignificantDigits = some greatest →
        ((unfilledDigits body).length ≤ greatest ↔ KeepsGreatest options units greatest) ∧
        (Ordinary options units greatest → (unfilledDigits body).length ≤ greatest ∧
          ∀ least, options.minimumSignificantDigits = some least →
            least ≤ (significantDigits body).length) := by
  obtain ⟨negative, units, significant, bounded, h⟩ := exists_eq_finite finite
  have has : HasUnits (scaled value options) negative units := ⟨significant, bounded, h⟩
  have pos := units_pos_of_scaled has nonzero
  have shown := isBody_format h (minus_not_mem_body units limits)
  refine ⟨negative, units, _, has, fun _ => shown.iff_eq, ?_, ?_, ?_⟩
  · intro free
    simp only [format, scaled, numeral, free, withFraction, fractionBounds, body, decorate]
  · intro least asked
    exact le_length_significantDigits_iff pos limits asked
  · intro greatest set
    have most := length_unfilledDigits_le_iff pos limits set
    refine ⟨most, fun ordinary => ⟨most.2 ?_, fun least asked => ?_⟩⟩
    · exact ordinary.keepsGreatest pos significant bounded (limits.greatest_pos greatest set)
    · exact (le_length_significantDigits_iff pos limits asked).2
        (ordinary.reachesLeast pos significant bounded limits set asked)

theorem significantDigits_format_one :
    ∃ body, IsBody { maximumSignificantDigits := some 1 }
        (format (.round false (96 * unitsPerOne) 100) { maximumSignificantDigits := some 1 }) body ∧
      ¬ (unfilledDigits body).length ≤ 1 := by
  have limits : SignificantLimits { maximumSignificantDigits := some 1 } :=
    ⟨by simp, by simp, by simp, by simp⟩
  obtain ⟨negative, units, body, h, unique, -, -, most⟩ :=
    significantDigits_format_iff (.round false (96 * unitsPerOne) 100)
      { maximumSignificantDigits := some 1 } (by decide +kernel) (by decide +kernel) limits
  refine ⟨body, (unique body).2 rfl, ?_⟩
  rw [scaled, if_neg (by decide)] at h
  rw [(most 1 rfl).1, h.eq_roundUnits]
  have carries : ¬ (1 : Nat) ≤ magnitude (roundUnits (96 * unitsPerOne) 100) + 1 ∧
      count (roundUnits (96 * unitsPerOne) 100)
        (keptPlaces (roundUnits (96 * unitsPerOne) 100) 1) = 10 ^ 1 := by decide +kernel
  rw [KeepsGreatest, if_neg carries.1, not_not]
  exact ⟨carries.2.ge, .inl rfl⟩

end Format

end MessageFormat.NumberFormat
