import MessageFormat.Proofs.Binary64.Exponent
import MessageFormat.Proofs.Number.Integers
import MessageFormat.Rendering.Localizer

/-!
# Durations

A duration is cut into hours, minutes and seconds, and each of them is then shown as a number of its
own (`Duration.rendersTo_duration`). Seconds that are rounded up to sixty are not carried into the
minutes, the sign is shown where all digits are zeros, and beyond `2^56` seconds the hours may be
rounded.
-/

namespace MessageFormat.Duration

open Binary64 (Elementary HasUnits IsWhole count)
open Decimal (Numeral digits dropTrailingZeros isDigit padLeft)
open NumberFormat (Grouped)

-- The unit and the limit are too large to be unfolded.
attribute [local irreducible] unitsPerOne unitsLimit

/-- The fields of a duration, the seconds in thousandths. -/
structure Clock where
  hours : Nat
  minutes : Nat
  thousandths : Nat

namespace Clock

/-- The fields that a magnitude in seconds is cut into. -/
def ofUnits (units : Nat) : Clock where
  hours := roundUnits units 3600 / unitsPerOne
  minutes := units % (3600 * unitsPerOne) / (60 * unitsPerOne)
  thousandths := count (units % (60 * unitsPerOne)) 3

/-- The whole duration in thousandths of a second. -/
def total (clock : Clock) : Nat :=
  clock.hours * 3600000 + clock.minutes * 60000 + clock.thousandths

/-- The fields together are within half a thousandth of a magnitude in seconds. -/
def Near (clock : Clock) (units : Nat) : Prop :=
  2 * Nat.dist (clock.total * unitsPerOne) (1000 * units) ≤ unitsPerOne

/-- Two digits or more, and up to three digits behind a point that do not end in a zero. -/
def seconds (clock : Clock) : List Char :=
  Numeral.chars ⟨padLeft 2 (digits (clock.thousandths / 1000)),
    dropTrailingZeros (padLeft 3 (digits (clock.thousandths % 1000)))⟩

/-- A text shows hours, minutes and seconds, or minutes and seconds if there are no hours. -/
def Shows (clock : Clock) (signed : Bool) (text : String) : Prop :=
  ∃ hours, Grouped (digits clock.hours) hours ∧
    text.toList = (if signed then ['-'] else []) ++
      if 0 < clock.hours then
        hours ++ ':' :: (padLeft 2 (digits clock.minutes) ++ ':' :: clock.seconds)
      else digits clock.minutes ++ ':' :: clock.seconds

variable {units : Nat}

/-! ## Fields -/

theorem minutes_lt (units : Nat) : (ofUnits units).minutes < 60 := by
  have onePos := unitsPerOne_pos
  have less : units % (3600 * unitsPerOne) < 3600 * unitsPerOne := Nat.mod_lt _ (by omega)
  rw [ofUnits, Nat.div_lt_iff_lt_mul (by omega)]
  omega

theorem thousandths_lt_iff : (ofUnits units).thousandths < 60000 ↔
    2000 * (units % (60 * unitsPerOne)) < 119999 * unitsPerOne := by
  have below : (ofUnits units).thousandths < 60000 ↔ (ofUnits units).thousandths ≤ 59999 := by omega
  rw [below, ofUnits, count, Decimal.roundHalfEven_le_iff unitsPerOne_pos]
  omega

theorem thousandths_pos_iff :
    0 < (ofUnits units).thousandths ↔ unitsPerOne < 2000 * (units % (60 * unitsPerOne)) := by
  rw [← not_iff_not, Nat.not_lt, Nat.not_lt, ofUnits, count,
    Decimal.roundHalfEven_le_iff unitsPerOne_pos]
  omega

/-- The hours are not rounded where they have some bits to spare. -/
theorem hours_eq (significant : Significant units) (small : units < 2 ^ 56 * unitsPerOne) :
    (ofUnits units).hours = units / (3600 * unitsPerOne) := by
  have onePos := unitsPerOne_pos
  have few : units / (3600 * unitsPerOne) * 3600 < 2 ^ 56 := by
    have least := Nat.div_mul_le_self units (3600 * unitsPerOne)
    rw [← Nat.mul_assoc] at least
    exact Nat.lt_of_mul_lt_mul_right (least.trans_lt small)
  apply roundUnits_div_unitsPerOne significant (by decide) (by omega)
  generalize units / (3600 * unitsPerOne) = k at few
  have split : (k + 1) * 3600 = (k + 1) * 225 * 2 ^ 4 := by ring
  rw [split]
  exact (significant_of_le (by omega)).mul_two_pow 4

theorem hours_pos_iff (significant : Significant units) :
    0 < (ofUnits units).hours ↔ 3600 * unitsPerOne ≤ units := by
  have onePos := unitsPerOne_pos
  rcases Nat.lt_or_ge units (2 ^ 56 * unitsPerOne) with small | large
  · rw [hours_eq significant small, Nat.div_pos_iff]
    omega
  · have bound : 3600 * unitsPerOne ≤ units :=
      (Nat.mul_le_mul_right unitsPerOne (by decide)).trans large
    have one : Significant unitsPerOne := by
      simpa using Binary64.significant_ten_pow_ones (Nat.zero_le 22)
    have least : unitsPerOne ≤ roundUnits units 3600 :=
      le_roundUnits one (by decide) (by rwa [Nat.mul_comm])
    exact iff_of_true (Nat.div_pos least onePos) bound

/-- A magnitude by its fields before they are rounded. -/
theorem split_units (units : Nat) :
    units = units / (3600 * unitsPerOne) * (3600 * unitsPerOne) +
      (ofUnits units).minutes * (60 * unitsPerOne) + units % (60 * unitsPerOne) := by
  have rest : units % (3600 * unitsPerOne) % (60 * unitsPerOne) = units % (60 * unitsPerOne) :=
    Nat.mod_mod_of_dvd units ⟨60, by ring⟩
  have hours := Nat.div_add_mod' units (3600 * unitsPerOne)
  have minutes := Nat.div_add_mod' (units % (3600 * unitsPerOne)) (60 * unitsPerOne)
  rw [rest] at minutes
  rw [ofUnits]
  dsimp only
  omega

/-- The seconds by themselves are rounded to the nearest thousandth. -/
theorem dist_thousandths_le (units : Nat) :
    2 * Nat.dist ((ofUnits units).thousandths * unitsPerOne) (1000 * (units % (60 * unitsPerOne))) ≤
      unitsPerOne := by
  have up := Decimal.roundHalfEven_mul_le (units % (60 * unitsPerOne) * 10 ^ 3) unitsPerOne
  have down := Decimal.le_roundHalfEven_mul (units % (60 * unitsPerOne) * 10 ^ 3) unitsPerOne_pos
  rw [ofUnits, count, Nat.dist]
  dsimp only
  omega

theorem total_mul (clock : Clock) (n : Nat) : clock.total * n =
    3600000 * (clock.hours * n) + 60000 * (clock.minutes * n) + clock.thousandths * n := by
  rw [total]
  ring

theorem near_iff : (ofUnits units).Near units ↔
    (ofUnits units).hours = units / (3600 * unitsPerOne) := by
  have onePos := unitsPerOne_pos
  have split := split_units units
  have seconds := dist_thousandths_le units
  rw [Near, total_mul, Nat.dist]
  rw [Nat.dist] at seconds
  generalize ofUnits units = clock at split seconds ⊢
  generalize units / (3600 * unitsPerOne) = hours at split ⊢
  rw [Nat.mul_left_comm hours, Nat.mul_left_comm clock.minutes] at split
  constructor
  · intro near
    -- An hour too many or too few is not made up for by the seconds.
    rcases Nat.lt_trichotomy clock.hours hours with less | same | more
    · have apart : (clock.hours + 1) * unitsPerOne ≤ hours * unitsPerOne :=
        Nat.mul_le_mul_right _ less
      rw [Nat.succ_mul] at apart
      omega
    · exact same
    · have apart : (hours + 1) * unitsPerOne ≤ clock.hours * unitsPerOne :=
        Nat.mul_le_mul_right _ more
      rw [Nat.succ_mul] at apart
      omega
  · intro same
    rw [same]
    omega

theorem pos_iff (significant : Significant units) :
    (0 < (ofUnits units).hours ∨ 0 < (ofUnits units).minutes ∨ 0 < (ofUnits units).thousandths) ↔
      unitsPerOne < 2000 * units := by
  have onePos := unitsPerOne_pos
  have split := split_units units
  rw [hours_pos_iff significant, thousandths_pos_iff]
  generalize (ofUnits units).minutes = minutes at split ⊢
  constructor
  · rintro (hours | some | seconds)
    · omega
    · have least : 60 * unitsPerOne ≤ minutes * (60 * unitsPerOne) := Nat.le_mul_of_pos_left _ some
      omega
    · omega
  · intro above
    by_contra none
    push Not at none
    obtain ⟨hours, minutes, seconds⟩ := none
    rw [Nat.div_eq_of_lt hours, Nat.le_zero.1 minutes] at split
    omega

end Clock

/-! ## Digits that are not zero -/

/-- Some digit is not zero. -/
def HasNonzero (cs : List Char) : Prop :=
  ∃ c ∈ cs, isDigit c = true ∧ c ≠ '0'

section Nonzero

variable {cs ds : List Char} {n : Nat}

theorem hasNonzero_append : HasNonzero (cs ++ ds) ↔ HasNonzero cs ∨ HasNonzero ds := by
  simp only [HasNonzero, List.mem_append, or_and_right, exists_or]

theorem hasNonzero_cons {c : Char} (other : isDigit c = false) :
    HasNonzero (c :: cs) ↔ HasNonzero cs := by
  simp [HasNonzero, other]

theorem hasNonzero_filter_isDigit : HasNonzero (cs.filter isDigit) ↔ HasNonzero cs := by
  simp only [HasNonzero, List.mem_filter, and_assoc, and_self_left]

theorem hasNonzero_digits : HasNonzero (digits n) ↔ 0 < n := by
  rw [← NumberFormat.isNonzero_digits_iff]
  simp [HasNonzero, Numeral.isNonzero]

theorem not_hasNonzero_zeros (zeros : Nat) : ¬ HasNonzero (List.replicate zeros '0') := by
  rintro ⟨d, hd, -, nonzero⟩
  exact nonzero (List.eq_of_mem_replicate hd)

theorem hasNonzero_padLeft {width : Nat} : HasNonzero (padLeft width ds) ↔ HasNonzero ds := by
  rw [padLeft, hasNonzero_append, or_iff_right (not_hasNonzero_zeros _)]

theorem hasNonzero_dropTrailingZeros : HasNonzero (dropTrailingZeros ds) ↔ HasNonzero ds := by
  obtain ⟨zeros, split⟩ := Decimal.exists_dropTrailingZeros_append ds
  conv_rhs => rw [split, hasNonzero_append, or_iff_left (not_hasNonzero_zeros zeros)]

theorem hasNonzero_chars {numeral : Numeral} :
    HasNonzero numeral.chars ↔ HasNonzero numeral.whole ∨ HasNonzero numeral.fraction := by
  rw [Numeral.chars]
  split
  case isTrue none =>
    rw [List.isEmpty_iff.1 none]
    simp [HasNonzero]
  case isFalse => rw [hasNonzero_append, hasNonzero_cons rfl]

theorem Clock.hasNonzero_seconds (clock : Clock) :
    HasNonzero clock.seconds ↔ 0 < clock.thousandths := by
  rw [seconds, hasNonzero_chars, hasNonzero_dropTrailingZeros, hasNonzero_padLeft,
    hasNonzero_padLeft, hasNonzero_digits, hasNonzero_digits]
  omega

/-- A text that shows some fields has a digit that is not zero just if a field is not zero. -/
theorem Clock.Shows.hasNonzero_iff {clock : Clock} {signed : Bool} {text : String}
    (shows : clock.Shows signed text) : HasNonzero text.toList ↔
      0 < clock.hours ∨ 0 < clock.minutes ∨ 0 < clock.thousandths := by
  obtain ⟨hours, grouped, split⟩ := shows
  have leading : HasNonzero hours ↔ 0 < clock.hours := by
    rw [← hasNonzero_filter_isDigit, grouped.filter_isDigit fun _ => Decimal.isDigit_of_mem_digits,
      hasNonzero_digits]
  have sign : ¬ HasNonzero (if signed then ['-'] else []) := by
    cases signed <;> simp [HasNonzero, isDigit]
  rw [split, hasNonzero_append, or_iff_right sign]
  split
  case isTrue some =>
    rw [hasNonzero_append, hasNonzero_cons rfl, hasNonzero_append, hasNonzero_cons rfl,
      hasNonzero_padLeft, hasNonzero_digits, hasNonzero_seconds, leading]
  case isFalse none =>
    rw [hasNonzero_append, hasNonzero_cons rfl, hasNonzero_digits, hasNonzero_seconds,
      or_iff_right none]

end Nonzero

/-! ## Texts of the fields -/

section Format

variable {x : Binary64} {options : NumberOptions} {units k : Nat}

theorem toList_format [Elementary] (decimal : options.style = .decimal)
    (free : options.maximumSignificantDigits = none) (h : HasUnits x false units) :
    (NumberFormat.format x options).toList =
      NumberFormat.body (NumberFormat.withFraction units options) options := by
  obtain ⟨_, _, rfl⟩ := h
  simp [NumberFormat.format, NumberFormat.scaled, NumberFormat.decorate, NumberFormat.numeral,
    decimal, free]

theorem toList_format_leading [Elementary] (h : IsWhole x false k) :
    (NumberFormat.format x leadingOptions).toList = NumberFormat.group (digits k) := by
  have one : 1 ≤ (digits k).length := List.length_pos_iff.2 (Decimal.digits_ne_nil k)
  rw [toList_format rfl rfl h, NumberFormat.withFraction_whole_of_bounds k rfl,
    NumberFormat.body_eq, NumberFormat.padded]
  simp [leadingOptions, Numeral.chars, Decimal.padLeft_eq_self one]

theorem toList_format_minutes [Elementary] (h : IsWhole x false k) (small : k < 100) :
    (NumberFormat.format x minutesOptions).toList = padLeft 2 (digits k) := by
  have short : (padLeft 2 (digits k)).length ≤ 3 := by
    have two : (digits k).length ≤ 2 := Decimal.length_digits_le (by decide) small
    rw [Decimal.length_padLeft]
    omega
  rw [toList_format rfl rfl h, NumberFormat.withFraction_whole_of_bounds k rfl,
    NumberFormat.body_eq, NumberFormat.padded]
  simp [minutesOptions, Numeral.chars, NumberFormat.group_eq_self short]

theorem toList_format_seconds [Elementary] (h : HasUnits x false units) (hours minutes : Nat) :
    (NumberFormat.format x secondsOptions).toList =
      Clock.seconds ⟨hours, minutes, count units 3⟩ := by
  rw [toList_format rfl rfl h]
  rfl

theorem isWhole_hour : IsWhole 3600 false 3600 :=
  Binary64.isWhole_ofInt (by decide)

theorem isWhole_minute : IsWhole 60 false 60 :=
  Binary64.isWhole_ofInt (by decide)

/-- The minutes are not rounded before they are cut off. -/
theorem isWhole_minutes (h : HasUnits x false units) :
    IsWhole (x % 3600 / 60).floor false (Clock.ofUnits units).minutes := by
  have rest := h.mod_whole isWhole_hour (by decide)
  have small : units % (3600 * unitsPerOne) / (60 * unitsPerOne) < 60 := Clock.minutes_lt units
  have cut : roundUnits (units % (3600 * unitsPerOne)) 60 / unitsPerOne =
      (Clock.ofUnits units).minutes := by
    apply roundUnits_div_unitsPerOne rest.significant (by decide) (by omega)
    exact significant_of_le (by omega)
  rw [← cut]
  exact (rest.div_whole isWhole_minute (by decide)).floor

theorem isNegative_eq {negative : Bool} (h : HasUnits x negative units) :
    x.isNegative = (negative && decide (0 < units)) := by
  obtain ⟨_, _, rfl⟩ := h
  by_cases none : units = 0 <;> simp [Binary64.isNegative, Nat.pos_iff_ne_zero, none]

theorem shows_format [Elementary] {value : Value} {negative : Bool} (number : value.number? = some x)
    (h : HasUnits x negative units) :
    (Clock.ofUnits units).Shows (negative && decide (0 < units))
      (format (Localizer.formatNumber leadingOptions) (Localizer.formatNumber minutesOptions)
        (Localizer.formatNumber secondsOptions) value) := by
  have hours : IsWhole (x.abs / 3600).floor false (Clock.ofUnits units).hours :=
    (h.abs.div_whole isWhole_hour (by decide)).floor
  have minutes := isWhole_minutes h.abs
  have few := Clock.minutes_lt units
  have seconds := toList_format_seconds (h.abs.mod_whole isWhole_minute (by decide))
    (Clock.ofUnits units).hours (Clock.ofUnits units).minutes
  have positive : (x.abs / 3600).floor.isPositive = true ↔ 0 < (Clock.ofUnits units).hours := by
    rw [HasUnits.isPositive hours, Nat.mul_pos_iff_of_pos_right unitsPerOne_pos]
  have sign : (if negative && decide (0 < units) then "-" else "").toList =
      if negative && decide (0 < units) then ['-'] else [] := by
    split <;> rfl
  refine ⟨_, NumberFormat.grouped_group (Decimal.digits_ne_nil _), ?_⟩
  rw [format, number]
  simp only [Localizer.formatNumber, Value.number?, isNegative_eq h]
  by_cases some : 0 < (Clock.ofUnits units).hours
  · rw [if_pos (positive.2 some), if_pos some]
    simp only [String.toList_append, sign, toList_format_leading hours,
      toList_format_minutes minutes (by omega), seconds, List.append_assoc]
    rfl
  · rw [if_neg (positive.not.2 some), if_neg some]
    have short : (digits (Clock.ofUnits units).minutes).length ≤ 3 :=
      Decimal.length_digits_le (by decide) (by omega)
    simp only [String.toList_append, sign, toList_format_leading minutes, NumberFormat.group_eq_self short,
      seconds, List.append_assoc]
    rfl

/-- What a duration shows: hours from an hour on, less than sixty minutes, and seconds that are
below sixty unless they are rounded up to it. A negative number has a sign, and some digit is not
zero if the number does not round to zero. The fields are within half a thousandth of a second of
the number just if the hours are not rounded, as they are not below `2^56` seconds. -/
theorem rendersTo_duration [Elementary] (types : TypeRegistry) (locales : List String)
    (style : Option String) (id : String) {value : Value} {negative : Bool} (number : value.number? = some x)
    (h : HasUnits x negative units) :
    ∃ text, (Clock.ofUnits units).Shows (negative && decide (0 < units)) text ∧
      (∀ env, Args.get env.args id = value →
        Renderer.RendersTo { types, localizer := .plain } locales
          (.placeholder id (.simple .duration style)) env [.text text]) ∧
      (0 < (Clock.ofUnits units).hours ↔ 3600 * unitsPerOne ≤ units) ∧
      (Clock.ofUnits units).minutes < 60 ∧
      ((Clock.ofUnits units).thousandths < 60000 ↔
        2000 * (units % (60 * unitsPerOne)) < 119999 * unitsPerOne) ∧
      (HasNonzero text.toList ↔ unitsPerOne < 2000 * units) ∧
      ((Clock.ofUnits units).Near units ↔
        (Clock.ofUnits units).hours = units / (3600 * unitsPerOne)) ∧
      (units < 2 ^ 56 * unitsPerOne → (Clock.ofUnits units).Near units) := by
  have shows := shows_format number h
  refine ⟨_, shows, ?_, Clock.hours_pos_iff h.significant, Clock.minutes_lt units,
    Clock.thousandths_lt_iff, ?_, Clock.near_iff, ?_⟩
  · intro env found
    have rendered := Renderer.rendersTo_renderElement { types, localizer := .plain } locales
      (.placeholder id (.simple .duration style)) env
    simp only [Renderer.renderElement, Renderer.renderKind, found] at rendered
    exact rendered
  · rw [shows.hasNonzero_iff, Clock.pos_iff h.significant]
  · intro small
    exact Clock.near_iff.2 (Clock.hours_eq h.significant small)

theorem rendersTo_duration_sixty : ∃ clock text, Clock.Shows clock false text ∧
    ¬ clock.thousandths < 60000 ∧
    Renderer.RendersTo {} ["en"] (.placeholder "t" (.simple .duration none))
      ⟨[("t", .float (.round false (599996 * unitsPerOne) 10000))], none⟩ [.text text] := by
  have number : Value.number? (.float (.round false (599996 * unitsPerOne) 10000)) =
      some (.round false (599996 * unitsPerOne) 10000) := rfl
  obtain ⟨text, shows, placed, -, -, below, -⟩ := rendersTo_duration .empty ["en"] none "t" number
    (Binary64.hasUnits_round false (by decide +kernel))
  have sixty : ¬ 2000 * (roundUnits (599996 * unitsPerOne) 10000 % (60 * unitsPerOne)) <
      119999 * unitsPerOne := by decide +kernel
  refine ⟨_, text, shows, below.not.2 sixty, placed _ ?_⟩
  simp [Args.get, Args.lookup?]

end Format

end MessageFormat.Duration
