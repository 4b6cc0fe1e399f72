import MessageFormat.Number.Options
import MessageFormat.Proofs.Number.Format

/-!
# Options of number patterns

A number pattern bounds either the significant digits or those on each side of the point, in order;
without a digit in it, it only chooses a style. A currency has a code of three capital letters.
Numbers are shown within the bounds (`NumberPattern.read?_format`).
-/

namespace MessageFormat.NumberPattern

open NumberFormat (IsPlain wholeDigits fractionDigits)

variable {options : NumberOptions} {whole least greatest : Nat}

/-! ## Currencies -/

def IsCurrencyCode (code : String) : Prop :=
  code.length = 3 ∧ ∀ c ∈ code.toList, c.isUpper = true

/-- A currency is named and displayed in currency style only. -/
structure CurrencyFits (options : NumberOptions) : Prop where
  named : options.currency.isSome = true ↔ options.style = .currency
  displayed : options.currencyDisplay.isSome = true ↔ options.style = .currency
  code : ∀ code, options.currency = some code → IsCurrencyCode code

theorem letters_of_isCode {word : List Char} (h : isCode word = true) :
    word.length = 3 ∧ ∀ c ∈ word, c.isAlpha = true := by
  simpa [isCode] using h

theorem letters_of_codeFrom? {collected cs word : List Char}
    (h : codeFrom? collected cs = some word) :
    word.length = 3 ∧ ∀ c ∈ word, c.isAlpha = true := by
  have collects {collected : List Char} (code : isCode collected = true)
      (same : some collected.reverse = some word) :
      word.length = 3 ∧ ∀ c ∈ word, c.isAlpha = true := by
    cases same
    simpa using letters_of_isCode code
  induction cs generalizing collected with
  | nil =>
    rw [codeFrom?] at h
    split at h
    case isTrue code => exact collects code h
    case isFalse => cases h
  | cons c rest ih =>
    rw [codeFrom?] at h
    split at h
    · exact ih h
    · split at h
      case isTrue code => exact collects code h
      case isFalse => exact ih h

theorem isCurrencyCode_of_currencyCode? {cs : List Char} {code : String}
    (h : currencyCode? cs = some code) : IsCurrencyCode code := by
  obtain ⟨word, found, rfl⟩ := Option.map_eq_some_iff.1 h
  obtain ⟨three, letters⟩ := letters_of_codeFrom? found
  constructor
  · rw [String.length_ofList, List.length_map, three]
  · intro c hc
    rw [String.toList_ofList] at hc
    obtain ⟨letter, hl, rfl⟩ := List.mem_map.1 hc
    rw [Char.isUpper_toUpper_eq_isAlpha, letters letter hl]

theorem currencyFits_styled (cs : List Char) : CurrencyFits (styled cs) := by
  have dollars : IsCurrencyCode "USD" := ⟨rfl, List.all_eq_true.1 rfl⟩
  rw [styled]
  split
  · split <;> exact ⟨by decide, by decide, by rintro code ⟨⟩⟩
  · refine ⟨by simp, by simp, ?_⟩
    rintro code ⟨⟩
    cases found : currencyCode? cs with
    | none => exact dollars
    | some code => exact isCurrencyCode_of_currencyCode? found

theorem not_isDigit_of_isUpper {c : Char} (h : c.isUpper = true) : Decimal.isDigit c = false := by
  have apart : ¬ ('A' : Char).val ≤ ('9' : Char).val := by decide
  simp only [Char.isUpper, decide_eq_true_eq] at h
  simp only [Decimal.isDigit, Char.le_def, Bool.and_eq_false_iff, decide_eq_false_iff_not]
  exact .inr fun low => apart (UInt32.le_trans h.1 low)

theorem IsCurrencyCode.isPlain {code : String} (h : IsCurrencyCode code) :
    IsPlain code.toList where
  point inside := absurd (h.2 _ inside) (by decide)
  digits := List.filter_eq_nil_iff.2 fun c hc => by simp [not_isDigit_of_isUpper (h.2 c hc)]

theorem CurrencyFits.isPlain (h : CurrencyFits options) :
    IsPlain (options.currency.getD "USD").toList := by
  cases named : options.currency with
  | none => exact ⟨by decide, by decide⟩
  | some code => exact (h.code code named).isPlain

/-! ## Bounds -/

structure Unbounded (options : NumberOptions) : Prop where
  noWhole : options.minimumIntegerDigits = none
  noLeast : options.minimumFractionDigits = none
  noGreatest : options.maximumFractionDigits = none
  noLeastSignificant : options.minimumSignificantDigits = none
  noGreatestSignificant : options.maximumSignificantDigits = none

/-- Only the significant digits are bounded. -/
structure SignificantBounds (options : NumberOptions) (least greatest : Nat) : Prop where
  atLeast : options.minimumSignificantDigits = some least
  atMost : options.maximumSignificantDigits = some greatest
  pos : 1 ≤ least
  ordered : least ≤ greatest
  limit : greatest ≤ 21
  noWhole : options.minimumIntegerDigits = none
  noLeast : options.minimumFractionDigits = none
  noGreatest : options.maximumFractionDigits = none

/-- Only the digits before and after the point are bounded. -/
structure FractionBounds (options : NumberOptions) (whole least greatest : Nat) : Prop where
  atLeastWhole : options.minimumIntegerDigits = some whole
  atLeast : options.minimumFractionDigits = some least
  atMost : options.maximumFractionDigits = some greatest
  pos : 1 ≤ whole
  wholeLimit : whole ≤ 21
  ordered : least ≤ greatest
  limit : greatest ≤ 20
  noLeastSignificant : options.minimumSignificantDigits = none
  noGreatestSignificant : options.maximumSignificantDigits = none

theorem unbounded_styled (cs : List Char) : Unbounded (styled cs) := by
  rw [styled]
  split
  · split <;> exact ⟨rfl, rfl, rfl, rfl, rfl⟩
  · exact ⟨rfl, rfl, rfl, rfl, rfl⟩

theorem le_clampDigits (count : Nat) (low high : Nat) : low ≤ clampDigits count low high :=
  Nat.le_max_left _ _

theorem clampDigits_le (count : Nat) {low high : Nat} (h : low ≤ high) :
    clampDigits count low high ≤ high :=
  Nat.max_le.2 ⟨h, Nat.min_le_right _ _⟩

theorem clampDigits_mono {count count' : Nat} (h : count ≤ count') (low high : Nat) :
    clampDigits count low high ≤ clampDigits count' low high := by
  simp only [clampDigits]
  omega

theorem exists_significantBounds (cs : List Char) (h : Unbounded options) :
    ∃ least greatest, SignificantBounds (withSignificant cs options) least greatest :=
  ⟨_, _, {
    atLeast := rfl
    atMost := rfl
    pos := le_clampDigits _ _ _
    ordered := clampDigits_mono List.count_le_length _ _
    limit := clampDigits_le _ (by decide)
    noWhole := h.noWhole
    noLeast := h.noLeast
    noGreatest := h.noGreatest }⟩

theorem exists_fractionBounds (cs : List Char) (h : Unbounded options) :
    ∃ whole least greatest, FractionBounds (withFraction cs options) whole least greatest :=
  ⟨_, _, _, {
    atLeastWhole := rfl
    atLeast := rfl
    atMost := rfl
    pos := le_clampDigits _ _ _
    wholeLimit := clampDigits_le _ (by decide)
    ordered := clampDigits_mono (Nat.le_add_right _ _) _ _
    limit := clampDigits_le _ (by decide)
    noLeastSignificant := h.noLeastSignificant
    noGreatestSignificant := h.noGreatestSignificant }⟩

theorem read?_cases {pattern : String} (h : read? pattern = some options) :
    ∃ cs grouping, options = withSignificant cs { styled cs with useGrouping := some grouping } ∨
      options = withFraction cs { styled cs with useGrouping := some grouping } ∨
      (options = styled cs ∧ options.style ≠ .decimal) := by
  refine ⟨pattern.toList, pattern.toList.contains ',', ?_⟩
  simp only [read?] at h
  split at h
  · cases h
    split
    · exact .inl rfl
    · exact .inr (.inl rfl)
  · split at h
    case isTrue => cases h
    case isFalse styled =>
      cases h
      exact .inr (.inr ⟨rfl, styled⟩)

/-! ## Numbers within the bounds -/

theorem FractionBounds.fractionBounds_eq (h : FractionBounds options whole least greatest) :
    NumberFormat.fractionBounds options = (least, greatest) := by
  simp [NumberFormat.fractionBounds, h.atLeast, h.atMost, h.ordered]

theorem FractionBounds.numeral_eq [Binary64.Elementary]
    (h : FractionBounds options whole least greatest) (units : Nat) :
    NumberFormat.numeral units options = NumberFormat.withFraction units options := by
  rw [NumberFormat.numeral, h.noGreatestSignificant]

/-- A text has its digits within some bounds, and no zero at the end past the least of them. -/
structure Within (whole least greatest : Nat) (text : String) : Prop where
  wholeLength : whole ≤ (wholeDigits text.toList).length
  atLeast : least ≤ (fractionDigits text.toList).length
  atMost : (fractionDigits text.toList).length ≤ greatest
  trimmed : least < (fractionDigits text.toList).length →
    (fractionDigits text.toList).getLast? ≠ some '0'

theorem FractionBounds.within_format [Binary64.Elementary]
    (h : FractionBounds options whole least greatest)
    (code : IsPlain (options.currency.getD "USD").toList) {value : Binary64}
    (finite : (NumberFormat.scaled value options).isFinite = true) :
    Within whole least greatest (NumberFormat.format value options) := by
  obtain ⟨units, sign, signed, text⟩ := NumberFormat.exists_format_eq finite
  rw [h.numeral_eq] at text
  obtain ⟨before, behind⟩ :=
    NumberFormat.digits_decorate (NumberFormat.isDigital_withFraction units options) signed code
  rw [← text] at before behind
  obtain ⟨low, high, trimmed⟩ := NumberFormat.fraction_withFraction units options
  rw [h.fractionBounds_eq, ← behind] at low high trimmed
  refine ⟨?_, low, high, trimmed⟩
  rw [before, NumberFormat.padded, h.atLeastWhole, Decimal.length_padLeft]
  exact Nat.le_max_left _ _

/-- What a number pattern asks for, and that finite numbers are shown so. -/
theorem read?_format [Binary64.Elementary] {pattern : String} (read : read? pattern = some options) :
    CurrencyFits options ∧
    ((∃ least greatest, SignificantBounds options least greatest) ∨
      (∃ whole least greatest, FractionBounds options whole least greatest) ∨
      Unbounded options ∧ (options.style = .percent ∨ options.style = .currency)) ∧
    ∀ whole least greatest, FractionBounds options whole least greatest →
      ∀ value, (NumberFormat.scaled value options).isFinite = true →
        Within whole least greatest (NumberFormat.format value options) := by
  have fits : CurrencyFits options := by
    obtain ⟨cs, grouping, rfl | rfl | ⟨rfl, -⟩⟩ := read?_cases read
    all_goals
      obtain ⟨named, displayed, code⟩ := currencyFits_styled cs
      exact ⟨named, displayed, code⟩
  refine ⟨fits, ?_, fun whole least greatest bounds value => bounds.within_format fits.isPlain⟩
  obtain ⟨cs, grouping, read⟩ := read?_cases read
  have unbounded : Unbounded (styled cs) := unbounded_styled cs
  have grouped : Unbounded { styled cs with useGrouping := some grouping } := { unbounded with }
  rcases read with rfl | rfl | ⟨rfl, chosen⟩
  · exact .inl (exists_significantBounds cs grouped)
  · exact .inr (.inl (exists_fractionBounds cs grouped))
  · refine .inr (.inr ⟨unbounded, ?_⟩)
    cases style : (styled cs).style with
    | decimal => exact absurd style chosen
    | percent => exact .inl rfl
    | currency => exact .inr rfl

theorem read?_format_pounds :
    ∃ options, read? "gbp #,##0.0##" = some options ∧ FractionBounds options 1 1 3 ∧
      Within 1 1 3 (NumberFormat.format (.ofInt (-1234)) options) := by
  have read : read? "gbp #,##0.0##" = some {
      style := .currency
      currency := some "GBP"
      currencyDisplay := some .symbol
      useGrouping := some true
      minimumIntegerDigits := some 1
      minimumFractionDigits := some 1
      maximumFractionDigits := some 3 } := by decide +kernel
  refine ⟨_, read, ?_, (read?_format read).2.2 1 1 3 ?_ _ (by decide +kernel)⟩ <;>
    exact ⟨rfl, rfl, rfl, by decide, by decide, by decide, by decide, rfl, rfl⟩

end MessageFormat.NumberPattern
