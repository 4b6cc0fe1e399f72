import MessageFormat.Proofs.Number.Body

/-!
# Fraction digits of numbers

Without significant digits to keep, a number has the least number of fraction digits that is set,
and at most the greatest one. A currency is the exception: where no least number is set, two digits
are shown even if fewer are allowed (`NumberFormat.fractionDigits_format_iff`).
-/

namespace MessageFormat.NumberFormat

variable {options : NumberOptions} {least greatest : Nat}

/-! ## Bounds of the options -/

theorem fractionBounds_fst (h : options.minimumFractionDigits = some least) :
    (fractionBounds options).1 = least := by
  simp [fractionBounds, h]

theorem fractionBounds_snd (h : options.maximumFractionDigits = some greatest) :
    (fractionBounds options).2 = max greatest (fractionBounds options).1 := by
  simp [fractionBounds, h]

theorem fractionBounds_fst_of_none (h : options.minimumFractionDigits = none) :
    (fractionBounds options).1 = if options.style = .currency then 2 else 0 := by
  cases style : options.style <;> simp [fractionBounds, h, style, defaultFraction]

/-- A currency whose two digits are not asked for, and are more than what is allowed. -/
def ExceedsByDefault (options : NumberOptions) (greatest : Nat) : Prop :=
  options.style = .currency ∧ options.minimumFractionDigits = none ∧ greatest < 2

/-- The greatest number of digits is not less than the least if that is set. -/
def NotBelowLeast (options : NumberOptions) (greatest : Nat) : Prop :=
  ∀ least, options.minimumFractionDigits = some least → least ≤ greatest

theorem fractionBounds_fst_le_iff (ordered : NotBelowLeast options greatest) :
    (fractionBounds options).1 ≤ greatest ↔ ¬ ExceedsByDefault options greatest := by
  cases set : options.minimumFractionDigits with
  | some least => simp [fractionBounds_fst set, ordered least set, ExceedsByDefault, set]
  | none =>
    rw [fractionBounds_fst_of_none set, ExceedsByDefault]
    by_cases currency : options.style = .currency
    · simp [currency, set, Nat.succ_le_iff]
    · simp [currency]

/-! ## Digits of a number -/

theorem numeral_eq_withFraction [Binary64.Elementary] (units : Nat)
    (h : options.maximumSignificantDigits = none) :
    numeral units options = withFraction units options := by
  rw [numeral, h]

/-- The body of a number that is not rounded to significant digits has as many fraction digits as
are asked for, and no more than are allowed unless a currency has two by default. -/
theorem fractionDigits_format_iff [Binary64.Elementary] (value : Binary64) (options : NumberOptions)
    (finite : (scaled value options).isFinite = true)
    (free : options.maximumSignificantDigits = none) :
    ∃ body, (∀ other, IsBody options (format value options) other ↔ other = body) ∧
      (∀ least, options.minimumFractionDigits = some least →
        least ≤ (fractionDigits body).length) ∧
      ∀ greatest, options.maximumFractionDigits = some greatest → NotBelowLeast options greatest →
        ((fractionDigits body).length ≤ greatest ↔ ¬ ExceedsByDefault options greatest) := by
  obtain ⟨negative, units, significant, bounded, h⟩ := exists_eq_finite finite
  have digital : IsDigital (numeral units options) := by
    rw [numeral_eq_withFraction units free]
    exact isDigital_withFraction units options
  have digits : fractionDigits (body (numeral units options) options) =
      (withFraction units options).fraction := by
    rw [fractionDigits_body (digital.not_mem rfl).1 digital.fraction,
      numeral_eq_withFraction units free]
  obtain ⟨low, high, -⟩ := fraction_withFraction units options
  refine ⟨_, fun _ => (digital.isBody_format h).iff_eq, ?_, ?_⟩
  · intro least set
    rwa [digits, ← fractionBounds_fst set]
  · intro greatest set ordered
    rw [digits, ← fractionBounds_fst_le_iff ordered]
    rw [fractionBounds_snd set] at high
    omega

theorem fractionDigits_format_currency :
    ∃ body, IsBody { style := .currency, maximumFractionDigits := some 0 }
        (format 5 { style := .currency, maximumFractionDigits := some 0 }) body ∧
      ¬ (fractionDigits body).length ≤ 0 := by
  obtain ⟨body, unique, -, bounds⟩ := fractionDigits_format_iff 5
    { style := .currency, maximumFractionDigits := some 0 } (by decide +kernel) rfl
  refine ⟨body, (unique body).2 rfl, ?_⟩
  rw [bounds 0 rfl (by simp [NotBelowLeast]), not_not]
  exact ⟨rfl, rfl, by simp⟩

end MessageFormat.NumberFormat
