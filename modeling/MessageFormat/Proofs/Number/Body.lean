import MessageFormat.Proofs.Number.Format

/-!
# Bodies of formatted numbers

What stands around the digits of a number is given by the options, whatever the digits are, and a
sign is told from the rest. So the body of a text is determined (`NumberFormat.IsBody.unique`), also
where a currency has digits or points in its name, and the body of a number holds the digits of its
numeral.
-/

namespace MessageFormat.NumberFormat

open Decimal (Numeral isDigit)

variable {options : NumberOptions} {text : String} {body body' : List Char}

/-- A text is a body in the sign, currency and percent sign of some options. -/
def IsBody (options : NumberOptions) (text : String) (body : List Char) : Prop :=
  '-' ∉ body ∧ ∃ sign, (sign = "" ∨ sign = "-") ∧ text = decorate sign (String.ofList body) options

theorem exists_frame (options : NumberOptions) : ∃ front back, ∀ sign body,
    (decorate sign (String.ofList body) options).toList = sign.toList ++ (front ++ (body ++ back)) := by
  simp only [decorate]
  cases options.style with
  | decimal => exact ⟨[], [], fun sign body => by simp⟩
  | percent => exact ⟨[], ['%'], fun sign body => by simp⟩
  | currency =>
    generalize options.currency.getD "USD" = code
    cases options.currencyDisplay.getD .symbol with
    | symbol => exact ⟨(currencySign code).toList, [], fun sign body => by simp⟩
    | code => exact ⟨code.toList ++ "\u00a0".toList, [], fun sign body => by simp⟩
    | name => exact ⟨[], " ".toList ++ code.toList, fun sign body => by simp⟩

/-- A sign in front of what begins alike leaves a sign behind it. -/
theorem minus_mem_of_append_eq {front behind behind' : List Char}
    (h : front ++ behind = '-' :: (front ++ behind')) : '-' ∈ behind := by
  induction front with
  | nil => simp [show behind = '-' :: behind' from h]
  | cons c front ih =>
    obtain ⟨rfl, rest⟩ := List.cons.inj h
    exact ih rest

theorem IsBody.unique (h : IsBody options text body) (h' : IsBody options text body') :
    body = body' := by
  obtain ⟨front, back, frame⟩ := exists_frame options
  obtain ⟨plain, sign, signs, rfl⟩ := h
  obtain ⟨plain', sign', signs', same⟩ := h'
  replace same := congrArg String.toList same
  rw [frame, frame] at same
  simp only [← List.append_assoc, List.append_cancel_right_eq] at same
  rcases signs with rfl | rfl <;> rcases signs' with rfl | rfl
  · simpa using same
  · exact absurd (minus_mem_of_append_eq same) plain
  · exact absurd (minus_mem_of_append_eq same.symm) plain'
  · simpa using same

theorem IsBody.iff_eq (h : IsBody options text body) : IsBody options text body' ↔ body' = body := by
  constructor
  · exact fun h' => h'.unique h
  · rintro rfl
    exact h

/-! ## The body of a numeral -/

section Numeral

variable {numeral : Numeral}

theorem mem_group {ds : List Char} {c : Char} (h : c ∈ group ds) : c ∈ ds ∨ c = ',' := by
  by_cases none : ds = []
  · subst none
    exact .inl h
  · exact (grouped_group none).mem h

theorem mem_padLeft {width : Nat} {ds : List Char} {c : Char} (h : c ∈ Decimal.padLeft width ds) :
    c ∈ ds ∨ c = '0' := by
  rw [Decimal.padLeft, List.mem_append] at h
  exact h.symm.imp_right List.eq_of_mem_replicate

/-- The digits before the point as they are written. -/
def written (numeral : Numeral) (options : NumberOptions) : List Char :=
  if options.useGrouping.getD true then group (padded numeral options) else padded numeral options

theorem body_eq_written (numeral : Numeral) (options : NumberOptions) :
    NumberFormat.body numeral options =
      Numeral.chars ⟨written numeral options, numeral.fraction⟩ :=
  body_eq numeral options

theorem mem_written {c : Char} (h : c ∈ written numeral options) :
    c ∈ numeral.whole ∨ c = '0' ∨ c = ',' := by
  rw [written] at h
  split at h
  · rcases mem_group h with inside | comma
    · exact (mem_padLeft inside).imp_right .inl
    · exact .inr (.inr comma)
  · exact (mem_padLeft h).imp_right .inl

theorem not_mem_written {c : Char} (whole : c ∉ numeral.whole) (apart : c ≠ '0' ∧ c ≠ ',') :
    c ∉ written numeral options := by
  intro inside
  rcases mem_written inside with digit | rfl | rfl
  · exact whole digit
  · exact apart.1 rfl
  · exact apart.2 rfl

theorem not_mem_body {c : Char} (whole : c ∉ numeral.whole) (fraction : c ∉ numeral.fraction)
    (apart : c ≠ '0' ∧ c ≠ ',') (point : c ≠ '.') : c ∉ NumberFormat.body numeral options := by
  have front : c ∉ written numeral options := not_mem_written whole apart
  rw [body_eq_written, Numeral.chars]
  split
  · exact front
  · simp [front, point, fraction]

theorem wholeDigits_body (point : '.' ∉ numeral.whole) :
    wholeDigits (NumberFormat.body numeral options) = (written numeral options).filter isDigit := by
  rw [body_eq_written, wholeDigits_chars (not_mem_written point (by simp))]

theorem fractionDigits_body (point : '.' ∉ numeral.whole)
    (fraction : ∀ c ∈ numeral.fraction, isDigit c = true) :
    fractionDigits (NumberFormat.body numeral options) = numeral.fraction := by
  rw [body_eq_written, fractionDigits_chars (not_mem_written point (by simp)) fraction]

end Numeral

/-! ## The body of a number -/

section Format

variable {value : Binary64} {negative : Bool} {units : Nat} {significant : Significant units}
  {bounded : units < unitsLimit}

theorem exists_eq_finite {x : Binary64} (h : x.isFinite = true) :
    ∃ negative units significant bounded, x = .finite negative units significant bounded := by
  cases x with
  | nan => cases h
  | infinite => cases h
  | finite => exact ⟨_, _, _, _, rfl⟩

theorem isBody_format [Binary64.Elementary]
    (h : scaled value options = .finite negative units significant bounded)
    (plain : '-' ∉ NumberFormat.body (numeral units options) options) :
    IsBody options (format value options) (NumberFormat.body (numeral units options) options) := by
  refine ⟨plain, _, ?_, by rw [format, h]⟩
  split
  · exact .inr rfl
  · exact .inl rfl

theorem IsDigital.not_mem {numeral : Numeral} (h : IsDigital numeral) {c : Char}
    (other : isDigit c = false) : c ∉ numeral.whole ∧ c ∉ numeral.fraction := by
  constructor
  · intro inside
    simp [h.whole c inside] at other
  · intro inside
    simp [h.fraction c inside] at other

theorem IsDigital.minus_not_mem_body {numeral : Numeral} (h : IsDigital numeral) :
    '-' ∉ NumberFormat.body numeral options := by
  obtain ⟨whole, fraction⟩ := h.not_mem (c := '-') rfl
  exact not_mem_body whole fraction (by simp) (by simp)

theorem IsDigital.isBody_format [Binary64.Elementary]
    (h : scaled value options = .finite negative units significant bounded)
    (digital : IsDigital (numeral units options)) :
    IsBody options (format value options) (NumberFormat.body (numeral units options) options) :=
  NumberFormat.isBody_format h digital.minus_not_mem_body

end Format

end MessageFormat.NumberFormat
