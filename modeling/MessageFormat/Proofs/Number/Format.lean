import MessageFormat.Number.Format
import MessageFormat.Proofs.Decimal

/-!
# Formatted numbers

The digits before the point are grouped by three (`grouped_group`). Signs, currencies and commas are
neither digits nor points, so the digits of the text are those of the numeral
(`digits_decorate`), and those behind the point are within the bounds that the options set
(`fraction_withFraction`).
-/

namespace MessageFormat.NumberFormat

open Decimal (Numeral isDigit)

/-! ## Groups -/

/-- Digits with a comma before every third of them from the right, but not in front. -/
def Grouped (ds text : List Char) : Prop :=
  ∃ (first : List Char) (groups : List (List Char)),
    1 ≤ first.length ∧ first.length ≤ 3 ∧ (∀ g ∈ groups, g.length = 3) ∧
    ds = first ++ groups.flatten ∧ text = first ++ groups.flatMap (',' :: ·)

theorem exists_groups {ds : List Char} (nonempty : ds ≠ []) :
    ∃ (first : List Char) (groups : List (List Char)),
      1 ≤ first.length ∧ first.length ≤ 3 ∧ first.length % 3 = ds.length % 3 ∧
      (∀ g ∈ groups, g.length = 3) ∧ ds = first ++ groups.flatten ∧
      group ds = first ++ groups.flatMap (',' :: ·) := by
  induction ds with
  | nil => exact absurd rfl nonempty
  | cons d rest ih =>
    by_cases last : rest = []
    · subst last
      exact ⟨[d], [], by simp [group]⟩
    obtain ⟨first, groups, least, greatest, parity, threes, split, text⟩ := ih last
    rw [group]
    split
    case isTrue full =>
      -- The digits behind come in full groups, the first of them too.
      have three : first.length = 3 := by omega
      refine ⟨[d], first :: groups, by simp, by simp, ?_, ?_, ?_, ?_⟩
      · rw [List.length_singleton, List.length_cons]
        omega
      · simpa using ⟨three, threes⟩
      · simpa using split
      · simpa using text
    case isFalse partly =>
      have room : first.length % 3 ≠ 0 := fun none => partly ⟨parity ▸ none, last⟩
      refine ⟨d :: first, groups, ?_, ?_, ?_, threes, ?_, ?_⟩
      · simp
      · rw [List.length_cons]
        omega
      · rw [List.length_cons, List.length_cons]
        omega
      · simpa using split
      · simpa using text

theorem grouped_group {ds : List Char} (nonempty : ds ≠ []) : Grouped ds (group ds) := by
  obtain ⟨first, groups, least, greatest, -, threes, split, text⟩ := exists_groups nonempty
  exact ⟨first, groups, least, greatest, threes, split, text⟩

theorem Grouped.filter_isDigit {ds text : List Char} (h : Grouped ds text)
    (all : ∀ c ∈ ds, isDigit c = true) : text.filter isDigit = ds := by
  obtain ⟨first, groups, -, -, -, rfl, rfl⟩ := h
  have comma : isDigit ',' = false := rfl
  have kept : ∀ g ∈ groups, (',' :: g).filter isDigit = g := by
    intro g hg
    rw [List.filter_cons_of_neg (by simp [comma])]
    exact List.filter_eq_self.2 fun c hc =>
      all c (List.mem_append_right _ (List.mem_flatten_of_mem hg hc))
  rw [List.filter_append, List.filter_flatMap, List.flatMap_congr kept]
  simp only [List.flatMap_id']
  rw [List.filter_eq_self.2 fun c hc => all c (List.mem_append_left _ hc)]

theorem Grouped.mem {ds text : List Char} (h : Grouped ds text) {c : Char} (hc : c ∈ text) :
    c ∈ ds ∨ c = ',' := by
  obtain ⟨first, groups, -, -, -, rfl, rfl⟩ := h
  simp only [List.mem_append, List.mem_flatMap, List.mem_flatten, List.mem_cons] at hc ⊢
  rcases hc with front | ⟨g, hg, comma | inside⟩
  · exact .inl (.inl front)
  · exact .inr comma
  · exact .inl (.inr ⟨g, hg, inside⟩)

theorem group_eq_self {ds : List Char} (short : ds.length ≤ 3) : group ds = ds := by
  match ds, short with
  | [], _ => rfl
  | [_], _ => rfl
  | [_, _], _ => rfl
  | [_, _, _], _ => rfl

/-! ## Digits of a text -/

def wholeDigits (text : List Char) : List Char :=
  (text.takeWhile (· ≠ '.')).filter isDigit

def fractionDigits (text : List Char) : List Char :=
  (text.dropWhile (· ≠ '.')).filter isDigit

section Point

variable {text before behind : List Char}

theorem wholeDigits_of_not_mem (h : '.' ∉ text) : wholeDigits text = text.filter isDigit := by
  rw [wholeDigits, List.takeWhile_eq_self_iff.2]
  intro c hc
  simpa using ne_of_mem_of_not_mem hc h

theorem fractionDigits_of_not_mem (h : '.' ∉ text) : fractionDigits text = [] := by
  rw [fractionDigits, List.dropWhile_eq_nil_iff.2]
  · rfl
  · intro c hc
    simpa using ne_of_mem_of_not_mem hc h

theorem wholeDigits_point (h : '.' ∉ before) :
    wholeDigits (before ++ '.' :: behind) = before.filter isDigit := by
  rw [wholeDigits, List.takeWhile_append_of_pos]
  · simp
  · intro c hc
    simpa using ne_of_mem_of_not_mem hc h

theorem fractionDigits_point (h : '.' ∉ before) :
    fractionDigits (before ++ '.' :: behind) = behind.filter isDigit := by
  have point : isDigit '.' = false := rfl
  rw [fractionDigits, List.dropWhile_append_of_pos]
  · simp [point]
  · intro c hc
    simpa using ne_of_mem_of_not_mem hc h

end Point

/-- There is neither a digit nor a point. -/
structure IsPlain (cs : List Char) : Prop where
  point : '.' ∉ cs
  digits : cs.filter isDigit = []

theorem IsPlain.append {front back : List Char} (hf : IsPlain front) (hb : IsPlain back) :
    IsPlain (front ++ back) where
  point := by simp [hf.point, hb.point]
  digits := by rw [List.filter_append, hf.digits, hb.digits, List.append_nil]

theorem isPlain_currencySign {code : String} (h : IsPlain code.toList) :
    IsPlain (currencySign code).toList := by
  unfold currencySign
  split
  case h_6 =>
    rw [String.toList_append]
    exact h.append ⟨by decide, by decide⟩
  all_goals exact ⟨by decide, by decide⟩

section Decorated

variable {front back whole fraction : List Char}

theorem wholeDigits_decorated (hf : IsPlain front) (hb : IsPlain back) (h : '.' ∉ whole) :
    wholeDigits (front ++ Numeral.chars ⟨whole, fraction⟩ ++ back) = whole.filter isDigit := by
  rw [Numeral.chars]
  split
  · rw [wholeDigits_of_not_mem (by simp [hf.point, hb.point, h])]
    simp [hf.digits, hb.digits]
  · have split : front ++ (whole ++ '.' :: fraction) ++ back =
        (front ++ whole) ++ '.' :: (fraction ++ back) := by simp
    rw [split, wholeDigits_point (by simp [hf.point, h]), List.filter_append, hf.digits,
      List.nil_append]

theorem fractionDigits_decorated (hf : IsPlain front) (hb : IsPlain back)
    (h : '.' ∉ whole) (all : ∀ c ∈ fraction, isDigit c = true) :
    fractionDigits (front ++ Numeral.chars ⟨whole, fraction⟩ ++ back) = fraction := by
  rw [Numeral.chars]
  split
  case isTrue none =>
    rw [fractionDigits_of_not_mem (by simp [hf.point, hb.point, h])]
    exact (List.isEmpty_iff.1 none).symm
  case isFalse =>
    have split : front ++ (whole ++ '.' :: fraction) ++ back =
        (front ++ whole) ++ '.' :: (fraction ++ back) := by simp
    rw [split, fractionDigits_point (by simp [hf.point, h]), List.filter_append, hb.digits,
      List.append_nil, List.filter_eq_self.2 all]

theorem wholeDigits_chars (h : '.' ∉ whole) :
    wholeDigits (Numeral.chars ⟨whole, fraction⟩) = whole.filter isDigit := by
  have none : IsPlain [] := ⟨by simp, by simp⟩
  have digits : wholeDigits ([] ++ Numeral.chars ⟨whole, fraction⟩ ++ []) = whole.filter isDigit :=
    wholeDigits_decorated none none h
  simpa using digits

theorem fractionDigits_chars (h : '.' ∉ whole) (all : ∀ c ∈ fraction, isDigit c = true) :
    fractionDigits (Numeral.chars ⟨whole, fraction⟩) = fraction := by
  have none : IsPlain [] := ⟨by simp, by simp⟩
  simpa using fractionDigits_decorated none none h all

end Decorated

theorem decorate_eq {sign : String} (options : NumberOptions) (body : String)
    (signed : IsPlain sign.toList) (code : IsPlain (options.currency.getD "USD").toList) :
    ∃ front back, IsPlain front ∧ IsPlain back ∧
      (decorate sign body options).toList = front ++ body.toList ++ back := by
  have none : IsPlain [] := ⟨by decide, by decide⟩
  rw [decorate]
  cases options.style with
  | decimal => exact ⟨sign.toList, [], signed, none, by simp⟩
  | percent => exact ⟨sign.toList, ['%'], signed, ⟨by decide, by decide⟩, by simp⟩
  | currency =>
    have space : IsPlain "\u00a0".toList := ⟨by decide, by decide⟩
    cases options.currencyDisplay.getD .symbol with
    | symbol => exact ⟨_, [], signed.append (isPlain_currencySign code), none, by simp⟩
    | code => exact ⟨_, [], (signed.append code).append space, none, by simp⟩
    | name =>
      have blank : IsPlain " ".toList := ⟨by decide, by decide⟩
      exact ⟨sign.toList, _, signed, blank.append code, by simp⟩

/-! ## Digits of a number -/

section Shown

variable {ds : List Char}

theorem point_not_mem_group (all : ∀ c ∈ ds, isDigit c = true) (nonempty : ds ≠ [])
    (grouping : Bool) : '.' ∉ if grouping then group ds else ds := by
  have absent : '.' ∉ ds := fun point => absurd (all _ point) (by decide)
  split
  · intro point
    rcases (grouped_group nonempty).mem point with inside | comma
    · exact absent inside
    · exact absurd comma (by decide)
  · exact absent

theorem filter_isDigit_group (all : ∀ c ∈ ds, isDigit c = true) (nonempty : ds ≠ [])
    (grouping : Bool) : (if grouping then group ds else ds).filter isDigit = ds := by
  split
  · exact (grouped_group nonempty).filter_isDigit all
  · exact List.filter_eq_self.2 all

end Shown

/-- The digits of a numeral before the point, with zeros in front. -/
def padded (numeral : Numeral) (options : NumberOptions) : List Char :=
  Decimal.padLeft (options.minimumIntegerDigits.getD 1) numeral.whole

theorem body_eq (numeral : Numeral) (options : NumberOptions) :
    body numeral options = Numeral.chars ⟨if options.useGrouping.getD true then
      group (padded numeral options) else padded numeral options, numeral.fraction⟩ :=
  rfl

/-- A numeral of digits, with one before the point at least. -/
structure IsDigital (numeral : Numeral) : Prop where
  whole : ∀ c ∈ numeral.whole, isDigit c = true
  fraction : ∀ c ∈ numeral.fraction, isDigit c = true
  nonempty : numeral.whole ≠ []

section Format

variable {value : Binary64} {options : NumberOptions}

theorem digits_decorate {sign : String} {numeral : Numeral} (digital : IsDigital numeral)
    (signed : IsPlain sign.toList) (code : IsPlain (options.currency.getD "USD").toList) :
    wholeDigits (decorate sign (String.ofList (body numeral options)) options).toList =
        padded numeral options ∧
      fractionDigits (decorate sign (String.ofList (body numeral options)) options).toList =
        numeral.fraction := by
  obtain ⟨front, back, hf, hb, split⟩ :=
    decorate_eq options (String.ofList (body numeral options)) signed code
  have all : ∀ c ∈ padded numeral options, isDigit c = true :=
    Decimal.isDigit_of_mem_padLeft digital.whole
  have nonempty : padded numeral options ≠ [] := by simp [padded, Decimal.padLeft, digital.nonempty]
  have point := point_not_mem_group all nonempty (options.useGrouping.getD true)
  rw [split, String.toList_ofList, body_eq, wholeDigits_decorated hf hb point,
    fractionDigits_decorated hf hb point digital.fraction, filter_isDigit_group all nonempty]
  exact ⟨rfl, rfl⟩

theorem exists_format_eq [Binary64.Elementary] (finite : (scaled value options).isFinite = true) :
    ∃ units sign, IsPlain (String.toList sign) ∧ format value options =
      decorate sign (String.ofList (body (numeral units options) options)) options := by
  rw [format]
  cases h : scaled value options with
  | finite negative units =>
    refine ⟨units, _, ?_, rfl⟩
    split <;> exact ⟨by decide, by decide⟩
  | nan => exact Bool.noConfusion (h ▸ finite)
  | infinite => exact Bool.noConfusion (h ▸ finite)

theorem isDigital_ofScaled (n places : Nat) : IsDigital (.ofScaled n places) where
  whole := Numeral.isDigit_of_mem_whole_ofScaled
  fraction := Numeral.isDigit_of_mem_fraction_ofScaled
  nonempty := Decimal.digits_ne_nil _

theorem IsDigital.trimFraction {numeral : Numeral} (h : IsDigital numeral) (keep : Nat) :
    IsDigital (numeral.trimFraction keep) where
  whole := h.whole
  fraction c hc := h.fraction c (Numeral.fraction_trimFraction_isPrefix.subset hc)
  nonempty := h.nonempty

theorem isDigital_withFraction (units : Nat) (options : NumberOptions) :
    IsDigital (withFraction units options) :=
  (isDigital_ofScaled _ _).trimFraction _

/-- The fraction digits lie between their bounds, and those past the least do not end in a zero. -/
theorem fraction_withFraction (units : Nat) (options : NumberOptions) :
    (fractionBounds options).1 ≤ (withFraction units options).fraction.length ∧
      (withFraction units options).fraction.length ≤ (fractionBounds options).2 ∧
      ((fractionBounds options).1 < (withFraction units options).fraction.length →
        (withFraction units options).fraction.getLast? ≠ some '0') := by
  rw [withFraction]
  have ordered : (fractionBounds options).1 ≤ (fractionBounds options).2 := Nat.le_max_right _ _
  generalize fractionBounds options = bounds at ordered ⊢
  have places : (Binary64.fixed units bounds.2).fraction.length = bounds.2 :=
    Numeral.length_fraction_ofScaled _ _
  have cut : ((Binary64.fixed units bounds.2).trimFraction bounds.1).fraction <+:
      (Binary64.fixed units bounds.2).fraction := Numeral.fraction_trimFraction_isPrefix
  refine ⟨?_, cut.length_le.trans_eq places, Numeral.getLast?_fraction_trimFraction⟩
  calc bounds.1 = min bounds.1 (Binary64.fixed units bounds.2).fraction.length := by
        rw [places, Nat.min_eq_left ordered]
    _ ≤ _ := Numeral.le_length_fraction_trimFraction

end Format

end MessageFormat.NumberFormat
