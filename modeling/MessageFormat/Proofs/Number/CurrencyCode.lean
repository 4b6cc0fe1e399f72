import MessageFormat.Proofs.Number.Pattern

/-!
# Where the currency code stands

A code of three letters is found in front of the digits of a number pattern and behind them. But an
`E` starts an exponent wherever it stands: in a code in front of the digits it takes all of them
away, and the pattern asks for no fraction digits (`NumberPattern.read?_code_iff`).
-/

namespace MessageFormat.NumberPattern

/-- Digits for a number pattern, one of them at least, with commas and points. -/
structure IsDigitPattern (cs : List Char) : Prop where
  marks : ∀ c ∈ cs, c = '#' ∨ c = '0' ∨ c = ',' ∨ c = '.'
  digit : '#' ∈ cs ∨ '0' ∈ cs

structure SameBounds (options other : NumberOptions) : Prop where
  grouping : options.useGrouping = other.useGrouping
  whole : options.minimumIntegerDigits = other.minimumIntegerDigits
  least : options.minimumFractionDigits = other.minimumFractionDigits
  greatest : options.maximumFractionDigits = other.maximumFractionDigits

/-- One digit before the point at least, and none behind it. -/
structure AsksForWhole (options : NumberOptions) : Prop where
  whole : options.minimumIntegerDigits = some 1
  least : options.minimumFractionDigits = some 0
  greatest : options.maximumFractionDigits = some 0

def HasExponentMark (cs : List Char) : Prop :=
  'E' ∈ cs ∨ 'e' ∈ cs

variable {code digits : List Char}

/-! ## The code -/

theorem codeFrom?_append (collected : List Char) {word : List Char}
    (parts : ∀ c ∈ word, isCodePart c = true) (rest : List Char) :
    codeFrom? collected (word ++ rest) = codeFrom? (word.reverse ++ collected) rest := by
  induction word generalizing collected with
  | nil => rfl
  | cons c word ih =>
    obtain ⟨part, others⟩ := List.forall_mem_cons.1 parts
    rw [List.cons_append, codeFrom?, if_pos part, ih _ others]
    simp

/-- Zeros are no code. -/
theorem isCode_zeros {zeros : List Char} (h : ∀ c ∈ zeros, c = '0') : isCode zeros = false := by
  cases zeros with
  | nil => rfl
  | cons c rest =>
    have zero : c = '0' := h c List.mem_cons_self
    have digit : Char.isAlpha '0' = false := rfl
    simp [isCode, zero, digit]

/-- There is no code among the digits of a pattern: what a code could begin with are zeros. -/
theorem codeFrom?_digits {zeros : List Char} (only : ∀ c ∈ zeros, c = '0')
    (marks : ∀ c ∈ digits, c = '#' ∨ c = '0' ∨ c = ',' ∨ c = '.') (rest : List Char) :
    codeFrom? zeros (digits ++ ' ' :: rest) = codeFrom? [] rest ∧ codeFrom? zeros digits = none := by
  induction digits generalizing zeros with
  | nil =>
    have space : isCodePart ' ' = false := rfl
    simp [codeFrom?, space, isCode_zeros only]
  | cons c digits ih =>
    obtain ⟨mark, others⟩ := List.forall_mem_cons.1 marks
    rw [List.cons_append, codeFrom?, codeFrom?]
    by_cases zero : c = '0'
    · have part : isCodePart c = true := zero ▸ rfl
      rw [if_pos part, if_pos part]
      exact ih (List.forall_mem_cons.2 ⟨zero, only⟩) others
    · have apart : isCodePart c = false := by
        rcases mark with rfl | rfl | rfl | rfl
        · rfl
        · exact absurd rfl zero
        · rfl
        · rfl
      simp only [apart, isCode_zeros only, Bool.false_eq_true, if_false]
      exact ih (by simp) others

theorem isCodePart_of_isAlpha {c : Char} (h : c.isAlpha = true) : isCodePart c = true := by
  simp [isCodePart, Char.isAlphanum, h]

section Code

variable (three : code.length = 3) (letters : ∀ c ∈ code, c.isAlpha = true)
include three letters

theorem isCode_reverse : isCode code.reverse = true := by
  simpa [isCode, three] using letters

theorem codeFrom?_leading (rest : List Char) : codeFrom? [] (code ++ ' ' :: rest) = some code := by
  have space : isCodePart ' ' = false := rfl
  rw [codeFrom?_append [] fun c hc => isCodePart_of_isAlpha (letters c hc), List.append_nil, codeFrom?]
  simp [space, isCode_reverse three letters]

theorem codeFrom?_alone : codeFrom? [] code = some code := by
  have whole := codeFrom?_append [] (fun c hc => isCodePart_of_isAlpha (letters c hc)) []
  rw [List.append_nil, List.append_nil] at whole
  rw [whole, codeFrom?, if_pos (isCode_reverse three letters), List.reverse_reverse]

end Code

/-! ## The digits -/

def digitMarks (cs : List Char) : List Char :=
  (withoutExponent cs).filter fun c => c == '#' || c == '0' || c == '.'

theorem withFraction_congr {cs ds : List Char} (same : digitMarks cs = digitMarks ds)
    (options : NumberOptions) : withFraction cs options = withFraction ds options := by
  rw [digitMarks, digitMarks] at same
  rw [withFraction, withFraction, same]

theorem digitMarks_append_of_not {front : List Char} (none : ¬ HasExponentMark front)
    (back : List Char) :
    digitMarks (front ++ back) = digitMarks front ++ digitMarks back := by
  have plain : ∀ c ∈ front, (c != 'E' && c != 'e') = true := by
    intro c hc
    have upper : c ≠ 'E' := fun same => none (.inl (same ▸ hc))
    have lower : c ≠ 'e' := fun same => none (.inr (same ▸ hc))
    simp [upper, lower]
  have all : withoutExponent front = front := List.takeWhile_eq_self_iff.2 plain
  rw [digitMarks, digitMarks, digitMarks, withoutExponent, List.takeWhile_append_of_pos plain,
    List.filter_append, all]
  rfl

theorem withoutExponent_append_of_mem {front : List Char} (h : HasExponentMark front)
    (back : List Char) : withoutExponent (front ++ back) = withoutExponent front := by
  induction front with
  | nil => simp [HasExponentMark] at h
  | cons c front ih =>
    rw [withoutExponent, List.cons_append, List.takeWhile_cons, withoutExponent, List.takeWhile_cons]
    split
    case isTrue plain =>
      have later : HasExponentMark front := by
        simp only [Bool.and_eq_true, bne_iff_ne] at plain
        simpa [HasExponentMark, Ne.symm plain.1, Ne.symm plain.2] using h
      exact congrArg (c :: ·) (ih later)
    case isFalse => rfl

theorem digitMarks_letters (letters : ∀ c ∈ code, c.isAlpha = true) : digitMarks code = [] := by
  apply List.filter_eq_nil_iff.2
  intro c hc
  have letter : c.isAlpha = true := letters c (List.takeWhile_prefix _ |>.subset hc)
  have apart {d : Char} (no : d.isAlpha = false) : c ≠ d := by
    rintro rfl
    exact absurd letter (by simp [no])
  simp [apart (d := '#') rfl, apart (d := '0') rfl, apart (d := '.') rfl]

theorem IsDigitPattern.not_hasExponentMark (h : IsDigitPattern digits) :
    ¬ HasExponentMark digits := by
  rintro (upper | lower)
  · exact absurd (h.marks _ upper) (by decide)
  · exact absurd (h.marks _ lower) (by decide)

theorem digitMarks_leading (letters : ∀ c ∈ code, c.isAlpha = true) (h : ¬ HasExponentMark code) :
    digitMarks (code ++ ' ' :: digits) = digitMarks digits := by
  rw [digitMarks_append_of_not h, digitMarks_letters letters]
  rfl

theorem digitMarks_leading_exponent (letters : ∀ c ∈ code, c.isAlpha = true)
    (h : HasExponentMark code) : digitMarks (code ++ ' ' :: digits) = [] := by
  have cut := digitMarks_letters letters
  rw [digitMarks] at cut
  rw [digitMarks, withoutExponent_append_of_mem h, cut]

theorem IsDigitPattern.digitMarks_trailing (h : IsDigitPattern digits)
    (letters : ∀ c ∈ code, c.isAlpha = true) :
    digitMarks (digits ++ ' ' :: code) = digitMarks digits := by
  have behind : digitMarks (' ' :: code) = digitMarks code := rfl
  rw [digitMarks_append_of_not h.not_hasExponentMark, behind, digitMarks_letters letters,
    List.append_nil]

/-! ## The options -/

theorem withFraction_nil (options : NumberOptions) :
    withFraction [] options = { options with
      minimumIntegerDigits := some 1
      minimumFractionDigits := some 0
      maximumFractionDigits := some 0 } :=
  rfl

theorem asksForWhole_iff (cs : List Char) (options other : NumberOptions) :
    AsksForWhole (withFraction cs other) ↔ withFraction [] options = withFraction cs options := by
  rw [withFraction_nil]
  constructor
  · intro ⟨whole, least, greatest⟩
    simp only [withFraction] at whole least greatest ⊢
    rw [whole, least, greatest]
  · intro same
    exact ⟨(congrArg NumberOptions.minimumIntegerDigits same).symm,
      (congrArg NumberOptions.minimumFractionDigits same).symm,
      (congrArg NumberOptions.maximumFractionDigits same).symm⟩

theorem sameBounds_withFraction (cs : List Char) {options other : NumberOptions}
    (h : options.useGrouping = other.useGrouping) :
    SameBounds (withFraction cs options) (withFraction cs other) :=
  ⟨h, rfl, rfl, rfl⟩

theorem read?_of_digit {pattern : String} {cs : List Char} (same : pattern.toList = cs)
    (digit : '#' ∈ cs ∨ '0' ∈ cs) (noAt : '@' ∉ cs) :
    read? pattern =
      some (withFraction cs { styled cs with useGrouping := some (cs.contains ',') }) := by
  subst same
  have mark : pattern.toList.any isDigitMark = true := by
    rw [List.any_eq_true]
    rcases digit with hash | zero
    · exact ⟨_, hash, rfl⟩
    · exact ⟨_, zero, rfl⟩
  have none : pattern.toList.contains '@' = false := by simpa using noAt
  simp only [read?]
  rw [if_pos mark, none]
  rfl

theorem styled_of_code {cs word : List Char} (found : codeFrom? [] cs = some word)
    (signs : '¤' ∉ cs) : styled cs = {
      style := .currency
      currency := some (String.ofList (word.map Char.toUpper))
      currencyDisplay := some .symbol } := by
  have named : currencyCode? cs = some (String.ofList (word.map Char.toUpper)) := by
    rw [currencyCode?, found]
    rfl
  simp [styled, named, List.count_eq_zero.2 signs, displayFor]

theorem IsDigitPattern.styled_eq (h : IsDigitPattern digits) : styled digits = {} := by
  have noCode : currencyCode? digits = none := by
    rw [currencyCode?, (codeFrom?_digits (by simp) h.marks []).2]
    rfl
  have noSign : '¤' ∉ digits := fun sign => absurd (h.marks _ sign) (by decide)
  have noPercent : '%' ∉ digits := fun percent => absurd (h.marks _ percent) (by decide)
  simp [styled, noCode, List.count_eq_zero.2 noSign, noPercent]

/-- The options of a currency, before any bounds are set. -/
def currencyOptions (code : String) (grouping : Bool) : NumberOptions where
  style := .currency
  currency := some code.toUpper
  currencyDisplay := some .symbol
  useGrouping := some grouping

section Patterns

variable {code digits : String} (letters : ∀ c ∈ code.toList, c.isAlpha = true)
  (three : code.toList.length = 3) (shape : IsDigitPattern digits.toList)
include shape

theorem IsDigitPattern.not_mem {c : Char} (h : c ≠ '#' ∧ c ≠ '0' ∧ c ≠ ',' ∧ c ≠ '.') :
    c ∉ digits.toList := by
  intro inside
  rcases shape.marks c inside with rfl | rfl | rfl | rfl <;> simp at h

theorem read?_digits : read? digits =
    some (withFraction digits.toList { useGrouping := some (digits.toList.contains ',') }) := by
  rw [read?_of_digit rfl shape.digit (shape.not_mem (by decide)), shape.styled_eq]

include letters

theorem read?_code {pattern : String} {cs : List Char} (same : pattern.toList = cs)
    (mem_iff : ∀ c, c ∈ cs ↔ c ∈ code.toList ∨ c = ' ' ∨ c ∈ digits.toList)
    (found : codeFrom? [] cs = some code.toList) : read? pattern =
      some (withFraction cs (currencyOptions code (digits.toList.contains ','))) := by
  have absent {c : Char} (letter : c.isAlpha = false) (space : c ≠ ' ') :
      c ∈ cs ↔ c ∈ digits.toList := by
    have apart : c ∉ code.toList := fun inside => by simp [letters c inside] at letter
    simp [mem_iff, apart, space]
  have digit : '#' ∈ cs ∨ '0' ∈ cs := by
    rw [absent rfl (by decide), absent rfl (by decide)]
    exact shape.digit
  have noAt : '@' ∉ cs := by
    rw [absent rfl (by decide)]
    exact shape.not_mem (by decide)
  have noSign : '¤' ∉ cs := by
    rw [absent rfl (by decide)]
    exact shape.not_mem (by decide)
  have commas : cs.contains ',' = digits.toList.contains ',' := by
    rw [Bool.eq_iff_iff, List.contains_iff_mem, List.contains_iff_mem, absent rfl (by decide)]
  have upper : String.ofList (code.toList.map Char.toUpper) = code.toUpper := by
    rw [← String.toList_inj, String.toList_ofList, String.toUpper, String.toList_map]
  rw [read?_of_digit same digit noAt, styled_of_code found noSign, commas, upper]
  rfl

include three

theorem read?_leading : read? (code ++ " " ++ digits) =
    some (withFraction (code.toList ++ ' ' :: digits.toList)
      (currencyOptions code (digits.toList.contains ','))) := by
  apply read?_code letters shape (by simp) (by simp)
  exact codeFrom?_leading three letters _

theorem read?_trailing : read? (digits ++ " " ++ code) =
    some (withFraction digits.toList (currencyOptions code (digits.toList.contains ','))) := by
  rw [← withFraction_congr (shape.digitMarks_trailing letters)]
  apply read?_code letters shape (by simp) (by simp; tauto)
  rw [(codeFrom?_digits (by simp) shape.marks _).1]
  exact codeFrom?_alone three letters

end Patterns

/-- A code of three letters in front of some digits and one behind them. With the code behind, the
bounds are those that the digits ask for. With the code in front they are so just if it has no `E`
or the digits ask for whole numbers anyway, and just then the two patterns are read alike. -/
theorem read?_code_iff (code digits : String) (three : code.length = 3)
    (letters : ∀ c ∈ code.toList, c.isAlpha = true) (shape : IsDigitPattern digits.toList) :
    ∃ plain leading trailing, read? digits = some plain ∧
      read? (code ++ " " ++ digits) = some leading ∧
      read? (digits ++ " " ++ code) = some trailing ∧
      leading.currency = some code.toUpper ∧ trailing.currency = some code.toUpper ∧
      SameBounds trailing plain ∧
      (leading = trailing ↔ (HasExponentMark code.toList → AsksForWhole plain)) ∧
      (SameBounds leading plain ↔ (HasExponentMark code.toList → AsksForWhole plain)) := by
  have length : code.toList.length = 3 := String.length_toList.trans three
  have behind : SameBounds
      (withFraction digits.toList (currencyOptions code (digits.toList.contains ',')))
      (withFraction digits.toList { useGrouping := some (digits.toList.contains ',') }) :=
    sameBounds_withFraction _ rfl
  refine ⟨_, _, _, read?_digits shape, read?_leading letters length shape,
    read?_trailing letters length shape, rfl, rfl, behind, ?_⟩
  by_cases exponent : HasExponentMark code.toList
  · have none : digitMarks (code.toList ++ ' ' :: digits.toList) = digitMarks [] :=
      digitMarks_leading_exponent letters exponent
    rw [withFraction_congr none, forall_prop_of_true exponent]
    constructor
    · exact (asksForWhole_iff _ _ _).symm
    · constructor
      · intro same
        exact ⟨same.whole.symm, same.least.symm, same.greatest.symm⟩
      · intro whole
        exact ⟨rfl, whole.whole.symm, whole.least.symm, whole.greatest.symm⟩
  · rw [withFraction_congr (digitMarks_leading letters exponent), forall_prop_of_false exponent]
    exact ⟨iff_of_true rfl trivial, iff_of_true behind trivial⟩

theorem read?_code_iff_euro :
    IsDigitPattern "#,##0.00".toList ∧ ∃ plain leading trailing,
      read? "#,##0.00" = some plain ∧ read? "eur #,##0.00" = some leading ∧
      read? "#,##0.00 eur" = some trailing ∧ ¬ SameBounds leading plain ∧ leading ≠ trailing := by
  have shape : IsDigitPattern "#,##0.00".toList := ⟨by simp, by simp⟩
  obtain ⟨plain, leading, trailing, digits, front, back, -, -, -, same, bounds⟩ :=
    read?_code_iff "eur" "#,##0.00" rfl (List.all_eq_true.1 rfl) shape
  have two : plain.minimumFractionDigits = some 2 := by
    have read : (read? "#,##0.00").bind NumberOptions.minimumFractionDigits = some 2 := by
      decide +kernel
    rwa [digits] at read
  have more : ¬ AsksForWhole plain := by
    intro whole
    exact absurd (two.symm.trans whole.least) (by decide)
  have mark : HasExponentMark "eur".toList := .inr (by decide)
  refine ⟨shape, plain, leading, trailing, digits, front, back, ?_, ?_⟩
  · exact fun h => more (bounds.1 h mark)
  · exact fun h => more (same.1 h mark)

end MessageFormat.NumberPattern
