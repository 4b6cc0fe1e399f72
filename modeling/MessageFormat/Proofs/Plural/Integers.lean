import MessageFormat.Proofs.Binary64.Whole
import MessageFormat.Proofs.Rendering.Placeholders

/-!
# Integers in plurals

An integer chooses its case by way of the floating-point number that is nearest to it, while its
number mark keeps the integer. Up to `2^53` the case is that of the integer
(`Plural.selector?_integer`), however the integer is given (`Plural.selector?_denoting`); only
negative zero is not found under `=0`.
-/

namespace MessageFormat

open Binary64 (IsWhole)

-- The unit and the limit are too large to be unfolded.
attribute [local irreducible] unitsPerOne unitsLimit

/-! ## Keys -/

section Keys

variable {present : List String} {exact exact' category category' : String}

theorem chosenKey?_of_mem (h : exact ∈ present) :
    chosenKey? present [exact, category] = some exact := by
  simp [chosenKey?, h]

theorem chosenKey?_of_not_mem (h : exact ∉ present) :
    chosenKey? present [exact, category] = chosenKey? present [category] := by
  simp [chosenKey?, h]

/-- Two pairs of keys choose alike among all cases just if they are the same. -/
theorem forall_chosenKey?_eq_iff
    (distinct : ∀ key ∈ [exact, exact'], key ∉ [category, category', "other"]) :
    (∀ cases : Cases, "other" ∈ Cases.selectors cases →
        chosenKey? (Cases.selectors cases) [exact, category] =
          chosenKey? (Cases.selectors cases) [exact', category']) ↔
      exact = exact' ∧ category = category' := by
  constructor
  · intro alike
    constructor
    · have both := alike [⟨exact, []⟩, ⟨exact', []⟩, ⟨"other", []⟩] (by simp [Cases.selectors])
      rw [chosenKey?_of_mem (by simp [Cases.selectors]),
        chosenKey?_of_mem (by simp [Cases.selectors])] at both
      exact Option.some.inj both
    · have both := alike [⟨category, []⟩, ⟨category', []⟩, ⟨"other", []⟩]
        (by simp [Cases.selectors])
      simp only [Cases.selectors, List.map_cons, List.map_nil] at both
      rw [chosenKey?_of_not_mem (distinct exact (by simp)),
        chosenKey?_of_not_mem (distinct exact' (by simp))] at both
      simpa [chosenKey?] using both
  · rintro ⟨rfl, rfl⟩ cases -
    rfl

theorem chosenKey?_ne_of_mem (here : exact ∈ present)
    (distinct : exact ∉ [exact', category, "other"]) :
    chosenKey? present [exact, category] ≠ chosenKey? present [exact', category] := by
  rw [chosenKey?_of_mem here]
  exact fun same => distinct (List.mem_of_find?_eq_some same.symm)

theorem chosenKey?_eq_iff_of_ne (distinct : exact ∉ [exact', category, "other"])
    (distinct' : exact' ∉ [exact, category, "other"]) :
    chosenKey? present [exact, category] = chosenKey? present [exact', category] ↔
      exact ∉ present ∧ exact' ∉ present := by
  constructor
  · intro same
    exact ⟨fun here => chosenKey?_ne_of_mem here distinct same,
      fun here => chosenKey?_ne_of_mem here distinct' same.symm⟩
  · rintro ⟨absent, absent'⟩
    rw [chosenKey?_of_not_mem absent, chosenKey?_of_not_mem absent']

end Keys

namespace Value

theorem toInt_saturate (n : Int) : (saturate n).toInt = max (-2 ^ 63) (min n (2 ^ 63 - 1)) :=
  Int64.toInt_ofInt_of_le (by omega) (by omega)

end Value

namespace Plural

theorem name_ne_exact (category : Category) (text : String) : category.name ≠ "=" ++ text := by
  intro same
  have first := congrArg (fun s : String => s.toList.head?) same
  cases category <;> simp [Category.name] at first

theorem Category.name_injective : Function.Injective Category.name := by
  intro category category' same
  cases category <;> cases category' <;> simp [Category.name] at same ⊢

def Operands.ofNat (n : Nat) : Operands :=
  { i := n, v := 0, f := 0, w := 0, t := 0 }

theorem lt_operandLimit {n : Nat} (small : n ≤ 2 ^ 53) : n < operandLimit := by
  rw [operandLimit]
  omega

theorem Operands.ofNumeral?_digits {n : Nat} (h : n < operandLimit) :
    ofNumeral? (Decimal.digits n) = some (.ofNat n) := by
  have limit : 0 < operandLimit := Nat.two_pow_pos 64
  have none : Decimal.valueOf [] = 0 := rfl
  simp [ofNumeral?, Decimal.takeWhile_digits, Decimal.dropWhile_digits, Decimal.digits_ne_nil,
    ofDigits, Decimal.valueOf_digits, none, Decimal.dropTrailingZeros, bounded?, h, limit,
    Operands.ofNat]

theorem Operands.ofNumber?_finite {negative : Bool} {units : Nat} {significant bounded} :
    ofNumber? (.finite negative units significant bounded) =
      ofNumeral? (Binary64.shortest units).chars :=
  rfl

theorem Operands.ofNumber?_whole {x : Binary64} {negative : Bool} {n : Nat}
    (h : IsWhole x negative n) (small : n ≤ 2 ^ 53) : ofNumber? x = some (.ofNat n) := by
  obtain ⟨_, _, rfl⟩ := h
  have chars : (Binary64.shortest (n * unitsPerOne)).chars = Decimal.digits n := by
    rw [Binary64.shortest_whole small]
    rfl
  rw [ofNumber?_finite, chars]
  exact ofNumeral?_digits (lt_operandLimit small)

theorem Operands.ofText?_toString {n : Int} (small : n.natAbs ≤ 2 ^ 53) :
    ofText? (toString n) = some (.ofNat n.natAbs) := by
  have digits : ofNumeral? (Decimal.digits n.natAbs) = some (.ofNat n.natAbs) :=
    ofNumeral?_digits (lt_operandLimit small)
  rw [ofText?, Binary64.trimChars_toString, Binary64.toList_toString_int]
  by_cases below : n < 0
  · simpa [below] using digits
  · obtain ⟨d, ds, split, minus, plus⟩ := Decimal.exists_digits_cons n.natAbs
    rw [split] at digits ⊢
    simpa [below, minus, plus] using digits

variable (locales : List String) (type : PluralType) (offset : UInt32)

theorem small_offset : (offset.toNat : Int).natAbs ≤ 2 ^ 53 := by
  have limit := offset.toNat_lt
  omega

/-- The selector of the case that a plural placeholder runs for a value. -/
def selector? (cases : Cases) (value : Value) : Option String :=
  chosenKey? (Cases.selectors cases) (keys (supported? locales) type offset value)

def exactCategory (n : Int) : Category :=
  categoryIn (supported? locales) type (.ofNat n.natAbs)

/-- The selector that belongs to an integer: of its own digits, else of the category of its distance
from the offset, else `other`. -/
def exactSelector? (cases : Cases) (n : Int) : Option String :=
  chosenKey? (Cases.selectors cases)
    ["=" ++ toString n, (exactCategory locales type (n - offset.toNat)).name]

variable {locales type offset} {cases : Cases}

variable (locales type offset) in
theorem exists_selector? (other : "other" ∈ Cases.selectors cases) (value : Value) :
    ∃ selector, selector? locales type offset cases value = some selector :=
  exists_chosenKey? other _

theorem runs_of_selector? {value : Value} {selector : String}
    (h : selector? locales type offset cases value = some selector) (renderer : Renderer) :
    renderer.Runs locales type offset cases value selector (value.minus offset) :=
  renderer.runs_of_chosenKey? h

/-! ## The integer as it is -/

theorem keys_of_number? {value : Value} {x : Binary64} (h : value.number? = some x) :
    keys (supported? locales) type offset value =
      [exactKey x, (categoryOf (supported? locales) type offset value).name] := by
  rw [keys, h]
  rfl

theorem ofNumber?_sub {x : Binary64} {negative : Bool} {n : Nat} {difference : Int}
    (whole : IsWhole x negative n)
    (exact : Binary64.signedUnits negative n - offset.toNat = difference)
    (small : difference.natAbs ≤ 2 ^ 53) :
    Operands.ofNumber? (x - .ofInt offset.toNat) = some (.ofNat difference.natAbs) := by
  have taken := Binary64.isWhole_ofInt (small_offset offset)
  obtain ⟨sign, rounded⟩ := whole.sub taken (by rw [Binary64.signedUnits_natAbs, exact]) small
  exact Operands.ofNumber?_whole rounded small

theorem operandsOf?_integer (n : Int64) :
    operandsOf? (.integer n) offset = Operands.ofNumber? (.ofInt n.toInt - .ofInt offset.toNat) := by
  rw [operandsOf?, Value.number?, Option.bind_some]
  rintro text ⟨⟩

theorem operandsOf?_float (x : Binary64) :
    operandsOf? (.float x) offset = Operands.ofNumber? (x - .ofInt offset.toNat) := by
  rw [operandsOf?, Value.number?, Option.bind_some]
  rintro text ⟨⟩

theorem categoryOf_of_operands {value : Value} {difference : Int}
    (h : operandsOf? value offset = some (.ofNat difference.natAbs)) :
    categoryOf (supported? locales) type offset value = exactCategory locales type difference := by
  rw [categoryOf, h, exactCategory]

theorem categoryOf_integer {n : Int64} (near : n.toInt.natAbs ≤ 2 ^ 53)
    (small : (n.toInt - offset.toNat).natAbs ≤ 2 ^ 53) :
    categoryOf (supported? locales) type offset (.integer n) =
      exactCategory locales type (n.toInt - offset.toNat) := by
  apply categoryOf_of_operands
  rw [operandsOf?_integer]
  exact ofNumber?_sub (Binary64.isWhole_ofInt near) (by rw [Binary64.signedUnits_natAbs]) small

/-- A plural placeholder runs a case for every integer, and inside it the number mark stands for the
integer less the offset, cut off at the least integer there is. For all cases it is the case that
belongs to the integer just if the number nearest to the integer is shown as the integer, and the
rounded difference has the category of the exact one; and so it is if neither the integer nor the
difference is beyond `2^53`. -/
theorem selector?_integer (locales : List String) (type : PluralType) (offset : UInt32)
    (n : Int64) :
    (∀ cases : Cases, "other" ∈ Cases.selectors cases →
      ∃ selector, selector? locales type offset cases (.integer n) = some selector ∧
        ∃ count : Int64, count.toInt = max (-2 ^ 63) (n.toInt - offset.toNat) ∧
          ∀ renderer : Renderer,
            renderer.Runs locales type offset cases (.integer n) selector (.integer count)) ∧
    ((∀ cases : Cases, "other" ∈ Cases.selectors cases →
        selector? locales type offset cases (.integer n) =
          exactSelector? locales type offset cases n.toInt) ↔
      (Binary64.ofInt n.toInt).text = toString n.toInt ∧
        categoryOf (supported? locales) type offset (.integer n) =
          exactCategory locales type (n.toInt - offset.toNat)) ∧
    (n.toInt.natAbs ≤ 2 ^ 53 → (n.toInt - offset.toNat).natAbs ≤ 2 ^ 53 →
      ∀ cases : Cases, selector? locales type offset cases (.integer n) =
        exactSelector? locales type offset cases n.toInt) := by
  have tried : keys (supported? locales) type offset (.integer n) =
      [exactKey (.ofInt n.toInt), (categoryOf (supported? locales) type offset (.integer n)).name] :=
    keys_of_number? rfl
  refine ⟨fun cases other => ?_, ?_, fun near small cases => ?_⟩
  · obtain ⟨selector, chosen⟩ := exists_selector? locales type offset other (.integer n)
    refine ⟨selector, chosen, _, ?_, runs_of_selector? chosen⟩
    have limit := n.toInt_lt
    rw [Value.toInt_saturate]
    omega
  · simp only [selector?, exactSelector?, tried, exactKey]
    rw [forall_chosenKey?_eq_iff]
    · rw [String.append_right_inj, Category.name_injective.eq_iff]
    · intro key hk
      have named (category : Category) : key ≠ category.name := by
        rcases List.mem_pair.1 hk with rfl | rfl <;> exact (name_ne_exact category _).symm
      simpa using ⟨named _, named _, named .other⟩
  · rw [selector?, exactSelector?, tried, exactKey, Binary64.text_ofInt near,
      categoryOf_integer near small]

/-- Beyond `2^53` there is an integer whose own case is not the one that is run. -/
theorem selector?_integer_inexact :
    let cases : Cases := [⟨"=9007199254740993", []⟩, ⟨"other", []⟩]
    selector? ["en"] .cardinal 0 cases (.integer 9007199254740993) = some "other" ∧
      exactSelector? ["en"] .cardinal 0 cases 9007199254740993 = some "=9007199254740993" ∧
      ¬ ((Binary64.ofInt 9007199254740993).text = "9007199254740993" ∧
        categoryOf (supported? ["en"]) .cardinal 0 (.integer 9007199254740993) =
          exactCategory ["en"] .cardinal 9007199254740993) := by
  refine ⟨by decide +kernel, by decide +kernel, fun exact => ?_⟩
  have alike := (selector?_integer ["en"] .cardinal 0 9007199254740993).2.1.2 exact
  exact absurd (alike [⟨"=9007199254740993", []⟩, ⟨"other", []⟩] (by simp [Cases.selectors]))
    (by decide +kernel)

/-! ## The values that denote an integer -/

/-- An integer as an integer, as a floating-point number and as its digits. -/
def denoting (n : Int) : List Value :=
  [.integer (Int64.ofInt n), .float (.ofInt n), .string (toString n)]

section Denoting

variable {n : Int}

theorem trim_toString (n : Int) : Text.trim (toString n) = toString n := by
  rw [Text.trim, Binary64.trimChars_toString, String.ofList_toList]

theorem toInt_ofInt_small (small : n.natAbs ≤ 2 ^ 53) : (Int64.ofInt n).toInt = n :=
  Int64.toInt_ofInt_of_le (by omega) (by omega)

theorem number?_of_mem_denoting (small : n.natAbs ≤ 2 ^ 53) {value : Value}
    (h : value ∈ denoting n) : value.number? = some (.ofInt n) := by
  simp only [denoting, List.mem_cons, List.not_mem_nil, or_false] at h
  rcases h with rfl | rfl | rfl
  · rw [Value.number?, toInt_ofInt_small small]
  · rw [Value.number?]
  · rw [Value.number?, trim_toString, Binary64.read?_toString small]

theorem operandsOf?_string (small : n.natAbs ≤ 2 ^ 53) :
    operandsOf? (.string (toString n)) offset =
      Operands.ofNumber? (.ofInt n - .ofInt offset.toNat) := by
  rw [operandsOf?]
  split
  case isTrue none =>
    have exact : Binary64.signedUnits (n < 0) n.natAbs - offset.toNat = n := by
      simp [Binary64.signedUnits_natAbs, none]
    rw [Operands.ofText?_toString small, ofNumber?_sub (Binary64.isWhole_ofInt small) exact small]
  case isFalse =>
    rw [trim_toString, Binary64.read?_toString small, Option.bind_some]

theorem operandsOf?_of_mem_denoting (small : n.natAbs ≤ 2 ^ 53) {value : Value}
    (h : value ∈ denoting n) :
    operandsOf? value offset = Operands.ofNumber? (.ofInt n - .ofInt offset.toNat) := by
  simp only [denoting, List.mem_cons, List.not_mem_nil, or_false] at h
  rcases h with rfl | rfl | rfl
  · rw [operandsOf?_integer, toInt_ofInt_small small]
  · rw [operandsOf?_float]
  · rw [operandsOf?_string small]

theorem keys_of_mem_denoting (small : n.natAbs ≤ 2 ^ 53) {value : Value} (h : value ∈ denoting n) :
    keys (supported? locales) type offset value =
      keys (supported? locales) type offset (.float (.ofInt n)) := by
  have float : Value.float (.ofInt n) ∈ denoting n := by simp [denoting]
  rw [keys, keys, categoryOf, categoryOf, number?_of_mem_denoting small h,
    number?_of_mem_denoting small float, operandsOf?_of_mem_denoting small h,
    operandsOf?_of_mem_denoting small float]

/-- The two zeros have the same category, but each has an exact key of its own. -/
theorem keys_zero (negative : Bool) :
    keys (supported? locales) type offset (.float (.zero negative)) =
      [if negative then "=-0" else "=0",
        (exactCategory locales type (0 - offset.toNat)).name] := by
  have whole := Binary64.isWhole_zero negative
  have exact : Binary64.signedUnits negative 0 - offset.toNat = 0 - offset.toNat := by
    simp [Binary64.signedUnits]
  have small : (0 - (offset.toNat : Int)).natAbs ≤ 2 ^ 53 := by
    rw [Int.zero_sub, Int.natAbs_neg]
    exact small_offset offset
  rw [keys_of_number? rfl, categoryOf_of_operands, exactKey, whole.text (Nat.zero_le _)]
  · cases negative <;> rfl
  · rw [operandsOf?_float]
    exact ofNumber?_sub whole exact small

theorem keys_integer_zero :
    keys (supported? locales) type offset (.integer 0) =
      ["=0", (exactCategory locales type (0 - offset.toNat)).name] := by
  have zero : Binary64.ofInt 0 = .zero false :=
    (Binary64.isWhole_ofInt (n := 0) (Nat.zero_le _)).unique (Binary64.isWhole_zero false)
  have denotes : Value.integer 0 ∈ denoting 0 := List.mem_cons_self
  rw [keys_of_mem_denoting (Nat.zero_le _) denotes, zero, keys_zero]
  rfl

end Denoting

/-- The values that denote an integer up to `2^53` run the same case of a plural placeholder. So
does negative zero in the place of zero, unless there is a case under `=0` or `=-0`. -/
theorem selector?_denoting (locales : List String) (type : PluralType) (offset : UInt32)
    (cases : Cases) (other : "other" ∈ Cases.selectors cases) :
    (∀ n : Int, n.natAbs ≤ 2 ^ 53 → ∃ selector, ∀ value ∈ denoting n,
      selector? locales type offset cases value = some selector ∧
        ∀ renderer : Renderer, renderer.Runs locales type offset cases value selector
          (value.minus offset)) ∧
    ∃ selector, selector? locales type offset cases (.float (.zero true)) = some selector ∧
      (∀ renderer : Renderer, renderer.Runs locales type offset cases (.float (.zero true)) selector
        ((Value.float (.zero true)).minus offset)) ∧
      (selector? locales type offset cases (.integer 0) = some selector ↔
        "=0" ∉ Cases.selectors cases ∧ "=-0" ∉ Cases.selectors cases) := by
  constructor
  · intro n small
    obtain ⟨selector, chosen⟩ := exists_selector? locales type offset other (.float (.ofInt n))
    refine ⟨selector, fun value denotes => ?_⟩
    have same : selector? locales type offset cases value = some selector := by
      rw [selector?, keys_of_mem_denoting small denotes]
      exact chosen
    exact ⟨same, runs_of_selector? same⟩
  · obtain ⟨selector, chosen⟩ := exists_selector? locales type offset other (.float (.zero true))
    refine ⟨selector, chosen, runs_of_selector? chosen, ?_⟩
    rw [← chosen, selector?, selector?, keys_integer_zero, keys_zero, if_pos rfl]
    have named (text : String) (category : Category) : "=" ++ text ≠ category.name :=
      (name_ne_exact category text).symm
    apply chosenKey?_eq_iff_of_ne
    · simpa using named "0" _
    · simpa using named "-0" _

theorem selector?_negative_zero :
    let cases : Cases := [⟨"=0", []⟩, ⟨"other", []⟩]
    "other" ∈ Cases.selectors cases ∧
      ∃ selector, selector? ["en"] .cardinal 0 cases (.float (.zero true)) = some selector ∧
        selector? ["en"] .cardinal 0 cases (.integer 0) ≠ some selector := by
  have other : "other" ∈ Cases.selectors [⟨"=0", []⟩, ⟨"other", []⟩] := by simp [Cases.selectors]
  obtain ⟨selector, chosen, -, same⟩ := (selector?_denoting ["en"] .cardinal 0 _ other).2
  refine ⟨other, selector, chosen, fun alike => (same.1 alike).1 ?_⟩
  simp [Cases.selectors]

end Plural

end MessageFormat
