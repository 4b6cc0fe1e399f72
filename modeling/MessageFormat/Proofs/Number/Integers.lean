import MessageFormat.Proofs.Binary64.Whole
import MessageFormat.Proofs.Number.Format
import MessageFormat.Proofs.Rendering.Placeholders

/-!
# Integers in messages

An integer is shown as the number of at most 53 bits that is nearest to it, with a comma before
every third digit (`NumberFormat.rendersTo_integer`). So just those integers are shown exactly that
have no more bits.
-/

namespace MessageFormat

open Binary64 (Elementary IsWhole signedUnits)
open Decimal (Numeral digits)

-- The unit and the limit are too large to be unfolded.
attribute [local irreducible] unitsPerOne unitsLimit

namespace Value

theorem minus_zero (n : Int64) : (integer n).minus 0 = .integer n := by
  have least := n.le_toInt
  have limit := n.toInt_lt
  have inside : max (-2 ^ 63) (min n.toInt (2 ^ 63 - 1)) = n.toInt := by omega
  have none : ((0 : UInt32).toNat : Int) = 0 := rfl
  rw [minus, saturate, none, Int.sub_zero, inside, Int64.ofInt_toInt]

end Value

namespace NumberFormat

variable {n m : Int} {text : String}

/-- The digits of an integer with a comma before every third from the right, and a minus sign in
front of a negative one. -/
def ShowsInteger (n : Int) (text : String) : Prop :=
  ∃ grouped, Grouped (digits n.natAbs) grouped ∧
    text.toList = (if n < 0 then ['-'] else []) ++ grouped

/-- The integer of at most 53 bits that is nearest to an integer. -/
def nearest (n : Int) : Int :=
  signedUnits (n < 0) (roundUnits n.natAbs 1)

theorem ShowsInteger.filter_isDigit (h : ShowsInteger n text) :
    text.toList.filter Decimal.isDigit = digits n.natAbs := by
  obtain ⟨grouped, groups, split⟩ := h
  have sign : (if n < 0 then ['-'] else []).filter Decimal.isDigit = [] := by
    split <;> rfl
  rw [split, List.filter_append, sign, List.nil_append]
  exact groups.filter_isDigit fun _ => Decimal.isDigit_of_mem_digits

theorem ShowsInteger.minus_mem_iff (h : ShowsInteger n text) : '-' ∈ text.toList ↔ n < 0 := by
  obtain ⟨grouped, groups, split⟩ := h
  have absent : '-' ∉ grouped := by
    intro minus
    rcases groups.mem minus with digit | comma
    · exact absurd (Decimal.isDigit_of_mem_digits digit) (by decide)
    · exact absurd comma (by decide)
  rw [split]
  by_cases below : n < 0 <;> simp [below, absent]

theorem ShowsInteger.unique (hn : ShowsInteger n text) (hm : ShowsInteger m text) : n = m := by
  have magnitude : n.natAbs = m.natAbs := by
    rw [← Decimal.valueOf_digits n.natAbs, ← hn.filter_isDigit, hm.filter_isDigit,
      Decimal.valueOf_digits]
  have sign : n < 0 ↔ m < 0 := hn.minus_mem_iff.symm.trans hm.minus_mem_iff
  omega

theorem natAbs_signedUnits (negative : Bool) (k : Nat) : (signedUnits negative k).natAbs = k := by
  cases negative <;> simp [signedUnits]

theorem natAbs_nearest (n : Int) : (nearest n).natAbs = roundUnits n.natAbs 1 :=
  natAbs_signedUnits _ _

theorem nearest_neg_iff : nearest n < 0 ↔ n < 0 := by
  by_cases below : n < 0
  · have pos := roundUnits_pos (n := n.natAbs) (by omega)
    simp [nearest, signedUnits, below, pos]
  · simp [nearest, signedUnits, below]

theorem nearest_eq_self_iff : nearest n = n ↔ Significant n.natAbs := by
  rw [← roundUnits_eq_self_iff]
  constructor
  · intro same
    rw [← natAbs_nearest, same]
  · intro same
    rw [nearest, same, Binary64.signedUnits_natAbs]

theorem significant_nearest (n : Int) : Significant (nearest n).natAbs := by
  rw [natAbs_nearest]
  exact roundUnits_significant _ _

theorem natAbs_sub_eq_dist {a b : Int} (sign : a < 0 ↔ b < 0) :
    (a - b).natAbs = Nat.dist a.natAbs b.natAbs := by
  simp only [Nat.dist]
  omega

/-- No integer of at most 53 bits is nearer. -/
theorem natAbs_nearest_sub_le (n : Int) {k : Int} (h : Significant k.natAbs) :
    (nearest n - n).natAbs ≤ (k - n).natAbs := by
  rw [natAbs_sub_eq_dist nearest_neg_iff, natAbs_nearest]
  by_cases sign : k < 0 ↔ n < 0
  · rw [natAbs_sub_eq_dist sign]
    exact dist_roundUnits_le n.natAbs h
  · -- Zero is nearer than any number beyond it.
    refine (dist_roundUnits_le n.natAbs significant_zero).trans ?_
    rw [Nat.dist_zero_left]
    omega

/-! ## The text of an integer -/

theorem withFraction_whole_of_bounds {options : NumberOptions} {places : Nat} (k : Nat)
    (bounds : fractionBounds options = (0, places)) :
    withFraction (k * unitsPerOne) options = ⟨digits k, []⟩ := by
  have rounded : Binary64.fixed (k * unitsPerOne) places = .ofScaled (k * 10 ^ places) places := by
    rw [Binary64.fixed, Nat.mul_right_comm, Decimal.roundHalfEven_mul _ unitsPerOne_pos]
  rw [withFraction, bounds, rounded, Numeral.trimFraction_ofScaled_whole]

theorem withFraction_whole (k : Nat) :
    withFraction (k * unitsPerOne) {} = ⟨digits k, []⟩ :=
  withFraction_whole_of_bounds k rfl

theorem isNonzero_digits_iff {k : Nat} : Numeral.isNonzero ⟨digits k, []⟩ = true ↔ 0 < k := by
  rw [Numeral.isNonzero, List.append_nil, List.any_eq_true]
  constructor
  · rintro ⟨d, hd, nonzero⟩
    by_contra none
    rw [Nat.eq_zero_of_not_pos none, Decimal.digits_zero, List.mem_singleton] at hd
    subst hd
    exact absurd nonzero (by decide)
  · intro pos
    obtain ⟨d, hd, nonzero⟩ := Decimal.exists_mem_digits_ne_zero pos
    exact ⟨d, hd, by simp [Decimal.isDigit_of_mem_digits hd, nonzero]⟩

theorem body_whole (k : Nat) : body ⟨digits k, []⟩ {} = group (digits k) := by
  have one : 1 ≤ (digits k).length := List.length_pos_iff.2 (Decimal.digits_ne_nil k)
  have padded : padded ⟨digits k, []⟩ {} = digits k := Decimal.padLeft_eq_self one
  rw [body_eq, padded]
  rfl

theorem format_decimal [Elementary] (negative : Bool) (units : Nat) (significant bounded) :
    format (.finite negative units significant bounded) {} =
      (if negative && (withFraction units {}).isNonzero then "-" else "") ++
        String.ofList (body (withFraction units {}) {}) := by
  rw [format, scaled, if_neg (by decide)]
  rfl

theorem toList_format_whole [Elementary] {x : Binary64} {negative : Bool} {k : Nat}
    (h : IsWhole x negative k) :
    (format x {}).toList = (if negative = true ∧ 0 < k then ['-'] else []) ++ group (digits k) := by
  obtain ⟨_, _, rfl⟩ := h
  rw [format_decimal, withFraction_whole, body_whole, String.toList_append, String.toList_ofList]
  have sign : (negative && Numeral.isNonzero ⟨digits k, []⟩) = true ↔ negative = true ∧ 0 < k := by
    rw [Bool.and_eq_true, isNonzero_digits_iff]
  by_cases shown : negative = true ∧ 0 < k
  · rw [if_pos (sign.2 shown), if_pos shown]
    rfl
  · rw [if_neg (sign.not.2 shown), if_neg shown]
    rfl

theorem showsInteger_format [Elementary] (small : n.natAbs < 2 ^ 100) :
    ShowsInteger (nearest n) (format (.ofInt n) {}) := by
  have whole : IsWhole (.ofInt n) (n < 0) (roundUnits n.natAbs 1) :=
    Binary64.isWhole_round _ small
  refine ⟨group (digits (nearest n).natAbs), grouped_group (Decimal.digits_ne_nil _), ?_⟩
  rw [natAbs_nearest, toList_format_whole whole]
  by_cases below : n < 0
  · have pos : 0 < roundUnits n.natAbs 1 := roundUnits_pos (by omega)
    simp [nearest_neg_iff, below, pos]
  · simp [nearest_neg_iff, below]

/-! ## Integers as they are rendered -/

theorem resolveNumber_none : StyleTable.standard.resolveNumber none = {} := by
  decide +kernel

theorem formattingOf_integer [Elementary] (types : TypeRegistry) (locale : String) (n : Int64) :
    Renderer.formattingOf { types, localizer := .plain } locale none .number (.integer n) =
      format (.ofInt n.toInt) {} := by
  simp only [Renderer.formattingOf, resolveNumber_none, Localizer.plain, Localizer.formatNumber,
    Value.number?]

/-- With the standard styles an integer is rendered alike by a number placeholder and by a number
mark in a plural over it: what is shown is the nearest integer of at most 53 bits, hence the integer
itself just if it has no more. -/
theorem rendersTo_integer [Elementary] (types : TypeRegistry) (locales : List String) (n : Int64) :
    ∃ shown : Int, Significant shown.natAbs ∧
      (∀ k : Int, Significant k.natAbs → (shown - n.toInt).natAbs ≤ (k - n.toInt).natAbs) ∧
      ∃ text, ShowsInteger shown text ∧
        (ShowsInteger n.toInt text ↔ Significant n.toInt.natAbs) ∧
        (∀ id env, Args.get env.args id = .integer n →
          Renderer.RendersTo { types, localizer := .plain } locales
            (.placeholder id (.simple .number none)) env [.text text]) ∧
        (∀ env, env.hash = some (.integer n) →
          Renderer.RendersTo { types, localizer := .plain } locales .hash env [.text text]) ∧
        ∀ type cases, "other" ∈ Cases.selectors cases → ∃ selector,
          Renderer.Runs { types, localizer := .plain } locales type 0 cases (.integer n) selector
            (.integer n) := by
  have shows : ShowsInteger (nearest n.toInt) (format (.ofInt n.toInt) {}) := by
    have least := n.le_toInt
    have limit := n.toInt_lt
    exact showsInteger_format (by omega)
  refine ⟨nearest n.toInt, significant_nearest _, fun k => natAbs_nearest_sub_le _, _, shows,
    ?_, ?_, ?_, ?_⟩
  · rw [← nearest_eq_self_iff]
    constructor
    · exact shows.unique
    · intro same
      rwa [same] at shows
  · intro id env found
    have rendered := Renderer.rendersTo_renderElement { types, localizer := .plain } locales
      (.placeholder id (.simple .number none)) env
    simp only [Renderer.renderElement, Renderer.renderKind, found] at rendered
    rwa [formattingOf_integer] at rendered
  · intro env counted
    have rendered := Renderer.rendersTo_renderElement { types, localizer := .plain } locales
      .hash env
    simp only [Renderer.renderElement, Mark.byEnv, Renderer.renderHash, counted] at rendered
    rwa [formattingOf_integer] at rendered
  · intro type cases other
    obtain ⟨selector, chosen⟩ := exists_chosenKey? other
      (Plural.keys (Plural.supported? locales) type 0 (.integer n))
    have runs := Renderer.runs_of_chosenKey? { types, localizer := .plain } chosen
    rw [Value.minus_zero] at runs
    exact ⟨selector, runs⟩

theorem rendersTo_integer_inexact :
    ∃ text, ¬ ShowsInteger 9007199254740993 text ∧
      Renderer.RendersTo {} ["en"] (.placeholder "n" (.simple .number none))
        ⟨[("n", .integer 9007199254740993)], none⟩ [.text text] := by
  obtain ⟨-, -, -, text, -, exact, placed, -⟩ := rendersTo_integer .empty ["en"] 9007199254740993
  have long : ¬ Significant 9007199254740993 := by decide +kernel
  refine ⟨text, exact.not.2 long, placed "n" _ ?_⟩
  simp [Args.get, Args.lookup?]

end NumberFormat

end MessageFormat
