import MessageFormat.Binary64.Text
import MessageFormat.Proofs.Binary64.Shortest
import MessageFormat.Proofs.Locale

/-!
# Integers as floating-point numbers

An integer becomes the number of at most 53 bits that is nearest to it, and up to `2^53` it becomes
itself. There its text is that of the integer, its text is read as the number again, and differences
are exact.
-/

namespace MessageFormat.Binary64

open Decimal (digits)

-- The unit is too large a literal to be unfolded.
attribute [local irreducible] unitsPerOne

/-- A number that is an integer, of some sign and magnitude; zero may have either sign. -/
def IsWhole (x : Binary64) (negative : Bool) (n : Nat) : Prop :=
  ∃ significant bounded, x = .finite negative (n * unitsPerOne) significant bounded

theorem IsWhole.unique {x y : Binary64} {negative : Bool} {n : Nat} (hx : IsWhole x negative n)
    (hy : IsWhole y negative n) : x = y := by
  obtain ⟨_, _, rfl⟩ := hx
  obtain ⟨_, _, rfl⟩ := hy
  rfl

theorem mul_unitsPerOne_lt {n : Nat} (h : n < 2 ^ 101) : n * unitsPerOne < unitsLimit := by
  have shifted : n * unitsPerOne < 2 ^ (101 + unitExponent) := by
    rw [unitsPerOne, Nat.pow_add]
    exact Nat.mul_lt_mul_of_pos_right h (Nat.two_pow_pos unitExponent)
  exact shifted.trans_le (Nat.pow_le_pow_right (by decide) (by decide))

theorem isWhole_round (negative : Bool) {n : Nat} (h : n < 2 ^ 100) :
    IsWhole (round negative (n * unitsPerOne) 1) negative (roundUnits n 1) := by
  have units := roundUnits_mul_unitsPerOne n
  have bounded : roundUnits n 1 * unitsPerOne < unitsLimit := by
    apply mul_unitsPerOne_lt
    have twice := roundUnits_le n
    omega
  have significant : Significant (roundUnits n 1 * unitsPerOne) := by
    rw [← units]
    exact roundUnits_significant _ _
  refine ⟨significant, bounded, ?_⟩
  rw [round, dif_pos (units ▸ bounded)]
  simp only [units]

theorem isWhole_round_small (negative : Bool) {n : Nat} (small : n ≤ 2 ^ 53) :
    IsWhole (round negative (n * unitsPerOne) 1) negative n := by
  have whole := isWhole_round negative (n := n) (by omega)
  rwa [roundUnits_eq_self_iff.2 (significant_of_le small)] at whole

theorem isWhole_zero (negative : Bool) : IsWhole (zero negative) negative 0 := by
  refine ⟨by simpa using significant_zero, by simpa using unitsLimit_pos, ?_⟩
  simp only [zero, Nat.zero_mul]

theorem isWhole_ofInt {n : Int} (small : n.natAbs ≤ 2 ^ 53) :
    IsWhole (ofInt n) (n < 0) n.natAbs :=
  isWhole_round_small _ small

/-! ## Differences -/

theorem signedUnits_mul (negative : Bool) (n : Nat) :
    signedUnits negative (n * unitsPerOne) = signedUnits negative n * unitsPerOne := by
  cases negative <;> simp [signedUnits]

theorem signedUnits_not (negative : Bool) (units : Nat) :
    signedUnits (!negative) units = -signedUnits negative units := by
  cases negative <;> simp [signedUnits]

theorem signedUnits_natAbs (n : Int) : signedUnits (n < 0) n.natAbs = n := by
  rcases Int.lt_or_le n 0 with below | above
  · simp [signedUnits, below, Int.ofNat_natAbs_of_nonpos below.le]
  · simp [signedUnits, not_lt.2 above, Int.natAbs_of_nonneg above]

theorem sub_eq (x y : Binary64) : x - y = add x (neg y) := rfl

theorem IsWhole.sub {x y : Binary64} {a b : Bool} {n k : Nat} {difference : Int}
    (hx : IsWhole x a n) (hy : IsWhole y b k) (exact : signedUnits a n - signedUnits b k = difference)
    (small : difference.natAbs ≤ 2 ^ 53) :
    ∃ negative, IsWhole (x - y) negative difference.natAbs := by
  obtain ⟨_, _, rfl⟩ := hx
  obtain ⟨_, _, rfl⟩ := hy
  have sum : signedUnits a (n * unitsPerOne) + signedUnits (!b) (k * unitsPerOne) =
      difference * unitsPerOne := by
    rw [signedUnits_not, signedUnits_mul, signedUnits_mul, ← exact]
    ring
  simp only [sub_eq, neg, add, sum]
  split
  case isTrue cancels =>
    have one : (unitsPerOne : Int) ≠ 0 := by exact_mod_cast Nat.ne_of_gt unitsPerOne_pos
    have none : difference = 0 := (Int.mul_eq_zero.1 cancels).resolve_right one
    rw [none]
    exact ⟨_, isWhole_zero _⟩
  case isFalse =>
    rw [Int.natAbs_mul, Int.natAbs_natCast]
    exact ⟨_, isWhole_round_small _ small⟩

/-! ## Texts -/

theorem toList_toString_int (n : Int) :
    (toString n).toList = (if n < 0 then ['-'] else []) ++ digits n.natAbs := by
  cases n with
  | ofNat k => exact Decimal.toList_toString k
  | negSucc k =>
    have text : toString (Int.negSucc k) = "-" ++ toString (k + 1) := rfl
    rw [text, String.toList_append, Decimal.toList_toString]
    simp [Int.negSucc_lt_zero]

theorem IsWhole.text {x : Binary64} {negative : Bool} {n : Nat} (h : IsWhole x negative n)
    (small : n ≤ 2 ^ 53) :
    x.text = String.ofList ((if negative then ['-'] else []) ++ digits n) := by
  obtain ⟨_, _, rfl⟩ := h
  simp [Binary64.text, shortest_whole small, Decimal.Numeral.chars]

theorem text_ofInt {n : Int} (small : n.natAbs ≤ 2 ^ 53) : (ofInt n).text = toString n := by
  rw [(isWhole_ofInt small).text small, ← String.toList_inj, toList_toString_int]
  simp

/-! ## Reading -/

theorem readScientific?_digits (n : Nat) : readScientific? (digits n) = some ⟨n, 0⟩ := by
  simp [readScientific?, Decimal.takeWhile_digits, Decimal.dropWhile_digits, Decimal.digits_ne_nil,
    readExponent?, Decimal.valueOf_digits]

theorem toDouble_whole (negative : Bool) {n : Nat} (small : n ≤ 2 ^ 53) :
    Scientific.toDouble negative ⟨n, 0⟩ = round negative (n * unitsPerOne) 1 := by
  have length : (digits n).length ≤ 16 :=
    Decimal.length_digits_le (by decide) (lt_of_le_of_lt small (by decide))
  rw [Scientific.toDouble]
  by_cases none : n = 0
  · simp [Scientific.quotient, none]
  · have count : Decimal.digitCount n = (digits n).length :=
      Decimal.digitCount_of_pos (Nat.pos_of_ne_zero none)
    have few : ¬ (400 : Int) < (digits n).length := by omega
    have some : ¬ ((digits n).length : Int) < -400 := by omega
    simp [Scientific.quotient, none, count, few, some]

theorem read?_toString {n : Int} (small : n.natAbs ≤ 2 ^ 53) :
    read? (toString n) = some (ofInt n) := by
  obtain ⟨d, ds, split, minus, plus⟩ := Decimal.exists_digits_cons n.natAbs
  have scientific := readScientific?_digits n.natAbs
  rw [read?, readWith?, toList_toString_int, ofInt, ← toDouble_whole _ small]
  by_cases below : n < 0
  · simp [below, scientific]
  · rw [split] at scientific ⊢
    simp [below, minus, plus, scientific]

theorem isWhiteSpace_of_isDigit {c : Char} (h : Decimal.isDigit c = true) :
    Text.isWhiteSpace c = false := by
  simp only [Decimal.isDigit, Bool.and_eq_true, decide_eq_true_eq, Char.le_def,
    UInt32.le_iff_toNat_le, Char.toNat_val] at h
  simp [Text.isWhiteSpace, Text.inRanges, Text.whiteSpaceRanges] at h ⊢
  omega

theorem trimChars_toString (n : Int) : Text.trimChars (toString n).toList = (toString n).toList := by
  have plain : ∀ c ∈ (toString n).toList, Text.isWhiteSpace c = false := by
    intro c hc
    rw [toList_toString_int] at hc
    rcases List.mem_append.1 hc with sign | digit
    · split at sign
      · rw [List.mem_singleton.1 sign]
        decide
      · cases sign
    · exact isWhiteSpace_of_isDigit (Decimal.isDigit_of_mem_digits digit)
  exact Text.trimChars_eq_self (fun c first => plain c (List.mem_of_head? first))
    fun c last => plain c (List.mem_of_getLast? last)

end MessageFormat.Binary64
