import MessageFormat.Decimal

/-!
Binary floating-point numbers with 53 significant bits. Every finite magnitude is a whole number of
units of `2^-1074`, so arithmetic is exact on natural numbers followed by one rounding. Main
statement: `roundUnits_significant`, a rounded magnitude has at most 53 significant bits.
-/

namespace MessageFormat

/-- One unit is two to the power of minus this. -/
def unitExponent : Nat := 1074

def unitsPerOne : Nat := 2 ^ unitExponent

def limitExponent : Nat := 2098

/-- The first magnitude, in units, that is past every finite number. -/
def unitsLimit : Nat := 2 ^ limitExponent

/-- Whether a magnitude has at most 53 significant bits. -/
def Significant (units : Nat) : Prop :=
  units % 2 ^ (units.log2 - 52) = 0

instance (units : Nat) : Decidable (Significant units) :=
  inferInstanceAs (Decidable (_ = _))

/-- A double-precision number: not a number, an infinity, or a signed count of units. -/
inductive Binary64 where
  | nan
  | infinite (negative : Bool)
  | finite (negative : Bool) (units : Nat)
      (significant : Significant units) (bounded : units < unitsLimit)
deriving DecidableEq

/-- The magnitude nearest to `num / den` units that is a multiple of `2^grain` and has at most
`precision` significant bits; a tie goes to the even neighbour. -/
def roundUnitsTo (precision grain num den : Nat) : Nat :=
  let step := 2 ^ max ((num / den).log2 - (precision - 1)) grain
  Decimal.roundHalfEven num (den * step) * step

def roundUnits (num den : Nat) : Nat :=
  roundUnitsTo 53 0 num den

theorem unitsPerOne_pos : 0 < unitsPerOne :=
  Nat.two_pow_pos unitExponent

theorem unitsLimit_pos : 0 < unitsLimit :=
  Nat.two_pow_pos limitExponent

theorem significant_zero : Significant 0 := by
  simp [Significant]

theorem significant_mul_pow {m k : Nat} (h : m ≤ 2 ^ 53) : Significant (m * 2 ^ k) := by
  unfold Significant
  by_cases zero : m = 0
  · simp [zero]
  have positive : m * 2 ^ k ≠ 0 :=
    Nat.mul_ne_zero zero (Nat.ne_of_gt (Nat.two_pow_pos k))
  apply Nat.mod_eq_zero_of_dvd
  rcases Nat.lt_or_eq_of_le h with less | rfl
  · have bound : (m * 2 ^ k).log2 < 53 + k := by
      rw [Nat.log2_lt positive, Nat.pow_add]
      exact Nat.mul_lt_mul_of_pos_right less (Nat.two_pow_pos k)
    exact Nat.dvd_trans (Nat.pow_dvd_pow 2 (by omega)) (Nat.dvd_mul_left _ _)
  · rw [← Nat.pow_add, Nat.log2_two_pow]
    exact Nat.pow_dvd_pow 2 (by omega)

theorem roundUnits_significant (num den : Nat) : Significant (roundUnits num den) := by
  simp only [roundUnits, roundUnitsTo]
  apply significant_mul_pow
  generalize step : max ((num / den).log2 - (53 - 1)) 0 = k
  have bound : num / (den * 2 ^ k) < 2 ^ 53 := by
    rw [← Nat.div_div_eq_div_mul, Nat.div_lt_iff_lt_mul (Nat.two_pow_pos k), ← Nat.pow_add]
    exact Nat.lt_of_lt_of_le Nat.lt_log2_self (Nat.pow_le_pow_right (by decide) (by omega))
  exact Nat.le_trans (Decimal.roundHalfEven_le _ _) bound

namespace Binary64

def round (negative : Bool) (num den : Nat) : Binary64 :=
  if bounded : roundUnits num den < unitsLimit then
    .finite negative (roundUnits num den) (roundUnits_significant num den) bounded
  else .infinite negative

def zero (negative : Bool) : Binary64 :=
  .finite negative 0 significant_zero unitsLimit_pos

def ofInt (n : Int) : Binary64 :=
  round (n < 0) (n.natAbs * unitsPerOne) 1

instance (n : Nat) : OfNat Binary64 n := ⟨ofInt n⟩

def isFinite : Binary64 → Bool
  | finite .. => true
  | _ => false

def isNegative : Binary64 → Bool
  | nan => false
  | infinite negative => negative
  | finite negative units _ _ => negative && units != 0

def isPositive : Binary64 → Bool
  | nan => false
  | infinite negative => !negative
  | finite negative units _ _ => !negative && units != 0

def neg : Binary64 → Binary64
  | nan => nan
  | infinite negative => infinite (!negative)
  | finite negative units h bounded => finite (!negative) units h bounded

def abs : Binary64 → Binary64
  | nan => nan
  | infinite _ => infinite false
  | finite _ units h bounded => finite false units h bounded

def signedUnits (negative : Bool) (units : Nat) : Int :=
  if negative then -(units : Int) else units

/-- The rounded sum. Numbers that cancel give the positive zero, two negative zeros the negative. -/
def add : Binary64 → Binary64 → Binary64
  | nan, _ => nan
  | _, nan => nan
  | infinite a, infinite b => if a = b then infinite a else nan
  | infinite a, finite .. => infinite a
  | finite .., infinite b => infinite b
  | finite a u _ _, finite b v _ _ =>
      let sum := signedUnits a u + signedUnits b v
      if sum = 0 then zero (a && b) else round (sum < 0) sum.natAbs 1

def sub (x y : Binary64) : Binary64 :=
  add x (neg y)

def mul : Binary64 → Binary64 → Binary64
  | nan, _ => nan
  | _, nan => nan
  | infinite a, infinite b => infinite (a != b)
  | infinite a, finite b v _ _ => if v = 0 then nan else infinite (a != b)
  | finite a u _ _, infinite b => if u = 0 then nan else infinite (a != b)
  | finite a u _ _, finite b v _ _ => round (a != b) (u * v) unitsPerOne

def div : Binary64 → Binary64 → Binary64
  | nan, _ => nan
  | _, nan => nan
  | infinite _, infinite _ => nan
  | infinite a, finite b _ _ _ => infinite (a != b)
  | finite a _ _ _, infinite b => zero (a != b)
  | finite a u _ _, finite b v _ _ =>
      if v = 0 then if u = 0 then nan else infinite (a != b)
      else round (a != b) (u * unitsPerOne) v

/-- The remainder of the division that truncates; it has the sign of the dividend. -/
def rem : Binary64 → Binary64 → Binary64
  | nan, _ => nan
  | _, nan => nan
  | infinite _, _ => nan
  | finite a u h bounded, infinite _ => finite a u h bounded
  | finite a u _ _, finite _ v _ _ => if v = 0 then nan else round a (u % v) 1

def floor : Binary64 → Binary64
  | finite negative units _ _ =>
      let below := if negative then units + (unitsPerOne - 1) else units
      round negative (below / unitsPerOne * unitsPerOne) 1
  | x => x

/-- The nearest integer; a tie goes away from zero. -/
def roundHalfAway : Binary64 → Binary64
  | finite negative units _ _ =>
      round negative ((2 * units + unitsPerOne) / (2 * unitsPerOne) * unitsPerOne) 1
  | x => x

instance : Neg Binary64 := ⟨neg⟩
instance : Add Binary64 := ⟨add⟩
instance : Sub Binary64 := ⟨sub⟩
instance : Mul Binary64 := ⟨mul⟩
instance : Div Binary64 := ⟨div⟩
instance : Mod Binary64 := ⟨rem⟩

/-- A power by squaring: the exponent is taken bit by bit and every product is rounded. -/
def powBits (result square : Binary64) : Nat → Nat → Binary64
  | 0, _ => result
  | bits + 1, exponent =>
      let result := if exponent % 2 = 1 then result * square else result
      if exponent / 2 = 0 then result else powBits result (square * square) bits (exponent / 2)

def pow (base : Binary64) (exponent : Nat) : Binary64 :=
  powBits 1 base (exponent.log2 + 1) exponent

end Binary64

end MessageFormat
