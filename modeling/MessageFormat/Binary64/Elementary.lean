import MessageFormat.Binary64.Text

/-!
Logarithms and powers of ten, whose last places differ from platform to platform. So just below or at
a power of ten a logarithm may be rounded down to a neighbour of the exponent, and a power may differ
once its products are rounded. What may be relied on is a class; its instance computes a logarithm as
a sum of products and a power by squaring, each step of which is rounded.
-/

namespace MessageFormat.Binary64

/-- The elementary functions of a platform. The logarithms of positive magnitudes are off by less than
one before they are rounded down. Powers of ten are products of tens in some order, which are exact as
long as the odd part of the power has 53 bits. -/
class Elementary where
  floorLog : Nat → Int
  floorLog_near (units : Nat) : 0 < units →
    decimalExponent units - 1 ≤ floorLog units ∧ floorLog units ≤ decimalExponent units + 1
  powerOfTen : Nat → Binary64
  powerOfTen_exact (n : Nat) : n ≤ 22 → powerOfTen n = ofInt (10 ^ n)

def magnitude [Elementary] (units : Nat) : Int :=
  if units = 0 then 0 else Elementary.floorLog units

/-! ## Sums of products -/

def lnTenScaled : Nat := 2302585092994045684017991454684

def lnTenInverse : Binary64 :=
  round false (10 ^ 30 * unitsPerOne) lnTenScaled

def logTwoScaled : Nat := 30102999566398119521373889472449302676818988146210854131

/-- The front of the logarithm of two: so few bits that its products with exponents are exact. -/
def logTwoFront : Binary64 :=
  round false (logTwoScaled * 2 ^ 41 / 10 ^ 56 * unitsPerOne) (2 ^ 41)

def logTwoRest : Binary64 :=
  round false (logTwoScaled * 2 ^ 41 % 10 ^ 56 * unitsPerOne) (10 ^ 56 * 2 ^ 41)

def seriesScale : Nat := 10 ^ 40

/-- Terms of the series `t + t ^ 3 / 3 + t ^ 5 / 5 + …`, from a power on with its exponent. -/
def seriesFrom (square : Nat) : Nat → Nat → Nat → Nat
  | 0, _, _ => 0
  | terms + 1, power, exponent =>
      power / exponent + seriesFrom square terms (power * square / seriesScale) (exponent + 2)

/-- The natural logarithm of a quotient from a half to two. For `t = (num - den) / (num + den)` it is
twice the sum of the series, whose terms shrink by nine. -/
def naturalLog (num den : Nat) : Binary64 :=
  let t := (max num den - min num den) * seriesScale / (num + den)
  let sum := seriesFrom (t * t / seriesScale) 45 t 1
  round (num < den) (2 * sum * unitsPerOne) seriesScale

/-- The logarithm of a magnitude as that of a power of two and that of a number from a half to two, of
which the exponents below zero have the lower half. -/
def log10 (units : Nat) : Binary64 :=
  let bits := if units < unitsPerOne then units.log2 + 1 else units.log2
  let exponent : Binary64 := ofInt (bits - unitExponent)
  exponent * logTwoRest + lnTenInverse * naturalLog units (2 ^ bits) + exponent * logTwoFront

/-- The exponent of the leading digit, or the next integer if the sum reaches that. -/
def floorLog10 (units : Nat) : Int :=
  let next := decimalExponent units + 1
  if (log10 units - ofInt next).isNegative then next - 1 else next

theorem pow_ten_eq_ofInt : ∀ n ≤ 22, pow 10 n = ofInt (10 ^ n) := by
  decide +kernel

instance : Elementary where
  floorLog := floorLog10
  floorLog_near units _ := by
    rw [floorLog10]
    split <;> omega
  powerOfTen := pow 10
  powerOfTen_exact := pow_ten_eq_ofInt

end MessageFormat.Binary64
