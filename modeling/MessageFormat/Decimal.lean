/-!
Decimal digits of natural numbers, rounding of quotients, and positional numerals: the digits before
and behind the point.
-/

namespace MessageFormat.Decimal

-- Powers are those of the core library, whatever algebra a later module brings in.
attribute [instance (2000), default_instance 20000] instPowNat

def isDigit (c : Char) : Bool :=
  '0' ≤ c && c ≤ '9'

def digits (n : Nat) : List Char :=
  Nat.toDigits 10 n

def digitCount (n : Nat) : Nat :=
  if n = 0 then 0 else (digits n).length

def valueOf (ds : List Char) : Nat :=
  ds.foldl (fun n d => 10 * n + (d.toNat - '0'.toNat)) 0

def padLeft (width : Nat) (ds : List Char) : List Char :=
  List.replicate (width - ds.length) '0' ++ ds

def dropTrailingZeros (ds : List Char) : List Char :=
  (ds.reverse.dropWhile (· == '0')).reverse

/-- The integer nearest to `num / den`; a tie goes to the even neighbour. -/
def roundHalfEven (num den : Nat) : Nat :=
  let quotient := num / den
  let twice := 2 * (num % den)
  if twice < den then quotient
  else if den < twice then quotient + 1
  else if quotient % 2 = 0 then quotient
  else quotient + 1

theorem roundHalfEven_le (num den : Nat) : roundHalfEven num den ≤ num / den + 1 := by
  simp only [roundHalfEven]
  split
  · omega
  · split
    · omega
    · split <;> omega

structure Numeral where
  whole : List Char
  fraction : List Char
deriving DecidableEq

namespace Numeral

def chars (numeral : Numeral) : List Char :=
  if numeral.fraction.isEmpty then numeral.whole
  else numeral.whole ++ '.' :: numeral.fraction

def ofScaled (n places : Nat) : Numeral where
  whole := digits (n / 10 ^ places)
  fraction := if places = 0 then [] else padLeft places (digits (n % 10 ^ places))

def ofScientific (n : Nat) (exponent : Int) : Numeral :=
  if 0 ≤ exponent then ⟨digits (n * 10 ^ exponent.toNat), []⟩
  else ofScaled n (-exponent).toNat

def trimFraction (keep : Nat) (numeral : Numeral) : Numeral :=
  { numeral with
    fraction := numeral.fraction.take keep ++ dropTrailingZeros (numeral.fraction.drop keep) }

def isNonzero (numeral : Numeral) : Bool :=
  (numeral.whole ++ numeral.fraction).any fun d => isDigit d && d != '0'

end Numeral

end MessageFormat.Decimal
