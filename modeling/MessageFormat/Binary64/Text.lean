import MessageFormat.Binary64.Basic
import MessageFormat.Decimal

/-!
Decimal text of binary floating-point numbers. A numeral that is read is an optional sign followed by
`inf`, `infinity` or `nan` in any letter case, or by digits with at most one point and at most one
exponent. Written are the fewest digits that read back, or a set number of fraction digits.
-/

namespace MessageFormat.Binary64

/-! ## Reading -/

structure Scientific where
  mantissa : Nat
  exponent : Int
deriving DecidableEq

def readExponent? : List Char → Option Int
  | [] => some 0
  | mark :: rest =>
      if mark = 'e' ∨ mark = 'E' then
        let (negative, ds) := match rest with
          | '-' :: ds => (true, ds)
          | '+' :: ds => (false, ds)
          | ds => (false, ds)
        if ds.isEmpty || !ds.all Decimal.isDigit then none
        else
          let magnitude : Int := Decimal.valueOf ds
          some (if negative then -magnitude else magnitude)
      else none

def readScientific? (cs : List Char) : Option Scientific :=
  let whole := cs.takeWhile Decimal.isDigit
  let (fraction, rest) := match cs.dropWhile Decimal.isDigit with
    | '.' :: rest => (rest.takeWhile Decimal.isDigit, rest.dropWhile Decimal.isDigit)
    | rest => ([], rest)
  if whole.isEmpty && fraction.isEmpty then none
  else (readExponent? rest).map fun exponent =>
    ⟨Decimal.valueOf (whole ++ fraction), exponent - fraction.length⟩

/-- The numeral as a quotient of units. Magnitudes far outside the range of `Binary64` are cut to
ones that round alike. -/
def Scientific.quotient (s : Scientific) : Nat × Nat :=
  let magnitude : Int := Decimal.digitCount s.mantissa + s.exponent
  if s.mantissa = 0 ∨ magnitude < -400 then (0, 1)
  else if 400 < magnitude then (unitsLimit, 1)
  else (s.mantissa * 10 ^ s.exponent.toNat * unitsPerOne, 10 ^ (-s.exponent).toNat)

def Scientific.toDouble (negative : Bool) (s : Scientific) : Binary64 :=
  round negative s.quotient.1 s.quotient.2

/-- The single-precision number nearest to a numeral: 24 significant bits, a finest grain of
`2^-149` and a limit of `2^128`. -/
def Scientific.toSingle (negative : Bool) (s : Scientific) : Binary64 :=
  let units := roundUnitsTo 24 925 s.quotient.1 s.quotient.2
  if units < 2 ^ 1202 then round negative units 1 else infinite negative

def readWith? (toNumber : Bool → Scientific → Binary64) (text : String) : Option Binary64 :=
  let (negative, cs) := match text.toList with
    | '-' :: cs => (true, cs)
    | '+' :: cs => (false, cs)
    | cs => (false, cs)
  match readScientific? cs with
  | some s => some (toNumber negative s)
  | none =>
      let word := String.ofList (cs.map Char.toLower)
      if word = "inf" ∨ word = "infinity" then some (infinite negative)
      else if word = "nan" then some nan
      else none

def read? (text : String) : Option Binary64 :=
  readWith? Scientific.toDouble text

def readSingle? (text : String) : Option Binary64 :=
  readWith? Scientific.toSingle text

/-! ## Writing -/

open Decimal (Numeral)

def decimalExponent (units : Nat) : Int :=
  let whole := units / unitsPerOne
  if whole = 0 then -(Decimal.digitCount ((unitsPerOne - 1) / units) : Int)
  else (Decimal.digitCount whole : Int) - 1

def gapAbove (units : Nat) : Nat :=
  2 ^ (units.log2 - 52)

/-- The distance from a magnitude to the next smaller one: it halves below a power of two. -/
def gapBelow (units : Nat) : Nat :=
  if 52 < units.log2 ∧ units = 2 ^ units.log2 then gapAbove units / 2 else gapAbove units

/-- The multiple of `10 ^ exponent` next to a magnitude, below or above it, that reads back as the
magnitude, as a count of `10 ^ exponent`. Of two the nearer is taken, and the upper one of a tie. -/
def gridPoint? (units : Nat) (exponent : Int) : Option Nat :=
  -- The literal stands in front, so that reduction does not count it down.
  let point := unitsPerOne * 10 ^ exponent.toNat
  let scale := 10 ^ (-exponent).toNat
  let lower := units * scale / point
  let below := units * scale - lower * point
  let above := (lower + 1) * point - units * scale
  let isEven := units / gapAbove units % 2 = 0
  let reads (distance gap : Nat) : Bool :=
    2 * distance < gap * scale || (2 * distance == gap * scale && isEven)
  if reads above (gapAbove units) && (above ≤ below || !reads below (gapBelow units)) then
    some (lower + 1)
  else if reads below (gapBelow units) then some lower
  else none

def shortestFrom (units : Nat) (exponent : Int) : Nat → Nat × Int
  | 0 => (units * 10 ^ (-exponent).toNat / (unitsPerOne * 10 ^ exponent.toNat), exponent)
  | grids + 1 =>
      match gridPoint? units exponent with
      | some point => (point, exponent)
      | none => shortestFrom units (exponent - 1) grids

/-- The numeral with the fewest significant digits that reads back as a magnitude; seventeen digits
always do. -/
def shortest (units : Nat) : Numeral :=
  if units = 0 then ⟨['0'], []⟩
  else
    let (point, exponent) := shortestFrom units (decimalExponent units) 17
    (Numeral.ofScientific point exponent).trimFraction 0

/-- The text of a number: never an exponent, no fraction for an integer, a sign on negative zero. -/
def text : Binary64 → String
  | nan => "NaN"
  | infinite negative => if negative then "-inf" else "inf"
  | finite negative units _ _ =>
      String.ofList ((if negative then ['-'] else []) ++ (shortest units).chars)

def fixed (units places : Nat) : Numeral :=
  .ofScaled (Decimal.roundHalfEven (units * 10 ^ places) unitsPerOne) places

end MessageFormat.Binary64
