import MessageFormat.Binary64.Elementary
import MessageFormat.Number.Options

/-!
Numbers as text, with English digits and separators.
-/

namespace MessageFormat.NumberFormat

open Binary64 (Elementary)
open Decimal (Numeral)

def defaultFraction : NumberStyle → Nat × Nat
  | .decimal => (0, 3)
  | .percent => (0, 0)
  | .currency => (2, 2)

def fractionBounds (options : NumberOptions) : Nat × Nat :=
  let default := defaultFraction options.style
  let least := options.minimumFractionDigits.getD default.1
  (least, max (options.maximumFractionDigits.getD (max default.2 least)) least)

/-- A magnitude rounded to the greatest number of fraction digits, without zeros past the least. -/
def withFraction (units : Nat) (options : NumberOptions) : Numeral :=
  let bounds := fractionBounds options
  (Binary64.fixed units bounds.2).trimFraction bounds.1

def fits? (count : Nat) : Option Nat :=
  if count < 2 ^ 31 then some count else none

/-- The nearest integer to a number that is not negative; past the finite numbers it is `inf`. -/
def integerNumeral : Binary64 → Numeral
  | .finite _ units _ _ => Binary64.fixed units 0
  | _ => ⟨['i', 'n', 'f'], []⟩

/-- A magnitude rounded to `greatest` significant digits, without fraction zeros past the first
`least` significant digits. Where the unit of the last digit is one or more, it is divided out,
rounded and multiplied back. -/
def withSignificant [Elementary] (units : Nat) (least : Option Nat) (greatest : Nat) : Numeral :=
  let greatest := (fits? (max greatest 1)).getD 21
  let least := min ((least.bind fits?).getD 1) greatest
  let magnitude := Binary64.magnitude units
  let decimals : Int := greatest - 1 - magnitude
  if decimals ≤ 0 then
    let unit := Elementary.powerOfTen decimals.natAbs
    let value := Binary64.round false units 1
    integerNumeral ((value / unit).roundHalfAway * unit)
  else
    (Binary64.fixed units decimals.toNat).trimFraction ((least : Int) - 1 - magnitude).toNat

def group : List Char → List Char
  | [] => []
  | d :: rest =>
      if rest.length % 3 = 0 ∧ rest ≠ [] then d :: ',' :: group rest else d :: group rest

def currencySign (code : String) : String :=
  match code with
  | "USD" => "$"
  | "EUR" => "€"
  | "GBP" => "£"
  | "JPY" => "¥"
  | "INR" => "₹"
  | _ => code ++ "\u00a0"

def numeral [Elementary] (units : Nat) (options : NumberOptions) : Numeral :=
  match options.maximumSignificantDigits with
  | some greatest => withSignificant units options.minimumSignificantDigits greatest
  | none => withFraction units options

def body (numeral : Numeral) (options : NumberOptions) : List Char :=
  let whole := Decimal.padLeft (options.minimumIntegerDigits.getD 1) numeral.whole
  let whole := if options.useGrouping.getD true then group whole else whole
  Numeral.chars { numeral with whole }

def decorate (sign body : String) (options : NumberOptions) : String :=
  match options.style with
  | .decimal => sign ++ body
  | .percent => sign ++ body ++ "%"
  | .currency =>
      let code := options.currency.getD "USD"
      match options.currencyDisplay.getD .symbol with
      | .symbol => sign ++ currencySign code ++ body
      | .code => sign ++ code ++ "\u00a0" ++ body
      | .name => sign ++ body ++ " " ++ code

def scaled (value : Binary64) (options : NumberOptions) : Binary64 :=
  if options.style = .percent then value * 100 else value

/-- The text of a number. A number that rounds to zero has no sign. -/
def format [Elementary] (value : Binary64) (options : NumberOptions) : String :=
  match scaled value options with
  | .nan => "NaN"
  | .infinite negative => if negative then "-∞" else "∞"
  | .finite negative units _ _ =>
      let numeral := numeral units options
      let sign := if negative && numeral.isNonzero then "-" else ""
      decorate sign (String.ofList (body numeral options)) options

end MessageFormat.NumberFormat
