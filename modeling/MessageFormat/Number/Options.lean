/-!
What is asked of a formatted number, and number patterns such as `#,##0.00` that say it. The
characters `0`, `#` and `@` stand for digits; a currency sign, a three-letter currency code or a
percent sign chooses the style.
-/

namespace MessageFormat

/-! ## Options -/

inductive NumberStyle where
  | decimal
  | percent
  | currency
deriving DecidableEq, Repr

inductive CurrencyDisplay where
  | symbol
  | code
  | name
deriving DecidableEq, Repr

structure NumberOptions where
  style : NumberStyle := .decimal
  currency : Option String := none
  currencyDisplay : Option CurrencyDisplay := none
  useGrouping : Option Bool := none
  minimumIntegerDigits : Option Nat := none
  minimumFractionDigits : Option Nat := none
  maximumFractionDigits : Option Nat := none
  minimumSignificantDigits : Option Nat := none
  maximumSignificantDigits : Option Nat := none
deriving DecidableEq, Repr

/-! ## Patterns -/

namespace NumberPattern

def clampDigits (count low high : Nat) : Nat :=
  max low (min count high)

def isCodePart (c : Char) : Bool :=
  c.isAlphanum || c == '_'

def isCode (word : List Char) : Bool :=
  word.length == 3 && word.all Char.isAlpha

/-- The first currency code after some characters of a word, collected in reverse. -/
def codeFrom? (collected : List Char) : List Char → Option (List Char)
  | [] => if isCode collected then some collected.reverse else none
  | c :: rest =>
      if isCodePart c then codeFrom? (c :: collected) rest
      else if isCode collected then some collected.reverse
      else codeFrom? [] rest

def currencyCode? (cs : List Char) : Option String :=
  (codeFrom? [] cs).map fun word => String.ofList (word.map Char.toUpper)

def displayFor (signs : Nat) : CurrencyDisplay :=
  if signs = 1 then .symbol else if signs = 2 then .code else .name

/-- The style of a pattern with its currency. A code without a sign counts as one sign, and signs
without a code stand for dollars. -/
def styled (cs : List Char) : NumberOptions :=
  let code := currencyCode? cs
  let signs := cs.count '¤'
  if signs = 0 ∧ code = none then
    if cs.contains '%' then { style := .percent } else {}
  else
    { style := .currency
      currency := some (code.getD "USD")
      currencyDisplay := some (displayFor (max signs 1)) }

def isDigitMark (c : Char) : Bool :=
  c == '@' || c == '#' || c == '0'

def withoutExponent (cs : List Char) : List Char :=
  cs.takeWhile fun c => c != 'E' && c != 'e'

def withSignificant (cs : List Char) (options : NumberOptions) : NumberOptions :=
  let marks := (withoutExponent cs).filter isDigitMark
  { options with
    minimumSignificantDigits := some (clampDigits (marks.count '@') 1 21)
    maximumSignificantDigits := some (clampDigits marks.length 1 21) }

def withFraction (cs : List Char) (options : NumberOptions) : NumberOptions :=
  let marks := (withoutExponent cs).filter fun c => c == '#' || c == '0' || c == '.'
  let whole := marks.takeWhile (· != '.')
  let fraction := (marks.dropWhile (· != '.')).drop 1
  let required := (fraction.takeWhile (· == '0')).length
  let allowed := ((fraction.drop required).takeWhile (· == '#')).length
  { options with
    minimumIntegerDigits := some (clampDigits (whole.reverse.takeWhile (· == '0')).length 1 21)
    minimumFractionDigits := some (clampDigits required 0 20)
    maximumFractionDigits := some (clampDigits (required + allowed) 0 20) }

def read? (pattern : String) : Option NumberOptions :=
  let cs := pattern.toList
  let options := styled cs
  if cs.any isDigitMark then
    let grouped := { options with useGrouping := some (cs.contains ',') }
    some (if cs.contains '@' then withSignificant cs grouped else withFraction cs grouped)
  else if options.style = .decimal then none
  else some options

end NumberPattern

end MessageFormat
