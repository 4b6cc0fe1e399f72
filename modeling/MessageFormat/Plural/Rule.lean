import MessageFormat.Binary64.Text
import MessageFormat.Message.Basic
import MessageFormat.Text.Blank

/-!
Plural categories and the rules that choose them: alternatives of conjunctions of relations between
an operand and ranges of numbers. Operands are what rules look at in a decimal number.
-/

namespace MessageFormat.Plural

/-! ## Operands -/

structure Operands where
  i : Nat
  /-- The number of visible fraction digits. -/
  v : Nat
  /-- The visible fraction digits as a number. -/
  f : Nat
  /-- The number of fraction digits without trailing zeros. -/
  w : Nat
  /-- The fraction digits without trailing zeros as a number. -/
  t : Nat
deriving DecidableEq, Repr

def operandLimit : Nat := 2 ^ 64

namespace Operands

def ofDigits (whole fraction : List Char) : Operands :=
  let significant := Decimal.dropTrailingZeros fraction
  { i := Decimal.valueOf whole
    v := fraction.length
    f := Decimal.valueOf fraction
    w := significant.length
    t := Decimal.valueOf significant }

def bounded? (operands : Operands) : Option Operands :=
  if operands.i < operandLimit ∧ operands.f < operandLimit then some operands else none

def ofNumeral? (cs : List Char) : Option Operands :=
  let whole := cs.takeWhile Decimal.isDigit
  match cs.dropWhile Decimal.isDigit with
  | [] => if whole.isEmpty then none else (ofDigits whole []).bounded?
  | c :: fraction =>
      if c = '.' && !whole.isEmpty && !fraction.isEmpty && fraction.all Decimal.isDigit then
        (ofDigits whole fraction).bounded?
      else none

/-- The operands of a decimal text: white space around it and one sign are ignored, and trailing
zeros are visible. -/
def ofText? (text : String) : Option Operands :=
  match Text.trimChars text.toList with
  | [] => none
  | c :: cs => if c = '-' ∨ c = '+' then ofNumeral? cs else ofNumeral? (c :: cs)

/-- The operands of a number: those of the fewest digits that read back. -/
def ofNumber? : Binary64 → Option Operands
  | .finite _ units _ _ => ofNumeral? (Binary64.shortest units).chars
  | _ => none

end Operands

/-! ## Rules -/

inductive Category where
  | zero
  | one
  | two
  | few
  | many
  | other
deriving DecidableEq, Repr

def Category.name : Category → String
  | .zero => "zero"
  | .one => "one"
  | .two => "two"
  | .few => "few"
  | .many => "many"
  | .other => "other"

inductive Operand where
  /-- The absolute value; it has no value here unless it is an integer. -/
  | n
  | i
  | v
  | f
  | t
  | e
deriving DecidableEq, Repr

def Operand.value? (operands : Operands) : Operand → Option Nat
  | .n => if operands.w = 0 then some operands.i else none
  | .i => some operands.i
  | .v => some operands.v
  | .f => some operands.f
  | .t => some operands.t
  | .e => some 0

structure Range where
  first : Nat
  last : Nat
deriving DecidableEq, Repr

instance (n : Nat) : OfNat Range n := ⟨⟨n, n⟩⟩

def Range.contains (range : Range) (n : Nat) : Bool :=
  range.first ≤ n && n ≤ range.last

structure Relation where
  operand : Operand
  modulus : Option Nat
  negated : Bool
  ranges : List Range
deriving DecidableEq, Repr

namespace Relation

def is (operand : Operand) (ranges : List Range) : Relation :=
  ⟨operand, none, false, ranges⟩

def isNot (operand : Operand) (ranges : List Range) : Relation :=
  ⟨operand, none, true, ranges⟩

def mod (operand : Operand) (modulus : Nat) (ranges : List Range) : Relation :=
  ⟨operand, some modulus, false, ranges⟩

def modNot (operand : Operand) (modulus : Nat) (ranges : List Range) : Relation :=
  ⟨operand, some modulus, true, ranges⟩

/-- Whether a relation holds. An operand without a value lies in no range. -/
def holds (operands : Operands) (relation : Relation) : Bool :=
  let inside := match relation.operand.value? operands with
    | none => false
    | some value =>
        let reduced := match relation.modulus with
          | none => value
          | some modulus => value % modulus
        relation.ranges.any (·.contains reduced)
  inside != relation.negated

end Relation

structure Rule where
  category : Category
  alternatives : List (List Relation)
deriving Repr

def Rule.applies (operands : Operands) (rule : Rule) : Bool :=
  rule.alternatives.any fun relations => relations.all (·.holds operands)

def choose (rules : List Rule) (operands : Operands) : Category :=
  match rules.find? (·.applies operands) with
  | some rule => rule.category
  | none => .other

end MessageFormat.Plural
