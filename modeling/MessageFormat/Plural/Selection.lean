import MessageFormat.Locale
import MessageFormat.Plural.Table
import MessageFormat.Value

/-!
Choosing the plural category of a number for a locale, and which of several branches a value chooses.
A branch is found by its key; of two branches with one key the later counts, and `other` stands in for
a key that is missing.
-/

namespace MessageFormat

/-! ## Categories -/

namespace Plural

def rulesOf (type : PluralType) (locale : String) : List Rule :=
  let table := match type with
    | .cardinal => cardinalRules
    | .ordinal => ordinalRules
  match table.find? (·.1.contains locale) with
  | some entry => entry.2
  | none => []

def supported? (requested : List String) : Option String :=
  Locale.closest? requested supportedLocales.contains

def categoryIn (locale : Option String) (type : PluralType) (operands : Operands) : Category :=
  match locale with
  | some locale => choose (rulesOf type locale) operands
  | none => .other

/-- The category of `value - offset` for a locale; a number that is not finite is `other`. -/
def category (type : PluralType) (locale : String) (value offset : Binary64) : Category :=
  match Operands.ofNumber? (value - offset) with
  | some operands => categoryIn (supported? [locale]) type operands
  | none => .other

end Plural

/-! ## Branches -/

def latest? {α : Type} (branches : List (String × α)) (key : String) : Option α :=
  match branches with
  | [] => none
  | (k, branch) :: rest => (latest? rest key).or (if k = key then some branch else none)

def pick? {α : Type} (branches : List (String × α)) (keys : List String) : Option α :=
  (keys ++ ["other"]).findSome? (latest? branches)

namespace Plural

/-- The operands of a value less an offset. A decimal string keeps its visible zeros if there is
nothing to subtract. -/
def operandsOf? (value : Value) (offset : UInt32) : Option Operands :=
  match value with
  | .string text =>
      if offset = 0 then Operands.ofText? text
      else (Binary64.read? (Text.trim text)).bind fun x =>
        Operands.ofNumber? (x - .ofInt offset.toNat)
  | value => value.number?.bind fun x => Operands.ofNumber? (x - .ofInt offset.toNat)

def exactKey (x : Binary64) : String :=
  "=" ++ x.text

def categoryOf (locale : Option String) (type : PluralType) (offset : UInt32) (value : Value) :
    Category :=
  match operandsOf? value offset with
  | some operands => categoryIn locale type operands
  | none => .other

/-- The keys of a value in the order in which they are tried: exact, then by category. -/
def keys (locale : Option String) (type : PluralType) (offset : UInt32) (value : Value) :
    List String :=
  (value.number?.map exactKey).toList ++ [(categoryOf locale type offset value).name]

end Plural

end MessageFormat
