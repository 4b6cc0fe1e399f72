import MessageFormat.Binary64.Text
import MessageFormat.Text.Blank

/-!
Argument values. An id with dots reaches into nested arguments unless an argument has just that
name.
-/

namespace MessageFormat

inductive Value where
  | undefined
  | bool (value : Bool)
  | integer (value : Int64)
  | float (value : Binary64)
  | string (value : String)
  | map (entries : List (String × Value))

abbrev Args := List (String × Value)

namespace Value

def ofNat (n : Nat) : Value :=
  if n < 2 ^ 63 then .integer (Int64.ofNat n) else .float (.ofInt n)

def isUndefined : Value → Bool
  | .undefined => true
  | _ => false

def isMap : Value → Bool
  | .map _ => true
  | _ => false

def integer? : Value → Option Int64
  | .integer n => some n
  | _ => none

def string? : Value → Option String
  | .string s => some s
  | _ => none

def number? : Value → Option Binary64
  | .integer n => some (.ofInt n.toInt)
  | .float x => some x
  | .string s => Binary64.read? (Text.trim s)
  | _ => none

def display : Value → String
  | .undefined => "undefined"
  | .bool b => if b then "true" else "false"
  | .integer n => toString n.toInt
  | .float x => x.text
  | .string s => s
  | .map _ => "[object]"

def saturate (n : Int) : Int64 :=
  Int64.ofInt (max (-2 ^ 63) (min n (2 ^ 63 - 1)))

/-- The value less an offset. Integers stay integers, and what is no number stays as it is. -/
def minus (value : Value) (offset : UInt32) : Value :=
  match value with
  | .integer n => .integer (saturate (n.toInt - offset.toNat))
  | value =>
      match value.number? with
      | some x => .float (x - .ofInt offset.toNat)
      | none => value

def descend? (value : Value) : List (List Char) → Option Value
  | [] => some value
  | segment :: path =>
      match value with
      | .map entries =>
          match entries.lookup (String.ofList segment) with
          | some inner => descend? inner path
          | none => none
      | _ => none

end Value

namespace Args

def segments : List Char → List Char × List (List Char)
  | [] => ([], [])
  | c :: rest =>
      let (first, others) := segments rest
      if c = '.' then ([], first :: others) else (c :: first, others)

/-- The argument of an id: by its whole name, else by its dotted path. -/
def lookup? (args : Args) (id : String) : Option Value :=
  match args.lookup id with
  | some value => some value
  | none =>
      let (first, path) := segments id.toList
      match args.lookup (String.ofList first) with
      | some value => value.descend? path
      | none => none

def get (args : Args) (id : String) : Value :=
  (Args.lookup? args id).getD .undefined

end Args

end MessageFormat
