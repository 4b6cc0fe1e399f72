/-!
What is asked of a formatted date or time, and date skeletons such as `yMMMd` that say it: runs of a
letter that name a field and its width. Text between apostrophes is skipped, and so are characters
that name no field.
-/

namespace MessageFormat

/-! ## Options -/

inductive NumericWidth where
  | numeric
  | twoDigit
deriving DecidableEq, Repr

inductive TextWidth where
  | narrow
  | short
  | long
deriving DecidableEq, Repr

inductive MonthWidth where
  | numeric
  | twoDigit
  | narrow
  | short
  | long
deriving DecidableEq, Repr

structure DateTimeOptions where
  era : Option TextWidth := none
  year : Option NumericWidth := none
  month : Option MonthWidth := none
  weekday : Option TextWidth := none
  day : Option NumericWidth := none
  hour : Option NumericWidth := none
  minute : Option NumericWidth := none
  second : Option NumericWidth := none
  hour12 : Option Bool := none
  timeZoneName : Option TextWidth := none
deriving DecidableEq, Repr

/-! ## Skeletons -/

namespace Skeleton

def numericWidth (length : Nat) : NumericWidth :=
  if length = 2 then .twoDigit else .numeric

def textWidth (length : Nat) : TextWidth :=
  if length = 4 then .long else if length = 5 then .narrow else .short

def monthWidth (length : Nat) : MonthWidth :=
  match length with
  | 1 => .numeric
  | 2 => .twoDigit
  | 3 => .short
  | 4 => .long
  | _ => .narrow

def zoneWidth (length : Nat) : TextWidth :=
  if length < 4 then .short else .long

def setField? (options : DateTimeOptions) (letter : Char) (length : Nat) : Option DateTimeOptions :=
  match letter with
  | 'G' => some { options with era := some (textWidth length) }
  | 'y' | 'Y' => some { options with year := some (numericWidth length) }
  | 'M' | 'L' => some { options with month := some (monthWidth length) }
  | 'E' | 'e' | 'c' => some { options with weekday := some (textWidth length) }
  | 'd' => some { options with day := some (numericWidth length) }
  | 'h' | 'K' =>
      some { options with hour12 := some true, hour := some (numericWidth length) }
  | 'H' | 'k' =>
      some { options with hour12 := some false, hour := some (numericWidth length) }
  | 'm' => some { options with minute := some (numericWidth length) }
  | 's' => some { options with second := some (numericWidth length) }
  | 'z' | 'Z' | 'v' | 'V' | 'x' | 'X' | 'O' =>
      some { options with timeZoneName := some (zoneWidth length) }
  | _ => none

inductive Place where
  | quoted
  | run (letter : Char) (length : Nat)
  | between
deriving DecidableEq, Repr

def runsFrom : Place → List Char → List (Char × Nat)
  | .run letter length, [] => [(letter, length)]
  | _, [] => []
  | .quoted, c :: rest => if c = '\'' then runsFrom .between rest else runsFrom .quoted rest
  | .between, c :: rest =>
      if c = '\'' then runsFrom .quoted rest else runsFrom (.run c 1) rest
  | .run letter length, c :: rest =>
      if c = letter then runsFrom (.run letter (length + 1)) rest
      else (letter, length) ::
        (if c = '\'' then runsFrom .quoted rest else runsFrom (.run c 1) rest)

/-- The fields that some runs name, set in order; none if no run names a field. -/
def setFields (options : Option DateTimeOptions) (runs : List (Char × Nat)) :
    Option DateTimeOptions :=
  runs.foldl (fun options run => (setField? (options.getD {}) run.1 run.2).or options) options

def read? (skeleton : String) : Option DateTimeOptions :=
  setFields none (runsFrom .between skeleton.toList)

end Skeleton

end MessageFormat
