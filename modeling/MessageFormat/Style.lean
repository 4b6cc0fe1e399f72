import MessageFormat.DateTime.Options
import MessageFormat.Number.Options
import MessageFormat.Text.Blank

/-!
Named styles. A style that is not a known name is read as a number pattern or a date skeleton.
-/

namespace MessageFormat

/-- Options by name; an entry hides later ones of the same name. -/
abbrev Named (α : Type) := List (String × α)

structure StyleTable where
  number : Named NumberOptions := []
  date : Named DateTimeOptions := []
  time : Named DateTimeOptions := []
deriving DecidableEq, Repr

namespace StyleTable

def standard : StyleTable where
  number :=
    [("decimal", {}),
     ("integer", { maximumFractionDigits := some 0 }),
     ("percent", { style := .percent }),
     ("currency", { style := .currency, currency := some "USD" })]
  date :=
    [("short", { month := some .numeric, day := some .numeric, year := some .twoDigit }),
     ("medium", { month := some .short, day := some .numeric, year := some .numeric }),
     ("long", { month := some .long, day := some .numeric, year := some .numeric }),
     ("full", { weekday := some .long, month := some .long, day := some .numeric,
                year := some .numeric })]
  time :=
    [("short", { hour := some .numeric, minute := some .numeric }),
     ("medium", { hour := some .numeric, minute := some .numeric, second := some .numeric }),
     ("long", { hour := some .numeric, minute := some .numeric, second := some .numeric,
                timeZoneName := some .short }),
     ("full", { hour := some .numeric, minute := some .numeric, second := some .numeric,
                timeZoneName := some .short })]

def addNumber (table : StyleTable) (name : String) (options : NumberOptions) : StyleTable :=
  { table with number := (name, options) :: table.number }

def addDate (table : StyleTable) (name : String) (options : DateTimeOptions) : StyleTable :=
  { table with date := (name, options) :: table.date }

def addTime (table : StyleTable) (name : String) (options : DateTimeOptions) : StyleTable :=
  { table with time := (name, options) :: table.time }

/-- The options of a number style: by name, else as a pattern. Without a style it is `decimal`. -/
def resolveNumber (table : StyleTable) (style : Option String) : NumberOptions :=
  let name := Text.trim (style.getD "")
  if name = "" then (table.number.lookup "decimal").getD {}
  else ((table.number.lookup name).or (NumberPattern.read? name)).getD {}

/-- The options of a date or time style: by name, else as a skeleton, else `medium`. -/
def resolveDateTime (named : Named DateTimeOptions) (style : Option String) : DateTimeOptions :=
  let name := Text.trim (style.getD "")
  (((named.lookup name).or (Skeleton.read? name)).or (named.lookup "medium")).getD {}

def resolveDate (table : StyleTable) (style : Option String) : DateTimeOptions :=
  resolveDateTime table.date style

def resolveTime (table : StyleTable) (style : Option String) : DateTimeOptions :=
  resolveDateTime table.time style

end StyleTable

end MessageFormat
