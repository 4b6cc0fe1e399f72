import MessageFormat.DateTime.Options
import MessageFormat.Number.Format
import MessageFormat.Value

/-!
Localizers render numbers, dates and times. A message asks its localizer for a formatting function
before it is rendered, once for each style. Durations in seconds are rendered as hours, minutes and
seconds by three such functions.
-/

namespace MessageFormat

/-! ## Localizers -/

inductive Service where
  | number
  | date
  | time
deriving DecidableEq, Repr

def Service.name : Service → String
  | .number => "number"
  | .date => "date"
  | .time => "time"

inductive ServiceOptions where
  | number (options : NumberOptions)
  | dateTime (options : DateTimeOptions)
deriving DecidableEq, Repr

structure BindRequest where
  service : Service
  locale : String
  options : ServiceOptions
deriving DecidableEq, Repr

abbrev Formatting := Value → String

structure Localizer where
  bind : BindRequest → Formatting
  undefinedText : String

namespace Localizer

def formatNumber [Binary64.Elementary] (options : NumberOptions) (value : Value) : String :=
  match value.number? with
  | some x => NumberFormat.format x options
  | none => value.display

/-- Numbers with English digits and separators in every locale; dates and times as they are. -/
def plain [Binary64.Elementary] : Localizer where
  bind request :=
    match request.service, request.options with
    | .number, .number options => formatNumber options
    | _, _ => Value.display
  undefinedText := "undefined"

end Localizer

/-! ## Durations -/

namespace Duration

def leadingOptions : NumberOptions :=
  { maximumFractionDigits := some 0 }

def minutesOptions : NumberOptions :=
  { minimumIntegerDigits := some 2, maximumFractionDigits := some 0 }

def secondsOptions : NumberOptions :=
  { minimumIntegerDigits := some 2, maximumFractionDigits := some 3, useGrouping := some false }

/-- The text of a duration: `m:ss`, or `h:mm:ss` from an hour on. What is no number is shown as it
is. -/
def format (leading minutes seconds : Formatting) (value : Value) : String :=
  match value.number? with
  | none => value.display
  | some signed =>
      let sign := if signed.isNegative then "-" else ""
      let total := signed.abs
      let hours := (total / 3600).floor
      let minute := (total % 3600 / 60).floor
      let second := seconds (.float (total % 60))
      if hours.isPositive then
        sign ++ leading (.float hours) ++ ":" ++ minutes (.float minute) ++ ":" ++ second
      else sign ++ leading (.float minute) ++ ":" ++ second

end Duration

end MessageFormat
