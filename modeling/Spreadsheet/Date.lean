import Spreadsheet.Number.Exact

/-!
Dates and times as serial numbers. Serial 0 is the midnight that opens 30 December 1899, and each day
counts one; the time of day is the fraction. The calendar is the Gregorian one, carried back and
forward to the years that dates may have.
-/

namespace Spreadsheet

/-- A day of the calendar. -/
structure Date where
  /-- The year. -/
  year : Int
  /-- The month, from 1. -/
  month : Nat
  /-- The day of the month, from 1. -/
  day : Nat
deriving DecidableEq

namespace Date

/-- Whether the year has a 29 February. -/
def isLeap (year : Int) : Bool :=
  year % 4 == 0 && (year % 100 != 0 || year % 400 == 0)

/-- The number of days of a month. -/
def daysInMonth (year : Int) (month : Nat) : Nat :=
  if month == 2 then (if isLeap year then 29 else 28)
  else if month == 4 || month == 6 || month == 9 || month == 11 then 30
  else 31

/-- The number of days in the year before 1 March and the given month, which counts from March. -/
def daysBeforeMonth (monthFromMarch : Int) : Int :=
  (153 * monthFromMarch + 2) / 5

/-- The serial of 1 March of year 0. -/
def originSerial : Int := -693899

/-- The serial of a day. Years are counted from March, so that a leap day is the last of its year. -/
def serial (d : Date) : Int :=
  let month : Int := d.month
  let year := if d.month ≤ 2 then d.year - 1 else d.year
  let fromMarch := if d.month ≤ 2 then month + 9 else month - 3
  originSerial + 365 * year + year / 4 - year / 100 + year / 400 + daysBeforeMonth fromMarch +
    d.day - 1

/-- The day with the given serial. Four hundred years have 146097 days. -/
def ofSerial (n : Int) : Date :=
  let days := n - originSerial
  let era := days / 146097
  let dayOfEra := days % 146097
  let yearOfEra := (dayOfEra - dayOfEra / 1460 + dayOfEra / 36524 - dayOfEra / 146096) / 365
  let dayOfYear := dayOfEra - (365 * yearOfEra + yearOfEra / 4 - yearOfEra / 100)
  let fromMarch := (5 * dayOfYear + 2) / 153
  let day := dayOfYear - daysBeforeMonth fromMarch + 1
  let month := if fromMarch < 10 then fromMarch + 3 else fromMarch - 9
  let year := yearOfEra + 400 * era + if month ≤ 2 then 1 else 0
  ⟨year, month.toNat, day.toNat⟩

/-- The serial of the first day of the calendar, 1 January of the year -262143. -/
def firstSerial : Int := -96439723

/-- The serial of the last day of the calendar, 31 December of the year 262142. -/
def lastSerial : Int := 95051805

/-- Whether the year, month and day name a day of the calendar. -/
def isValid (d : Date) : Bool :=
  1 ≤ d.month && d.month ≤ 12 && 1 ≤ d.day && d.day ≤ daysInMonth d.year d.month &&
    firstSerial ≤ d.serial && d.serial ≤ lastSerial

end Date

/-- An instant: a day and the seconds since its midnight. -/
structure Instant where
  /-- The serial of the day. -/
  day : Int
  /-- Seconds since midnight. -/
  second : Nat
deriving DecidableEq

namespace Instant

/-- The number of seconds of a day. -/
def secondsPerDay : Nat := 86400

/-- The date of an instant. -/
def date (i : Instant) : Date := Date.ofSerial i.day

/-- The hour of the day. -/
def hour (i : Instant) : Nat := i.second / 3600

/-- The minute of the hour. -/
def minute (i : Instant) : Nat := i.second / 60 % 60

/-- The second of the minute. -/
def secondOfMinute (i : Instant) : Nat := i.second % 60

/-- The serial number of an instant. -/
def serial (i : Instant) : Float :=
  Number.ofInt i.day + Number.ofNat i.second / 86400

/-- The instant of a serial number: the day is cut down, the time of day is rounded to seconds, and a
time that rounds up to a whole day falls back to the midnight of the same day. -/
def ofSerial? (x : Float) : Option Instant :=
  if !x.isFinite then none
  else
    let days := Number.floor x
    let seconds := Number.round ((x - days) * 86400)
    let day := Number.clampWord days
    if Date.firstSerial ≤ day && day ≤ Date.lastSerial then
      some ⟨day, Number.clampNat 63 seconds % secondsPerDay⟩
    else none

end Instant

end Spreadsheet
