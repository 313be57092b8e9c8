/-!
# The calendar

Dates of the Gregorian calendar, extended to all years, and their distance from 1970-01-01 in days.
For counting, years begin with March, so that the leap day is the last day of its year, and four
hundred years make an era, after which the calendar repeats.  Five months from March on have 153
days, and the two after them begin another five.
-/

namespace HostLisp.Calendar

/-- A year with 366 days. -/
def isLeap (year : Int) : Bool := year % 4 = 0 && (year % 100 != 0 || year % 400 = 0)

/-- The number of days in a month, `1` for January. -/
def daysInMonth (year : Int) (month : Nat) : Nat :=
  if month = 2 then (if isLeap year then 29 else 28)
  else if month = 4 ∨ month = 6 ∨ month = 9 ∨ month = 11 then 30
  else 31

/-- A date that exists. -/
def isDate (year : Int) (month day : Nat) : Bool :=
  1 ≤ month && month ≤ 12 && 1 ≤ day && day ≤ daysInMonth year month

/-! ### Counting days -/

/-- The year that a month is counted in: January and February belong to the year before. -/
def countedYear (year : Int) (month : Nat) : Int := if month ≤ 2 then year - 1 else year

/-- The number of a month in the year it is counted in, `0` for March. -/
def monthFromMarch (month : Nat) : Nat := if 2 < month then month - 3 else month + 9

/-- The days before a month in the year it is counted in. -/
def daysBeforeMonth (month : Nat) : Nat := (153 * monthFromMarch month + 2) / 5

/-- The days of an era before one of its years. -/
def daysBeforeYear (yearOfEra : Int) : Int :=
  yearOfEra * 365 + yearOfEra / 4 - yearOfEra / 100

/-- The days of an era. -/
def daysInEra : Int := 146_097

/-- The days from the beginning of the first era, 0000-03-01, to 1970-01-01. -/
def daysToEpoch : Int := 719_468

/-- The days from 1970-01-01 to a date; negative before it. -/
def daysSinceEpoch (year : Int) (month day : Nat) : Int :=
  let year := countedYear year month
  let era := year / 400
  let dayOfYear : Int := daysBeforeMonth month + day - 1
  let dayOfEra := daysBeforeYear (year - era * 400) + dayOfYear
  era * daysInEra + dayOfEra - daysToEpoch

example : daysSinceEpoch 1970 1 1 = 0 := by decide

example : daysSinceEpoch 2024 2 29 = 19782 := by decide

end HostLisp.Calendar
