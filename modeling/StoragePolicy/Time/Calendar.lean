/-!
# The Gregorian calendar

Days are counted from 1 January 1970. The calendar repeats itself every 400 years, which have
146097 days; inside such an era years are counted from 1 March, so that the leap day is the last
day of a year.

## Main definitions

* `Date`: Year, month and day.
* `Date.isValid`: Whether the date exists.
* `Date.toDays`, `Date.ofDays`: Between dates and day numbers.
-/

namespace StoragePolicy

namespace Time

/-- A date of the proleptic Gregorian calendar. -/
structure Date where
  year : Int
  month : Nat
  day : Nat
  deriving Repr, DecidableEq

namespace Date

/-- Whether a year has a leap day. -/
def isLeapYear (year : Int) : Bool :=
  (year % 4 = 0 && year % 100 ≠ 0) || year % 400 = 0

/-- The number of days of a month. -/
def daysIn (year : Int) (month : Nat) : Nat :=
  if month = 2 then (if isLeapYear year then 29 else 28)
  else if month = 4 || month = 6 || month = 9 || month = 11 then 30
  else 31

/-- Whether a date exists. -/
def isValid (d : Date) : Bool :=
  1 ≤ d.month && d.month ≤ 12 && 1 ≤ d.day && d.day ≤ daysIn d.year d.month

/-- The number of days from 1 January 1970 to a date. -/
def toDays (d : Date) : Int :=
  -- The year, counted from March, and its place in the era.
  let year := if d.month ≤ 2 then d.year - 1 else d.year
  let era := year / 400
  let yearOfEra := year % 400
  let monthFromMarch : Int := ((d.month + 9) % 12 : Nat)
  let dayOfYear := (153 * monthFromMarch + 2) / 5 + d.day - 1
  let dayOfEra := yearOfEra * 365 + yearOfEra / 4 - yearOfEra / 100 + dayOfYear
  era * 146097 + dayOfEra - 719468

/-- The date of a day number. -/
def ofDays (days : Int) : Date :=
  -- Years begin in March, so that a leap day is the last of its year.
  let fromMarch := days + 719468
  let era := fromMarch / 146097
  let dayOfEra := fromMarch % 146097
  let yearOfEra :=
    (dayOfEra - dayOfEra / 1460 + dayOfEra / 36524 - dayOfEra / 146096) / 365
  let dayOfYear := dayOfEra - (365 * yearOfEra + yearOfEra / 4 - yearOfEra / 100)
  let monthFromMarch := (5 * dayOfYear + 2) / 153
  let day := dayOfYear - (153 * monthFromMarch + 2) / 5 + 1
  let month := if monthFromMarch < 10 then monthFromMarch + 3 else monthFromMarch - 9
  let year := yearOfEra + era * 400 + (if month ≤ 2 then 1 else 0)
  { year, month := month.toNat, day := day.toNat }

example : toDays ⟨1970, 1, 1⟩ = 0 := by decide

example : toDays ⟨2000, 2, 29⟩ = 11016 := by decide

example : ofDays 11016 = ⟨2000, 2, 29⟩ := by decide

example : ofDays (toDays ⟨-262143, 1, 1⟩) = ⟨-262143, 1, 1⟩ := by decide

end Date

end Time

end StoragePolicy
