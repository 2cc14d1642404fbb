/-!
# Days and dates

Days are numbered from 1 January 1970, day 0, in the proleptic Gregorian calendar.  Years are
counted from March inside this module, which puts the leap day at the end of a year: the days before
the start of the `m`-th month from March are then `(153 * m + 2) / 5`.
-/

namespace EntityCache

/-- A date. -/
structure Date where
  year : Int
  month : Nat
  day : Nat
deriving DecidableEq, Repr

namespace Date

/-- The number of a date's day. -/
def dayNumber (d : Date) : Int :=
  let year := if d.month ≤ 2 then d.year - 1 else d.year
  let monthFromMarch := (d.month + 9) % 12
  365 * year + year / 4 - year / 100 + year / 400 + (153 * monthFromMarch + 2) / 5 + d.day - 719469

/-- The date of a day. -/
def ofDayNumber (n : Int) : Date :=
  let z := n + 719468
  let era := z / 146097
  let dayOfEra := (z % 146097).toNat
  let yearOfEra := (dayOfEra - dayOfEra / 1460 + dayOfEra / 36524 - dayOfEra / 146096) / 365
  let dayOfYear := dayOfEra - (365 * yearOfEra + yearOfEra / 4 - yearOfEra / 100)
  let monthFromMarch := (5 * dayOfYear + 2) / 153
  let month := (monthFromMarch + 2) % 12 + 1
  let year : Int := yearOfEra + era * 400
  { year := if month ≤ 2 then year + 1 else year
    month
    day := dayOfYear - (153 * monthFromMarch + 2) / 5 + 1 }

end Date

/-- Milliseconds of a day. -/
def dayLength : Int := 86400000

/-- The day of a moment in milliseconds. -/
def dayOf (moment : Int) : Int := moment / dayLength

/-- The hour of the day of a moment in milliseconds. -/
def hourOf (moment : Int) : Nat := (moment % dayLength / 3600000).toNat

end EntityCache
