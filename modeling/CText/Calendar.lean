import CText.Text.Basic

/-!
# Times of the calendar

Times are counted from the start of 1970. Dates are those of the Gregorian calendar, reckoned back
and forward without end. The computation starts its years in March, so that the leap day is the
last day of a year.
-/

namespace CText.Calendar

open Text

structure Date where
  year : Int
  month : Nat
  day : Nat
  deriving DecidableEq

/-- The year of an era of 400 years that a day of the era lies in. -/
def yearOfEra (dayOfEra : Nat) : Nat :=
  (dayOfEra - dayOfEra / 1460 + dayOfEra / 36524 - dayOfEra / 146096) / 365

/-- The days of an era before one of its years. -/
def eraStart (year : Nat) : Nat := 365 * year + year / 4 - year / 100

/-- The days of a year before one of its months, March being number 0. -/
def monthStart (month : Nat) : Nat := (153 * month + 2) / 5

/-- The date of a day of a year that begins in March. -/
def Date.ofMarch (year : Int) (dayOfYear : Nat) : Date :=
  let monthFromMarch := (5 * dayOfYear + 2) / 153
  let month := if monthFromMarch < 10 then monthFromMarch + 3 else monthFromMarch - 9
  ⟨year + (if month ≤ 2 then 1 else 0), month, dayOfYear - monthStart monthFromMarch + 1⟩

def Date.ofDays (days : Int) : Date :=
  let shifted := days + 719468
  let era := shifted / 146097
  let dayOfEra := (shifted % 146097).toNat
  let year := yearOfEra dayOfEra
  .ofMarch (year + era * 400) (dayOfEra - eraStart year)

def yearChars : Int → List Char
  | .ofNat n => padded 4 n
  | .negSucc n => '-' :: padded 3 (n + 1)

/-- A date, the seconds since it began and thousandths of a second as text. -/
def stampChars (date : Date) (rest millis : Nat) : List Char :=
  yearChars date.year ++ '-' :: padded 2 date.month ++ '-' :: padded 2 date.day ++ 'T' ::
    padded 2 (rest / 3600) ++ ':' :: padded 2 (rest % 3600 / 60) ++ ':' :: padded 2 (rest % 60) ++
    '.' :: padded 3 millis ++ ['Z']

/-- A time in seconds and thousandths as text, in the universal time zone. -/
def utcChars (seconds millis : Nat) : List Char :=
  stampChars (Date.ofDays (seconds / 86400 : Nat)) (seconds % 86400) millis

def utc (nanoseconds : Nat) : String :=
  String.ofList (utcChars (nanoseconds / 1000000000) (nanoseconds % 1000000000 / 1000000))

end CText.Calendar
