import CText.Calendar
import CText.Checked.Basic

/-!
# Dates, step by step

The computation of a date in signed numbers of 64 bits, where a quotient is rounded toward zero. At
its ends numbers change their width: the count of days is taken for a signed number, and month and
day keep their low 32 bits only. Nothing reports what a change of width cuts off.
-/

namespace CText.Checked

open Calendar

/-- A result that has to be a signed number of 64 bits. -/
def signed (operation : Arithmetic) (n : Int) : Except Violation Int :=
  if -9223372036854775808 ≤ n ∧ n < 9223372036854775808 then .ok n else .error (.overflow operation)

/-- A count of 64 bits, taken for a signed number. -/
def takenSigned (n : Nat) : Int := Int.bmod n 18446744073709551616

/-- The low 32 bits of a number, taken for a count. -/
def lowBits (n : Int) : Nat := (n % 4294967296).toNat

def yearOfEra (dayOfEra : Int) : Except Violation Int := do
  let n ← signed .subtraction (dayOfEra - dayOfEra.tdiv 1460)
  let n ← signed .addition (n + dayOfEra.tdiv 36524)
  let n ← signed .subtraction (n - dayOfEra.tdiv 146096)
  return n.tdiv 365

def eraStart (year : Int) : Except Violation Int := do
  let n ← signed .multiplication (365 * year)
  let n ← signed .addition (n + year.tdiv 4)
  signed .subtraction (n - year.tdiv 100)

/-- The month of a year that one of its days lies in, March being number 0. -/
def monthOfDay (dayOfYear : Int) : Except Violation Int := do
  let n ← signed .multiplication (5 * dayOfYear)
  return (← signed .addition (n + 2)).tdiv 153

def monthStart (month : Int) : Except Violation Int := do
  let n ← signed .multiplication (153 * month)
  return (← signed .addition (n + 2)).tdiv 5

/-- A date as it is worked out, before month and day are cut to their width. The year is the one
that begins in March. -/
structure Reckoning where
  marchYear : Int
  month : Int
  day : Int

/-- Works out the date that is `days` days after the first of January 1970. -/
def reckon (days : Int) : Except Violation Reckoning := do
  let shifted ← signed .addition (days + 719468)
  let era := shifted / 146097
  let dayOfEra := shifted % 146097
  let year ← yearOfEra dayOfEra
  let dayOfYear ← signed .subtraction (dayOfEra - (← eraStart year))
  let monthFromMarch ← monthOfDay dayOfYear
  let dayBefore ← signed .subtraction (dayOfYear - (← monthStart monthFromMarch))
  let day ← signed .addition (dayBefore + 1)
  let month ←
    if monthFromMarch < 10 then signed .addition (monthFromMarch + 3)
    else signed .subtraction (monthFromMarch - 9)
  let before ← signed .multiplication (era * 400)
  return ⟨← signed .addition (year + before), month, day⟩

def dateOfDays (days : Int) : Except Violation Date := do
  let r ← reckon days
  let month := lowBits r.month
  let year ← signed .addition (r.marchYear + if month ≤ 2 then 1 else 0)
  return ⟨year, month, lowBits r.day⟩

def utcChars (seconds millis : Nat) : Except Violation (List Char) := do
  let date ← dateOfDays (takenSigned (seconds / 86400))
  return stampChars date (seconds % 86400) millis

end CText.Checked
