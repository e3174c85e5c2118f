import Mathlib.Data.Nat.Notation
import Mathlib.Algebra.Order.Group.Unbundled.Int

/-! The proleptic Gregorian calendar over day numbers, day 0 being 1 January 1970. -/

namespace ServerCore.Foundations

structure CivilDate where
  year : ℤ
  month : ℕ
  day : ℕ
  deriving DecidableEq, Repr

namespace CivilDate

def isLeap (year : ℤ) : Bool := year % 4 == 0 && (year % 100 != 0 || year % 400 == 0)

def lastDay (year : ℤ) (month : ℕ) : ℕ :=
  if month = 2 then (if isLeap year then 29 else 28)
  else if month = 4 || month = 6 || month = 9 || month = 11 then 30
  else 31

def valid (date : CivilDate) : Bool :=
  1 ≤ date.month && date.month ≤ 12 && 1 ≤ date.day && date.day ≤ lastDay date.year date.month

/-- The years are counted from March, 400 of them to an era. -/
def ofDays (days : ℤ) : CivilDate :=
  let shifted := days + 719468
  let era := shifted / 146097
  let dayOfEra := (shifted % 146097).toNat
  let yearOfEra := (dayOfEra - dayOfEra / 1460 + dayOfEra / 36524 - dayOfEra / 146096) / 365
  let dayOfYear := dayOfEra - (365 * yearOfEra + yearOfEra / 4 - yearOfEra / 100)
  let monthFromMarch := (5 * dayOfYear + 2) / 153
  let month := if monthFromMarch < 10 then monthFromMarch + 3 else monthFromMarch - 9
  ⟨era * 400 + yearOfEra + (if month ≤ 2 then 1 else 0), month,
    dayOfYear - (153 * monthFromMarch + 2) / 5 + 1⟩

def toDays (date : CivilDate) : ℤ :=
  let year := if date.month ≤ 2 then date.year - 1 else date.year
  let era := year / 400
  let yearOfEra := (year % 400).toNat
  let monthFromMarch := if 2 < date.month then date.month - 3 else date.month + 9
  let dayOfYear := (153 * monthFromMarch + 2) / 5 + date.day - 1
  let dayOfEra := yearOfEra * 365 + yearOfEra / 4 - yearOfEra / 100 + dayOfYear
  era * 146097 + dayOfEra - 719468

/-- Sunday is 0. -/
def weekday (days : ℤ) : ℕ := ((days + 4) % 7).toNat

end CivilDate

end ServerCore.Foundations
