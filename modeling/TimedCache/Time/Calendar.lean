import TimedCache.Time.Duration
import TimedCache.Time.Clock

/-!
# Calendar text of an instant

The proleptic Gregorian date and the time of day of a wall clock position, written in the
internet date format with the offset of universal time. Milliseconds are written only
when they are not zero, and years outside `0000` to `9999` carry a sign.
-/

namespace TimedCache.Calendar

/-- A day of the proleptic Gregorian calendar. -/
structure Date where
  year : Int
  month : Nat
  day : Nat
deriving DecidableEq, Repr

/-- The date that lies `days` after the first of January 1970.

Counting starts at the first of March of year zero, so that a leap day is the last day of
its year; an era is the 146097 days of 400 years. -/
def dateOfDay (days : Int) : Date :=
  let shifted := days + 719468
  let era := shifted.fdiv 146097
  let dayOfEra := (shifted.fmod 146097).toNat
  let yearOfEra := (dayOfEra - dayOfEra / 1460 + dayOfEra / 36524 - dayOfEra / 146096) / 365
  let dayOfYear := dayOfEra - (365 * yearOfEra + yearOfEra / 4 - yearOfEra / 100)
  let marchMonth := (5 * dayOfYear + 2) / 153
  let month := if marchMonth < 10 then marchMonth + 3 else marchMonth - 9
  { year := era * 400 + yearOfEra + (if month ≤ 2 then 1 else 0)
    month
    day := dayOfYear - (153 * marchMonth + 2) / 5 + 1 }

/-- Decimal text padded with zeros. -/
def padded (width n : Nat) : String := String.ofList (Duration.paddedDigits width n)

/-- Years of four digits are written plainly, all others with a sign. -/
def yearText (y : Int) : String :=
  if 0 ≤ y ∧ y ≤ 9999 then padded 4 y.toNat
  else (if y < 0 then "-" else "+") ++ padded 4 y.natAbs

/-- The internet date text of an instant in universal time. -/
def text (t : WallTime) : String :=
  let date := dateOfDay (t.fdiv 86400000)
  let ofDay := (t.fmod 86400000).toNat
  let seconds := ofDay / 1000
  let rest := ofDay % 1000
  yearText date.year ++ "-" ++ padded 2 date.month ++ "-" ++ padded 2 date.day ++ "T"
    ++ padded 2 (seconds / 3600) ++ ":" ++ padded 2 (seconds / 60 % 60) ++ ":"
    ++ padded 2 (seconds % 60)
    ++ (if rest = 0 then "" else "." ++ padded 3 rest) ++ "+00:00"

end TimedCache.Calendar
