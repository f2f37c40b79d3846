import TimedCache.Numeric.Word

/-!
# Durations

A duration is a number of whole seconds and of nanoseconds on top. Lifetimes and time
limits count milliseconds in one 64-bit word, so a duration is cut to whole milliseconds
and then to the low 64 bits; a pause between two wake-ups is rounded up instead, and never
longer than thirty years.
-/

namespace TimedCache

/-- Whole seconds, and nanoseconds on top of them. -/
structure Duration where
  seconds : Nat
  nanos : Nat
deriving DecidableEq, Repr

namespace Duration

/-- A duration of whole seconds. -/
def ofSeconds (n : Nat) : Duration := ⟨n, 0⟩

/-- The duration is exactly zero. -/
def isZero (d : Duration) : Bool := d.seconds == 0 && d.nanos == 0

/-- The whole milliseconds of a duration. -/
def millis (d : Duration) : Nat := d.seconds * 1000 + d.nanos / 1000000

/-- The milliseconds of a duration as one word: the low 64 bits of the count. -/
def wordMillis (d : Duration) : Nat := Word.wrap d.millis

/-- The duration rounded up to whole milliseconds. -/
def millisUp (d : Duration) : Nat := d.seconds * 1000 + (d.nanos + 999999) / 1000000

/-- The longest pause of a timer in milliseconds: thirty years of 365 days. Every longer one is cut to
it, not only one whose end is too far away to be counted. -/
def longestPause : Nat := 946080000000

/-- The pause that a timer makes of a duration: whole milliseconds, and never more than the
longest pause. -/
def pause (d : Duration) : Nat := min d.millisUp longestPause

/-- A natural number in at least `width` decimal digits. -/
def paddedDigits (width n : Nat) : List Char :=
  let digits := Nat.toDigits 10 n
  List.replicate (width - digits.length) '0' ++ digits

/-- The digits after the point of `part / 10 ^ width`, without trailing zeros. -/
def fraction (width part : Nat) : List Char :=
  if part = 0 then []
  else '.' :: ((paddedDigits width part).reverse.dropWhile (· == '0')).reverse

/-- The text of a duration: its largest unit among `s`, `ms`, `µs` and `ns`, with as many
decimals as needed. -/
def text (d : Duration) : String :=
  let decimal (whole width part : Nat) (unit : String) : String :=
    String.ofList (Nat.toDigits 10 whole ++ fraction width part) ++ unit
  if 0 < d.seconds then decimal d.seconds 9 d.nanos "s"
  else if 1000000 ≤ d.nanos then decimal (d.nanos / 1000000) 6 (d.nanos % 1000000) "ms"
  else if 1000 ≤ d.nanos then decimal (d.nanos / 1000) 3 (d.nanos % 1000) "µs"
  else decimal d.nanos 0 0 "ns"

/-- Only a duration of zero makes no pause at all. -/
theorem pause_eq_zero_iff (d : Duration) : d.pause = 0 ↔ d.isZero = true := by
  simp only [pause, millisUp, longestPause, isZero, Bool.and_eq_true, beq_iff_eq]
  omega

theorem pause_le (d : Duration) : d.pause ≤ longestPause := Nat.min_le_right _ _

/-- A timer that is asked for a second more than thirty years fires after thirty years. -/
example : (Duration.ofSeconds 946080001).pause = 946080000000 := by decide

/-- The pause of a whole number of milliseconds is no longer than these. -/
theorem pause_le_millis {d : Duration} (hwhole : d.nanos % 1000000 = 0) : d.pause ≤ d.millis := by
  have hexact : d.millisUp = d.millis := by
    rw [millisUp, millis]
    omega
  exact hexact ▸ Nat.min_le_left _ _

/-- A millisecond or more makes a pause. -/
theorem pause_pos {d : Duration} (hpositive : 0 < d.millis) : 0 < d.pause := by
  have hup : d.millis ≤ d.millisUp := by
    rw [millisUp, millis]
    omega
  exact Nat.lt_min.mpr ⟨Nat.lt_of_lt_of_le hpositive hup, by decide⟩

theorem wordMillis_lt (d : Duration) : d.wordMillis < Word.bound := Word.wrap_lt _

end Duration

end TimedCache
