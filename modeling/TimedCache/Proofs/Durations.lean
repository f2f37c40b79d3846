import TimedCache.Time.Duration

/-!
# The order of durations

Durations are ordered by all the time that is in them. A longer one never has fewer whole milliseconds.
Their count as one word does not follow that order: it keeps the low 64 bits, so it is the count itself
up to `2 ^ 64` milliseconds, and starts again at zero from there.
-/

namespace TimedCache.Duration

/-- All of a duration in nanoseconds. -/
def inNanos (d : Duration) : Nat := d.seconds * 1000000000 + d.nanos

/-- A duration is no longer than another one if it has no more nanoseconds. -/
instance : LE Duration := ⟨fun d e => d.inNanos ≤ e.inNanos⟩

instance (d e : Duration) : Decidable (d ≤ e) := inferInstanceAs (Decidable (d.inNanos ≤ e.inNanos))

variable {d e : Duration}

/-- Where the nanoseconds on top are less than a second, the seconds decide, and the nanoseconds among
as many seconds. -/
theorem le_iff_of_lt (hd : d.nanos < 1000000000) (he : e.nanos < 1000000000) :
    d ≤ e ↔ d.seconds < e.seconds ∨ d.seconds = e.seconds ∧ d.nanos ≤ e.nanos := by
  change d.inNanos ≤ e.inNanos ↔ _
  rw [inNanos, inNanos]
  omega

theorem millis_eq (d : Duration) : d.millis = d.inNanos / 1000000 := by
  rw [millis, inNanos]
  omega

/-- A longer duration has no fewer whole milliseconds. -/
theorem millis_mono (h : d ≤ e) : d.millis ≤ e.millis := by
  rw [millis_eq, millis_eq]
  exact Nat.div_le_div_right h

/-- The low 64 bits are no more than the whole count. -/
theorem wordMillis_le (d : Duration) : d.wordMillis ≤ d.millis := Nat.mod_le _ _

/-- The milliseconds that a word can count are counted exactly. -/
theorem wordMillis_of_lt (h : d.millis < Word.bound) : d.wordMillis = d.millis := Word.wrap_of_lt h

/-- Up to `2 ^ 64` milliseconds the word follows the order of the durations. -/
theorem wordMillis_mono (h : d ≤ e) (hlt : e.millis < Word.bound) : d.wordMillis ≤ e.wordMillis :=
  calc d.wordMillis ≤ d.millis := d.wordMillis_le
    _ ≤ e.millis := millis_mono h
    _ = e.wordMillis := (wordMillis_of_lt hlt).symm

end TimedCache.Duration
