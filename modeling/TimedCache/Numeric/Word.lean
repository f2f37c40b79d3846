/-!
# 64-bit words

Timestamps and counters are natural numbers below `2 ^ 64`. Reading a longer number into
a word keeps its low 64 bits, while adding a lifetime to a timestamp stops at the largest
word instead of wrapping around.
-/

namespace TimedCache.Word

/-- The number of different words. -/
def bound : Nat := 18446744073709551616

/-- The largest word. -/
def largest : Nat := bound - 1

/-- The low 64 bits of a number. -/
def wrap (n : Nat) : Nat := n % bound

/-- Addition that stops at the largest word. -/
def addCapped (a b : Nat) : Nat := min (a + b) largest

theorem wrap_lt (n : Nat) : wrap n < bound := Nat.mod_lt _ (by decide)

/-- A number that is a word already is kept as it is. -/
theorem wrap_of_lt {n : Nat} (h : n < bound) : wrap n = n := Nat.mod_eq_of_lt h

theorem addCapped_le_largest (a b : Nat) : addCapped a b ≤ largest := Nat.min_le_right _ _

end TimedCache.Word
