import TimedCache.Numeric.Word

/-!
# Clock readings

The wall clock counts milliseconds from the start of 1970 and may stand before it. The
cache reads it as one word, and every instant before 1970 reads as zero.
-/

namespace TimedCache

/-- A wall clock position in milliseconds since the start of 1970. -/
abbrev WallTime := Int

/-- A timestamp of the cache in milliseconds: what it reads off the wall clock. -/
abbrev Timestamp := Nat

/-- The timestamp that the wall clock shows. -/
def WallTime.stamp (t : WallTime) : Timestamp := Word.wrap t.toNat

theorem WallTime.stamp_of_nonpos {t : WallTime} (h : t ≤ 0) : WallTime.stamp t = 0 := by
  simp [WallTime.stamp, Int.toNat_of_nonpos h, Word.wrap]

/-- From 1970 on, and while a word can count it, the clock is read exactly. -/
theorem WallTime.stamp_ofNat {n : Nat} (h : n < Word.bound) : WallTime.stamp (n : Int) = n := by
  simp [WallTime.stamp, Word.wrap_of_lt h]

/-- After some milliseconds the clock shows that many more at most. -/
theorem WallTime.stamp_add_le (t : Int) (millis : Nat) :
    WallTime.stamp (t + millis) ≤ WallTime.stamp t + millis := by
  rw [stamp, stamp, Word.wrap, Word.wrap]
  by_cases ht : 0 ≤ t
  · have hsum : (t + millis).toNat = t.toNat + millis := by omega
    rw [hsum, Nat.add_mod]
    calc (t.toNat % Word.bound + millis % Word.bound) % Word.bound
        ≤ t.toNat % Word.bound + millis % Word.bound := Nat.mod_le _ _
      _ ≤ t.toNat % Word.bound + millis := Nat.add_le_add_left (Nat.mod_le _ _) _
  · have hsmall : (t + millis).toNat ≤ millis := by omega
    exact Nat.le_trans (Nat.mod_le _ _) (Nat.le_trans hsmall (Nat.le_add_left _ _))

end TimedCache
