import TimedCache.Numeric.Word
import TimedCache.Numeric.Binary64
import TimedCache.Time.Clock

/-!
# Statistics

Counters of a store: puts, hits, misses and expirations as wrapping words, the present and
the largest number of entries seen, and the time of the latest touch.
-/

namespace TimedCache

/-- The counters of a store. -/
structure Stats where
  puts : Nat := 0
  hits : Nat := 0
  misses : Nat := 0
  expirations : Nat := 0
  watermark : Nat := 0
  totalEntries : Nat := 0
  lastTouch : Timestamp := 0
deriving DecidableEq, Repr

namespace Stats

/-- Fresh counters, touched at the given time. -/
def startedAt (now : Timestamp) : Stats := { lastTouch := now }

def recordPut (s : Stats) : Stats := { s with puts := Word.wrap (s.puts + 1) }

def recordHit (s : Stats) : Stats := { s with hits := Word.wrap (s.hits + 1) }

def recordMiss (s : Stats) : Stats := { s with misses := Word.wrap (s.misses + 1) }

def recordExpiration (s : Stats) : Stats := { s with expirations := Word.wrap (s.expirations + 1) }

/-- Notes the number of entries, and raises the watermark if there never were as many. -/
def observeSize (count : Nat) (s : Stats) : Stats :=
  { s with totalEntries := count, watermark := max s.watermark count }

/-- Notes a use of the store. -/
def touch (now : Timestamp) (s : Stats) : Stats := { s with lastTouch := now }

/-- Milliseconds since the latest touch, zero if the clock stands before it. -/
def useAge (s : Stats) (now : Timestamp) : Nat := now - s.lastTouch

/-- The bits of the share of hits among all look-ups, zero if there were none. -/
def hitRate (s : Stats) : Nat := Binary64.ratioBits s.hits (Word.wrap (s.hits + s.misses))

theorem useAge_touch (s : Stats) (now : Timestamp) : (s.touch now).useAge now = 0 := Nat.sub_self _

end Stats

end TimedCache
