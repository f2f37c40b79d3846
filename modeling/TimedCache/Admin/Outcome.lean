import TimedCache.Json.Writer
import TimedCache.Net.AddressPrinter
import TimedCache.Stats
import TimedCache.Time.Calendar

/-!
# Outcomes

What clients are told when a request succeeded, and the JSON records that say it. The
report on a cache is kept apart, because it holds a hit rate, which is given by its bits.
-/

namespace TimedCache.Admin

/-- A successful outcome. -/
inductive Outcome where
  | value (key value : String)
  | stored (key : String)
  | uncached (key : String)
  | uncachedLike (pattern : String) (count : Nat)
  | sent (pattern : String) (target : Endpoint)
  | healthy (now : WallTime)
deriving DecidableEq, Repr

/-- The record of a message about a key. -/
def Outcome.aboutKey (key outcome : String) : Json :=
  .record [("message", .string ("Key '" ++ key ++ "' " ++ outcome)), ("key", .string key)]

/-- The record that tells an outcome. -/
def Outcome.body : Outcome → Json
  | .value key held => .record [("key", .string key), ("value", .string held)]
  | .stored key => aboutKey key "set successfully"
  | .uncached key => aboutKey key "uncached"
  | .uncachedLike pattern count => .record [("prefix", .string pattern), ("removed", .number count)]
  | .sent pattern target => .record [("prefix", .string pattern), ("target", .string target.text)]
  | .healthy now =>
    .record [("status", .string "healthy"), ("timestamp", .string (Calendar.text now))]

/-- The state of a cache as it is reported to clients. -/
structure Report where
  stats : Stats
  useAge : Nat
  sweeperRunning : Bool
deriving DecidableEq, Repr

/-- A value in a report; a ratio is given by its bits. -/
inductive Report.Value where
  | number (n : Nat)
  | ratio (bits : Nat)
  | flag (b : Bool)
deriving DecidableEq, Repr

/-- The members of a report, in their order. -/
def Report.members (r : Report) : List (String × Report.Value) :=
  [("puts", .number r.stats.puts), ("hits", .number r.stats.hits),
    ("misses", .number r.stats.misses), ("expirations", .number r.stats.expirations),
    ("watermark", .number r.stats.watermark), ("total_entries", .number r.stats.totalEntries),
    ("hit_rate", .ratio r.stats.hitRate), ("use_age_ms", .number r.useAge),
    ("sweeper_running", .flag r.sweeperRunning)]

end TimedCache.Admin
