import TimedCache.Fault
import TimedCache.Stats
import TimedCache.Time.Duration

/-!
# Notices of the sweeper

What a sweeper reports about its work: a level, a text and, for the closing summary, named
fields.
-/

namespace TimedCache

/-- How serious a notice is. -/
inductive Level where
  | info
  | warn
  | error
deriving DecidableEq, Repr

/-- The word for a level. -/
def Level.text : Level → String
  | .info => "INFO"
  | .warn => "WARN"
  | .error => "ERROR"

/-- Something a sweeper reports. -/
inductive Notice where
  | started (interval : Duration)
  | shutdownRequested
  | idle (useAge : Nat)
  | removed (count : Nat)
  | passPanicked
  | noListener (fault : Fault)
  | retired (passes useAge drained : Nat) (stats : Stats)
deriving DecidableEq, Repr

namespace Notice

/-- A number in decimal digits. -/
def number (n : Nat) : String := String.ofList (Nat.toDigits 10 n)

/-- The level of a notice. -/
def level : Notice → Level
  | .passPanicked => .warn
  | .noListener _ => .error
  | _ => .info

/-- A failure to listen is told by its cause if permission was lacking, else in full. -/
def faultText : Fault → String
  | .io failure => if failure.isPermissionDenied then failure.text else (Fault.io failure).message
  | fault => fault.message

/-- The text of a notice. -/
def text : Notice → String
  | .started interval => "Starting cache sweeper with interval of " ++ interval.text
  | .shutdownRequested => "Cache sweeper shutdown requested"
  | .idle useAge => "Cache idle for " ++ number useAge ++ " ms, retiring sweeper"
  | .removed count => "Cache sweep: removed " ++ number count ++ " expired entries"
  | .passPanicked => "Panic in cache sweep pass, continuing"
  | .noListener fault => "Couldn't create multicast listener: " ++ faultText fault
  | .retired .. => "Cache sweeper shut down"

/-- The named fields of a notice. -/
def fields : Notice → List (String × Nat)
  | .retired passes useAge drained stats =>
    [("passes", passes), ("use_age_ms", useAge), ("drained", drained), ("puts", stats.puts),
      ("watermark", stats.watermark), ("hits", stats.hits), ("misses", stats.misses)]
  | _ => []

end Notice

end TimedCache
