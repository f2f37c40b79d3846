import TimedCache.Invalidation.Channel
import TimedCache.Net.AddressReader
import TimedCache.Numeric.Word
import TimedCache.Text.Blank
import TimedCache.Text.Numeral
import TimedCache.Time.Duration

/-!
# Settings

The settings of a cache and how they are read from environment variables. A variable that
is missing, is not text or cannot be read leaves the default; the invalidation channel is
used only if both its address and its port can be read.
-/

namespace TimedCache

/-- The settings of a cache and its administration server. -/
structure Settings where
  sweepInterval : Duration := .ofSeconds 60
  idleTimeout : Duration := .ofSeconds 3600
  multicast : Option Group := none
  defaultTtl : Nat := 300
  serverPort : Nat := 3000
deriving DecidableEq, Repr

namespace Settings

/-- The bytes of each variable that is set. -/
abbrev Environment := List (String × ByteArray)

/-- The trimmed text of a variable. -/
def textOf? (env : Environment) (name : String) : Option (List Char) :=
  (env.lookup name).bind fun bytes =>
    (String.fromUTF8? bytes).map fun s => Text.trim s.toList

/-- The unsigned number below a bound that a variable holds. -/
def numberOf? (env : Environment) (bound : Nat) (name : String) : Option Nat :=
  (textOf? env name).bind (Text.unsigned? bound)

/-- The address that a variable holds. -/
def addressOf? (env : Environment) (name : String) : Option Address :=
  (textOf? env name).bind fun cs => Address.ofText? (String.ofList cs)

/-- The settings that an environment asks for. -/
def ofEnvironment (env : Environment) : Settings :=
  let defaults : Settings := {}
  let seconds (name : String) := (numberOf? env Word.bound name).map Duration.ofSeconds
  let group := do
    let address ← addressOf? env "CACHE_MULTICAST_ADDR"
    let port ← numberOf? env 65536 "CACHE_MULTICAST_PORT"
    some { address, port : Group }
  { sweepInterval := (seconds "SWEEP_INTERVAL_SECS").getD defaults.sweepInterval
    idleTimeout := (seconds "IDLE_TIMEOUT_SECS").getD defaults.idleTimeout
    multicast := group
    defaultTtl := (numberOf? env Word.bound "DEFAULT_TTL").getD defaults.defaultTtl
    serverPort := (numberOf? env 65536 "SERVER_PORT").getD defaults.serverPort }

end Settings

end TimedCache
