import TimedCache.Cache.Notice
import TimedCache.Settings
import TimedCache.Store.Operations

/-!
# A cache and its sweeper

A cache is a store together with the task that looks after it. The sweeper is started by
the first use, wakes at fixed pauses, sweeps, keeps a listener for remote invalidations
alive, and retires after the store has been idle for long enough; a later use starts a new
one. The wall clock and the timer that wakes the sweeper are different clocks: the wall
clock may be set, the timer only runs.

Waking is modelled as instantaneous and in the order of time. A sweeper whose pause is zero
is due at every instant, from that of its start on; it wakes once in each millisecond that
passes and once whenever the cache settles after an operation. A listener is a task of its
own, with a number; the sweeper remembers the one it started last.
-/

namespace TimedCache

/-- A running sweeper. -/
structure Sweeper where
  /-- The timer position at its start. -/
  startedAt : Nat
  /-- The timer position of its next wake-up. -/
  wakesAt : Nat
  passes : Nat := 0
  /-- A listener is wanted, because a group is configured. -/
  wanted : Bool := true
  /-- The listener that was started last. -/
  listener : Option Nat := none
  /-- What the sweeper has made known about its listener. -/
  listening : Bool := false
  /-- A lack of permission to listen has been reported. -/
  reportedDenied : Bool := false
deriving DecidableEq, Repr

/-- A store with its sweeper, its clocks and its host. -/
structure Cache (V : Type) where
  settings : Settings := {}
  store : Store V := {}
  /-- Tasks can be started. -/
  hosted : Bool := false
  /-- The cache was shut down for good. -/
  closed : Bool := false
  sweeper : Option Sweeper := none
  wall : WallTime := 0
  timer : Nat := 0
  host : Host := { link := .connected }
  /-- The listeners of sweepers whose tasks are running. -/
  listeners : List Nat := []
  /-- How often a sweeper tried to acquire a listener from the network. -/
  attempts : Nat := 0
  notices : List Notice := []

variable {V : Type}

namespace Cache

/-- A new cache at the given time. -/
def createdAt (settings : Settings) (hosted : Bool) (host : Host) (wall : WallTime) : Cache V :=
  { settings, hosted, host, wall, store := Store.createdAt wall }

/-- Reports something. -/
def note (c : Cache V) (n : Notice) : Cache V := { c with notices := c.notices ++ [n] }

/-- A sweeper is running. -/
def sweeperRunning (c : Cache V) : Bool := c.sweeper.isSome

/-- A sweeper is running and has made known that it listens. -/
def listenerRunning (c : Cache V) : Bool := c.sweeper.any Sweeper.listening

/-- The listener that a sweeper started last is running. -/
def isListenerAlive (c : Cache V) (sw : Sweeper) : Bool := sw.listener.any c.listeners.contains

/-- Ends the listener of a sweeper. -/
def stopListener (c : Cache V) (sw : Sweeper) : Cache V :=
  { c with listeners := c.listeners.filter fun n => sw.listener != some n }

/-- Starts a new listener, whose number is that of the attempt, in place of the one before. -/
def startListener (c : Cache V) (sw : Sweeper) : Cache V :=
  let c := c.stopListener sw
  { c with
    listeners := c.listeners ++ [c.attempts]
    sweeper := some { sw with listener := some c.attempts, listening := true } }

/-- Tries to acquire a listener for the sweeper, if a group is configured. -/
def acquireListener (c : Cache V) (sw : Sweeper) : Cache V :=
  match c.settings.multicast with
  | none => { c with sweeper := some { sw with wanted := false } }
  | some group =>
    let c := { c with attempts := c.attempts + 1 }
    let sw := { sw with wanted := true }
    match Listener.bind c.host group with
    | .ok _ => c.startListener sw
    | .error (.io failure) =>
      if failure.isPermissionDenied then
        if sw.reportedDenied then { c with sweeper := some sw }
        else { c with sweeper := some { sw with reportedDenied := true } }.note
          (.noListener (.io failure))
      else { c with sweeper := some sw }.note (.noListener (.io failure))
    | .error fault => { c with sweeper := some sw }.note (.noListener fault)

/-- Starts a sweeper unless one is running, the cache is closed or cannot run tasks. -/
def ensureSweeper (c : Cache V) : Cache V :=
  if c.closed || !c.hosted || c.sweeperRunning then c
  else
    (c.note (.started c.settings.sweepInterval)).acquireListener
      { startedAt := c.timer, wakesAt := c.timer + c.settings.sweepInterval.pause }

/-- The sweeper's end: it empties the store, stops its listener and reports. A hook that
panics on the way takes the sweeper and its listener with it before there is a report. -/
def retire (c : Cache V) (sw : Sweeper) : Cache V :=
  let ran := c.store.drain c.wall
  let c := { c.stopListener sw with store := ran.state, sweeper := none }
  match ran.result with
  | .error _ => c
  | .ok drained =>
    c.note (.retired sw.passes (c.store.useAge c.wall) drained c.store.report)

/-- One sweep of the store; a hook that panics costs the sweeper no more than this pass. -/
def pass (c : Cache V) (sw : Sweeper) : Cache V :=
  let ran := c.store.sweep c.wall
  let c := { c with
    store := ran.state
    sweeper := some { sw with passes := Word.wrap (sw.passes + 1) } }
  match ran.result with
  | .error _ => c.note .passPanicked
  | .ok 0 => c
  | .ok count => c.note (.removed count)

/-- Replaces a listener that is wanted but not alive. -/
def renewListener (c : Cache V) (sw : Sweeper) : Cache V :=
  if sw.wanted && !c.isListenerAlive sw then c.acquireListener { sw with listening := false }
  else { c with sweeper := some sw }

/-- What the sweeper does when it wakes. -/
def wake (c : Cache V) : Cache V :=
  match c.sweeper with
  | none => c
  | some sw =>
    let age := c.store.useAge c.wall
    if c.settings.idleTimeout.wordMillis ≤ age then (c.note (.idle age)).retire sw
    else
      let sw := { sw with wakesAt := sw.wakesAt + c.settings.sweepInterval.pause }
      let c := c.renewListener sw
      c.pass (c.sweeper.getD sw)

/-- Lets both clocks run up to a timer position. -/
def runTo (c : Cache V) (timer : Nat) : Cache V :=
  { c with timer, wall := c.wall + ((timer : Int) - c.timer) }

/-- Runs the wake-up that is due at the present timer position, if there is one. -/
def settle (c : Cache V) : Cache V :=
  match c.sweeper with
  | none => c
  | some sw => if sw.wakesAt ≤ c.timer then c.wake else c

/-- The timer position of the next wake-up, which lies ahead. -/
def nextWake (c : Cache V) (sw : Sweeper) : Nat := max sw.wakesAt (c.timer + 1)

/-- Runs all wake-ups that are due up to a timer position, at most as many as `fuel`. -/
def wakeUntil (target : Nat) : Nat → Cache V → Cache V
  | 0, c => c
  | fuel + 1, c =>
    match c.sweeper with
    | none => c
    | some sw =>
      let next := c.nextWake sw
      if next ≤ target then wakeUntil target fuel (c.runTo next).wake else c

/-- Lets time pass. Wake-ups are at least a millisecond apart, so no more of them are due
than milliseconds pass. -/
def advance (c : Cache V) (millis : Nat) : Cache V :=
  (wakeUntil (c.timer + millis) millis c).runTo (c.timer + millis)

/-- Sets the wall clock forward or back. -/
def skew (c : Cache V) (millis : Int) : Cache V := { c with wall := c.wall + millis }

/-- The result of an operation on the store. -/
abbrev Op (V α : Type) := Ran String (Cache V) α

/-- An operation on the store alone. -/
def onStore {α : Type} (c : Cache V) (f : Store V → WallTime → Store.Op V α) : Op V α :=
  let ran := f c.store c.wall
  ⟨{ c with store := ran.state }, ran.result⟩

/-- An operation that uses the store, and starts a sweeper if it returns. -/
def touching {α : Type} (c : Cache V) (f : Store V → WallTime → Store.Op V α) : Op V α :=
  (c.onStore f).andThen fun c a => .done c.ensureSweeper a

/-- Stores an entry. -/
def put (c : Cache V) (key : String) (e : Entry V) : Op V Unit :=
  c.touching fun s t => s.put t key e

/-- Stores an entry, changed as asked for, that holds a new value of its own. -/
def putValue (c : Cache V) (key entryKey : String) (value : V) (ttl : Duration)
    (revise : TimedEntry V → TimedEntry V) : Op V Unit :=
  let (owners, cell) := c.store.owners.allocate value
  let c := { c with store := { c.store with owners } }
  c.put key (.timed (revise (.create c.wall.stamp entryKey (.strong cell) ttl)))

/-- Looks a key up. -/
def get (c : Cache V) (key : String) : Op V (Option (Cell V)) :=
  c.touching fun s t => s.get t key

/-- Removes an entry by key. -/
def uncache (c : Cache V) (key : String) : Op V Unit :=
  c.touching fun s t => s.uncache t key

/-- Removes the entries whose keys start with a pattern. -/
def uncacheLike (c : Cache V) (pattern : String) : Op V Nat :=
  c.onStore fun s t => s.uncacheLike t pattern

/-- Removes the expired entries. -/
def sweep (c : Cache V) : Op V Nat := c.onStore fun s t => s.sweep t

/-- Removes all entries. -/
def drain (c : Cache V) : Op V Nat := c.onStore fun s t => s.drain t

/-- Closes the cache: the sweeper retires, no other is started, and the store is emptied. -/
def shutdown (c : Cache V) : Op V Unit :=
  let c := { c with closed := true }
  let c := match c.sweeper with
    | none => c
    | some sw => (c.note .shutdownRequested).retire sw
  c.drain.andThen fun c _ => .done c ()

/-- What became of a datagram. -/
inductive Delivery where
  | applied
  | ignored
  | dropped
  | panicked
deriving DecidableEq, Repr

/-- The word for what became of a datagram. -/
def Delivery.text : Delivery → String
  | .applied => "applied"
  | .ignored => "ignored"
  | .dropped => "dropped"
  | .panicked => "panicked"

/-- Applies a received datagram to the store. -/
def receive (c : Cache V) (payload : List UInt8) : Cache V × Delivery :=
  match Datagram.decode (payload.take Datagram.capacity) with
  | .error _ => (c, .dropped)
  | .ok none => (c, .ignored)
  | .ok (some pattern) =>
    let ran := c.uncacheLike pattern
    (ran.state, if ran.returned then .applied else .panicked)

/-- Delivers a datagram to one listener of a sweeper, which a panicking hook kills. -/
def deliverTo (c : Cache V) (payload : List UInt8) (listener : Nat) : Cache V × Delivery :=
  let (c, delivery) := c.receive payload
  if delivery = .panicked then
    ({ c with listeners := c.listeners.filter (· != listener) }, delivery)
  else (c, delivery)

/-- Delivers a datagram to the listeners with the given numbers, one after the other. -/
def deliverToEach (payload : List UInt8) : List Nat → Cache V → Cache V × List Delivery
  | [], c => (c, [])
  | listener :: rest, c =>
    let (c, delivery) := c.deliverTo payload listener
    let (c, others) := deliverToEach payload rest c
    (c, delivery :: others)

/-- Delivers a datagram to every listener in the group. -/
def receiveFromGroup (c : Cache V) (payload : List UInt8) : Cache V × List Delivery :=
  deliverToEach payload c.listeners c

end Cache

end TimedCache
