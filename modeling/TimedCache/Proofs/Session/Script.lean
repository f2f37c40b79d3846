import TimedCache.Cache.Command
import TimedCache.Proofs.Store.History

/-!
# The script of a session

What the commands of a session and the wake-ups of its sweeper do to the store, as the actions
they amount to. Following the script of a run leads to the store that the run leaves, so a
statement about scripts is one about everything an application and a sweeper can do.
-/

namespace TimedCache

variable {V : Type}

/-- What a received datagram does to a store. -/
def Action.ofDatagram (t : WallTime) (payload : List UInt8) : List (Action V) :=
  match Datagram.decode (payload.take Datagram.capacity) with
  | .ok (some pattern) => [.uncacheLike t pattern]
  | _ => []

namespace Cache

/-- What the sweeper does to the store when it wakes: it empties the store if that was idle for
long enough, and sweeps it otherwise. -/
def wakeActions (c : Cache V) : List (Action V) :=
  match c.sweeper with
  | none => []
  | some _ =>
    if c.settings.idleTimeout.wordMillis ≤ c.store.useAge c.wall then [.drain c.wall]
    else [.sweep c.wall]

/-- What happens to the store while the cache settles. -/
def settleActions (c : Cache V) : List (Action V) :=
  match c.sweeper with
  | none => []
  | some sw => if sw.wakesAt ≤ c.timer then c.wakeActions else []

/-- What the wake-ups up to a timer position do to the store. -/
def wakeUntilActions (target : Nat) : Nat → Cache V → List (Action V)
  | 0, _ => []
  | fuel + 1, c =>
    match c.sweeper with
    | none => []
    | some sw =>
      let next := c.nextWake sw
      if next ≤ target then
        (c.runTo next).wakeActions ++ wakeUntilActions target fuel (c.runTo next).wake
      else []

/-- What happens to the store while time passes. -/
def advanceActions (c : Cache V) (millis : Nat) : List (Action V) :=
  wakeUntilActions (c.timer + millis) millis c

/-- What closing the cache does to the store: a sweeper empties it first, if there is one. -/
def shutdownActions (c : Cache V) : List (Action V) :=
  match c.sweeper with
  | none => [.drain c.wall]
  | some _ => [.drain c.wall, .drain c.wall]

end Cache

namespace Session

/-- A new session with a new cache. -/
def opened (settings : Settings) (hosted : Bool) (host : Host) (wall : WallTime) : Session V :=
  { cache := Cache.createdAt settings hosted host wall }

/-- Storing an entry that holds a new value of its own, as actions. -/
def putValueActions (s : Session V) (key entryKey : String) (value : V) (ttl : Duration)
    (revise : TimedEntry V → TimedEntry V) : List (Action V) :=
  let (owners, cell) := s.owners.allocate value
  [.refer owners, .put s.cache.wall key (.timed (revise (.create s.now entryKey (.strong cell) ttl)))]

/-- Storing an entry that holds its value as asked for, as actions. -/
def putHeldActions (s : Session V) (key : String) (holding : Holding V) (ttl : Duration) :
    List (Action V) :=
  match holding.make? s.owners with
  | none => []
  | some (owners, h) => [.refer owners, .put s.cache.wall key (.timed (.create s.now key h ttl))]

/-- Storing a new custom entry, as actions. -/
def putCustomActions (s : Session V) (key entryKey : String) (id : Name) (expired : Bool)
    (value : Option V) (hooks : Bool) : List (Action V) :=
  let (owners, e) := s.owners.makeCustom entryKey id expired value hooks
  [.refer owners, .put s.cache.wall key (.custom e)]

/-- Changing what a custom entry answers, as actions. -/
def reviseCustomActions (s : Session V) (id : Name) (expired : Option Bool)
    (value : Option (Option V)) : List (Action V) :=
  match s.owners.custom? id with
  | none => []
  | some e =>
    let e := { e with expired := expired.getD e.expired }
    match value with
    | none => [.revise e]
    | some v =>
      let (owners, cell) := s.owners.allocate? v
      [.refer owners, .revise { e with value := cell }]

/-- Handing a datagram to the application's own listener, as actions. -/
def receiveActions (s : Session V) (payload : List UInt8) : List (Action V) :=
  if s.listener = some true then Action.ofDatagram s.cache.wall payload else []

/-- Sending a datagram on the host itself, as actions. -/
def overLoopbackActions (s : Session V) (payload : List UInt8) (deliver : List (Action V)) :
    List (Action V) :=
  match s.cache.host.transmit loopback payload.length with
  | .error _ => []
  | .ok () => deliver

/-- Sending a prefix to the application's own listener, as actions. -/
def sendActions (s : Session V) (pattern : String) : List (Action V) :=
  match (Sender.mk loopback).send s.cache.host pattern with
  | .error _ => []
  | .ok payload => s.receiveActions payload

/-- What a command does to the store by itself. A command that deals with references outside the
store, or that may keep a value it has read, leaves the references it leads to. -/
def performActions (s : Session V) : Command V → List (Action V)
  | .store key value ttl listener => s.putValueActions key key value ttl fun e => { e with listener }
  | .storeHeld key holding ttl => s.putHeldActions key holding ttl
  | .storeEntry key entryKey value ttl expires listener =>
    s.putValueActions key entryKey value ttl fun e =>
      { e with listener, expiresAt := expires.getD e.expiresAt }
  | .storeCustom key entryKey id expired value hooks =>
    s.putCustomActions key entryKey id expired value hooks
  | .reviseCustom id expired value => s.reviseCustomActions id expired value
  | .get key keep => [.get s.cache.wall key, .refer (s.perform (.get key keep)).1.owners]
  | .uncache key => [.uncache s.cache.wall key]
  | .uncacheLike pattern => [.uncacheLike s.cache.wall pattern]
  | .sweep => [.sweep s.cache.wall]
  | .drain => [.drain s.cache.wall]
  | .setDelegate name => [.delegateTo name]
  | .arm alarm => [.arm alarm]
  | .advance millis => s.cache.advanceActions millis
  | .shutdown => s.cache.shutdownActions
  | .datagram payload => s.overLoopbackActions payload (s.receiveActions payload)
  | .groupDatagram payload =>
    s.overLoopbackActions payload
      (s.cache.listeners.flatMap fun _ => Action.ofDatagram s.cache.wall payload)
  | .send pattern => s.sendActions pattern
  | .own name value => [.refer (s.perform (.own name value)).1.owners]
  | .soften handle value => [.refer (s.perform (.soften handle value)).1.owners]
  | .softenOwned handle owner => [.refer (s.perform (.softenOwned handle owner)).1.owners]
  | .share source target => [.refer (s.perform (.share source target)).1.owners]
  | .refer index holding => [.refer (s.perform (.refer index holding)).1.owners]
  | .copy source target => [.refer (s.perform (.copy source target)).1.owners]
  | .keepValue source owner => [.refer (s.perform (.keepValue source owner)).1.owners]
  | .drop label => [.refer (s.perform (.drop label)).1.owners]
  | .reclaim handle => [.refer (s.perform (.reclaim handle)).1.owners]
  | .readSoft _ | .size | .stats | .useAge | .skew _ | .ensureSweeper | .running | .settings
  | .setHost _ | .listen | .unlisten | .listenerAlive => []

/-- What a command does to the store, and the wake-up while the cache settles after it. -/
def actions (s : Session V) (c : Command V) : List (Action V) :=
  s.performActions c ++ (s.perform c).1.cache.settleActions

/-- What commands do to the store, one after the other. -/
def script (s : Session V) : List (Command V) → List (Action V)
  | [] => []
  | c :: rest => s.actions c ++ (s.step c).1.script rest

/-- What happens to the store in the course of some commands. -/
def history (s : Session V) (commands : List (Command V)) : List (Occasion V) :=
  s.cache.store.history (s.script commands)

end Session

namespace Cache

variable (c : Cache V)

/-- An attempt at a listener changes the sweeper, the listeners and what is reported. -/
theorem acquireListener_eq (sw : Sweeper) : ∃ sweeper listeners attempts notices,
    c.acquireListener sw = { c with sweeper, listeners, attempts, notices } := by
  rw [acquireListener]
  cases c.settings.multicast with
  | none => exact ⟨_, _, _, _, rfl⟩
  | some group =>
    dsimp only
    cases Listener.bind c.host group with
    | ok address => exact ⟨_, _, _, _, rfl⟩
    | error fault =>
      cases fault with
      | io failure =>
        dsimp only
        split
        · split <;> exact ⟨_, _, _, _, rfl⟩
        · exact ⟨_, _, _, _, rfl⟩
      | _ => exact ⟨_, _, _, _, rfl⟩

/-- Starting a sweeper changes the sweeper, the listeners and what is reported. -/
theorem ensureSweeper_eq : ∃ sweeper listeners attempts notices,
    c.ensureSweeper = { c with sweeper, listeners, attempts, notices } := by
  rw [ensureSweeper]
  split
  · exact ⟨_, _, _, _, rfl⟩
  · exact acquireListener_eq _ _

/-- Renewing a listener changes the sweeper, the listeners and what is reported. -/
theorem renewListener_eq (sw : Sweeper) : ∃ sweeper listeners attempts notices,
    c.renewListener sw = { c with sweeper, listeners, attempts, notices } := by
  rw [renewListener]
  split
  · exact acquireListener_eq _ _
  · exact ⟨_, _, _, _, rfl⟩

@[simp] theorem ensureSweeper_store : c.ensureSweeper.store = c.store := by
  obtain ⟨_, _, _, _, h⟩ := c.ensureSweeper_eq
  rw [h]

@[simp] theorem retire_store (sw : Sweeper) : (c.retire sw).store = (c.store.drain c.wall).state := by
  rw [retire]
  split <;> rfl

@[simp] theorem retire_wall (sw : Sweeper) : (c.retire sw).wall = c.wall := by
  rw [retire]
  split <;> rfl

@[simp] theorem pass_store (sw : Sweeper) : (c.pass sw).store = (c.store.sweep c.wall).state := by
  rw [pass]
  split <;> rfl

/-- A wake-up does to the store what its actions do. -/
theorem wake_store : c.wake.store = c.store.follow c.wakeActions := by
  rw [wake, wakeActions]
  cases c.sweeper with
  | none => rfl
  | some sw =>
    dsimp only
    split
    · exact retire_store _ _
    · obtain ⟨_, _, _, _, h⟩ :=
        c.renewListener_eq { sw with wakesAt := sw.wakesAt + c.settings.sweepInterval.pause }
      rw [pass_store, h]
      rfl

/-- While a cache settles its store goes through the actions of that. -/
theorem settle_store : c.settle.store = c.store.follow c.settleActions := by
  rw [settle, settleActions]
  cases c.sweeper with
  | none => rfl
  | some sw =>
    dsimp only
    split
    · exact wake_store c
    · rfl

/-- The wake-ups up to a timer position do to the store what their actions do. -/
theorem wakeUntil_store (target fuel : Nat) :
    (wakeUntil target fuel c).store = c.store.follow (wakeUntilActions target fuel c) := by
  induction fuel generalizing c with
  | zero => rfl
  | succ fuel ih =>
    rw [wakeUntil, wakeUntilActions]
    cases c.sweeper with
    | none => rfl
    | some sw =>
      dsimp only
      split
      · rw [ih, wake_store, Store.follow_append]
        rfl
      · rfl

/-- While time passes the store goes through the actions of the wake-ups. -/
theorem advance_store (millis : Nat) :
    (c.advance millis).store = c.store.follow (c.advanceActions millis) :=
  wakeUntil_store c _ millis

/-- An operation that starts a sweeper does no more to the store than the operation. -/
theorem touching_store {α : Type} (f : Store V → WallTime → Store.Op V α) :
    (c.touching f).state.store = (f c.store c.wall).state := by
  rw [touching, onStore, Ran.andThen]
  cases (f c.store c.wall).result with
  | ok a => exact ensureSweeper_store _
  | error p => rfl

/-- An operation that starts a sweeper returns what the operation returns. -/
theorem touching_result {α : Type} (f : Store V → WallTime → Store.Op V α) :
    (c.touching f).result = (f c.store c.wall).result := by
  rw [touching, onStore, Ran.andThen]
  cases h : (f c.store c.wall).result <;> rfl

/-- Closing the cache retires the sweeper, if there is one, and empties the store. -/
theorem shutdown_state : c.shutdown.state = (match c.sweeper with
    | none => { c with closed := true }
    | some sw => ({ c with closed := true }.note .shutdownRequested).retire sw).drain.state := by
  rw [shutdown, Ran.andThen]
  split <;> rfl

/-- Closing the cache does to the store what its actions do. -/
theorem shutdown_store : c.shutdown.state.store = c.store.follow c.shutdownActions := by
  rw [shutdown_state, shutdownActions]
  cases c.sweeper with
  | none => rfl
  | some sw =>
    change ((Cache.retire _ sw).store.drain (Cache.retire _ sw).wall).state = _
    rw [retire_store, retire_wall]
    rfl

/-- A datagram does to the store what its actions do. -/
theorem receive_store (payload : List UInt8) :
    (c.receive payload).1.store = c.store.follow (Action.ofDatagram c.wall payload) := by
  rw [receive, Action.ofDatagram]
  cases Datagram.decode (payload.take Datagram.capacity) with
  | error fault => rfl
  | ok pattern => cases pattern <;> rfl

/-- A datagram leaves the clock as it is. -/
theorem receive_wall (payload : List UInt8) : (c.receive payload).1.wall = c.wall := by
  rw [receive]
  split <;> rfl

/-- Whoever receives a datagram, it does the same to the store. -/
theorem deliverTo_store (payload : List UInt8) (listener : Nat) :
    (c.deliverTo payload listener).1.store = c.store.follow (Action.ofDatagram c.wall payload)
      ∧ (c.deliverTo payload listener).1.wall = c.wall := by
  rw [deliverTo, ← receive_store, ← receive_wall c payload]
  dsimp only
  split <;> exact ⟨rfl, rfl⟩

/-- A datagram to several listeners does its work once for each. -/
theorem deliverToEach_store (payload : List UInt8) (listeners : List Nat) :
    (deliverToEach payload listeners c).1.store
      = c.store.follow (listeners.flatMap fun _ => Action.ofDatagram c.wall payload) := by
  induction listeners generalizing c with
  | nil => rfl
  | cons listener rest ih =>
    obtain ⟨hstore, hwall⟩ := c.deliverTo_store payload listener
    rw [deliverToEach, List.flatMap_cons, Store.follow_append, ← hstore, ← hwall]
    exact ih _

end Cache

namespace Session

variable (s : Session V)

/-- Storing an entry of one's own does to the store what its actions do. -/
theorem putValue_store (key entryKey : String) (value : V) (ttl : Duration)
    (revise : TimedEntry V → TimedEntry V) :
    (s.putValue key entryKey value ttl revise).1.cache.store
      = s.cache.store.follow (s.putValueActions key entryKey value ttl revise) :=
  Cache.touching_store _ _

/-- Storing an entry through a holder does to the store what its actions do. -/
theorem putHeld_store (key : String) (holding : Holding V) (ttl : Duration) :
    (s.putHeld key holding ttl).1.cache.store
      = s.cache.store.follow (s.putHeldActions key holding ttl) := by
  rw [putHeld, putHeldActions]
  cases holding.make? s.owners with
  | none => rfl
  | some made => exact Cache.touching_store _ _

/-- Storing a custom entry does to the store what its actions do. -/
theorem putCustom_store (key entryKey : String) (id : Name) (expired : Bool) (value : Option V)
    (hooks : Bool) : (s.putCustom key entryKey id expired value hooks).1.cache.store
      = s.cache.store.follow (s.putCustomActions key entryKey id expired value hooks) :=
  Cache.touching_store _ _

/-- Changing a custom entry does to the store what its actions do. -/
theorem reviseCustom_store (id : Name) (expired : Option Bool) (value : Option (Option V)) :
    (s.reviseCustom id expired value).cache.store
      = s.cache.store.follow (s.reviseCustomActions id expired value) := by
  rw [reviseCustom, reviseCustomActions]
  cases s.owners.custom? id with
  | none => rfl
  | some e => cases value <;> rfl

/-- A look-up leaves the store it reads from, with the references of whoever keeps the value. -/
theorem get_store (key : String) (keep : Option Name) : (s.get key keep).1.cache.store
    = { (s.cache.store.get s.cache.wall key).state with owners := (s.get key keep).1.owners } := by
  have hstore : (s.cache.get key).state.store = (s.cache.store.get s.cache.wall key).state :=
    Cache.touching_store s.cache fun s t => s.get t key
  rw [get, ← hstore]
  cases (s.cache.get key).result with
  | error p => rfl
  | ok found =>
    cases found with
    | none => rfl
    | some cell => cases keep <;> rfl

/-- A datagram to the application's own listener does to the store what its actions do. -/
theorem receive_store (payload : List UInt8) :
    (s.receive payload).1.cache.store = s.cache.store.follow (s.receiveActions payload) := by
  rw [receive, receiveActions]
  split
  · exact s.cache.receive_store payload
  · rfl

/-- A datagram on the host itself does to the store what its delivery does, if it can be sent. -/
theorem overLoopback_store {payload : List UInt8} {actions : List (Action V)}
    {deliver : Session V → List UInt8 → Session V × Reply V}
    (h : (deliver s payload).1.cache.store = s.cache.store.follow actions) :
    (s.overLoopback payload deliver).1.cache.store
      = s.cache.store.follow (s.overLoopbackActions payload actions) := by
  rw [overLoopback, overLoopbackActions]
  cases s.cache.host.transmit loopback payload.length with
  | error e => rfl
  | ok sent => exact h

/-- A datagram in the group does to the store what its deliveries do. -/
theorem receiveFromGroup_store (payload : List UInt8) :
    (s.receiveFromGroup payload).1.cache.store = s.cache.store.follow
      (s.cache.listeners.flatMap fun _ => Action.ofDatagram s.cache.wall payload) :=
  s.cache.deliverToEach_store payload s.cache.listeners

/-- Sending a prefix does to the store what its delivery does. -/
theorem send_store (pattern : String) :
    (s.send pattern).1.cache.store = s.cache.store.follow (s.sendActions pattern) := by
  rw [send, sendActions]
  cases (Sender.mk loopback).send s.cache.host pattern with
  | error fault => rfl
  | ok payload => exact s.receive_store payload

/-- A command does to the store by itself what its actions do. -/
theorem perform_store (c : Command V) :
    (s.perform c).1.cache.store = s.cache.store.follow (s.performActions c) := by
  cases c with
  | store key value ttl listener => exact s.putValue_store key key value ttl _
  | storeHeld key holding ttl => exact s.putHeld_store key holding ttl
  | storeEntry key entryKey value ttl expires listener => exact s.putValue_store key entryKey value ttl _
  | storeCustom key entryKey id expired value hooks =>
    exact s.putCustom_store key entryKey id expired value hooks
  | reviseCustom id expired value => exact s.reviseCustom_store id expired value
  | get key keep => exact s.get_store key keep
  | uncache key => exact Cache.touching_store _ _
  | advance millis => exact s.cache.advance_store millis
  | shutdown => exact s.cache.shutdown_store
  | ensureSweeper => exact s.cache.ensureSweeper_store
  | readSoft handle =>
    rw [perform]
    split <;> rfl
  | datagram payload => exact s.overLoopback_store (s.receive_store payload)
  | groupDatagram payload => exact s.overLoopback_store (s.receiveFromGroup_store payload)
  | send pattern => exact s.send_store pattern
  | _ => rfl

/-- A command and the wake-up after it do to the store what their actions do. -/
theorem step_store (c : Command V) :
    (s.step c).1.cache.store = s.cache.store.follow (s.actions c) := by
  rw [actions, Store.follow_append, ← perform_store]
  exact (s.perform c).1.cache.settle_store

/-- A run leaves the store that following its script leads to. -/
theorem run_store (commands : List (Command V)) :
    (s.run commands).cache.store = s.cache.store.follow (s.script commands) := by
  induction commands generalizing s with
  | nil => rfl
  | cons c rest ih =>
    rw [script, Store.follow_append, ← step_store]
    exact ih _

end Session

end TimedCache
