import TimedCache.Cache.Sweeper

/-!
# Commands

Everything an application can do with a cache, with the references it keeps and with a
listener of its own, as data: a command changes the session and is answered, and then the
cache settles. A run is a list of commands carried out one after the other. Commands that
name a reference which does not exist do nothing.
-/

namespace TimedCache

/-- A cache in use, and the application's own listener if it has one; the flag tells
whether its task is still alive. -/
structure Session (V : Type) where
  cache : Cache V
  listener : Option Bool := none

/-- What an application can ask for. -/
inductive Command (V : Type) where
  /-- Stores a value of its own, with an optional listener. -/
  | store (key : String) (value : V) (ttl : Duration) (listener : Option Name)
  /-- Stores a value through a holder. -/
  | storeHeld (key : String) (holding : Holding V) (ttl : Duration)
  /-- Stores an entry with a key of its own and, if given, its own expiration time. -/
  | storeEntry (key entryKey : String) (value : V) (ttl : Duration)
      (expires : Option (Option Timestamp)) (listener : Option Name)
  /-- Stores a new custom entry with a key of its own. -/
  | storeCustom (key entryKey : String) (id : Name) (expired : Bool) (value : Option V)
      (hooks : Bool)
  /-- Changes what the latest custom entry of a name answers. -/
  | reviseCustom (id : Name) (expired : Option Bool) (value : Option (Option V))
  | own (name : Name) (value : V)
  | soften (handle : Name) (value : V)
  | softenOwned (handle owner : Name)
  /-- Clones a handle, which gives its soft slot one more. -/
  | share (source target : Name)
  /-- Makes a holder and keeps it under a number. -/
  | refer (index : Nat) (holding : Holding V)
  | copy (source target : Nat)
  /-- Owns the value that a copy resolves to, if it does. -/
  | keepValue (source : Nat) (owner : Name)
  | drop (label : Label)
  | reclaim (handle : Name)
  | readSoft (handle : Name)
  | get (key : String) (keep : Option Name)
  | uncache (key : String)
  | uncacheLike (pattern : String)
  | sweep
  | drain
  | size
  | stats
  | useAge
  | setDelegate (name : Option Name)
  | arm (alarm : Alarm String)
  | advance (millis : Nat)
  | skew (millis : Int)
  | ensureSweeper
  | shutdown
  | running
  | settings
  | setHost (host : Host)
  | listen
  | unlisten
  | listenerAlive
  | datagram (payload : List UInt8)
  | groupDatagram (payload : List UInt8)
  | send (pattern : String)

/-- The answer to a command. -/
inductive Reply (V : Type) where
  | nothing
  | count (n : Nat)
  | size (n : Nat)
  | value (v : Option V)
  | soft (v : Option V)
  | stats (s : Stats)
  | running (sweeper listener : Bool)
  | flag (b : Bool)
  | settings (s : Settings)
  | delivery (d : Cache.Delivery)
  | fault (f : Fault)
  | panicked (p : Panic String)
  /-- The application's own datagram did not leave the host. -/
  | unsent (e : SystemError)

variable {V : Type}

namespace Session

/-- The session with a changed store. -/
def mapStore (s : Session V) (f : Store V → Store V) : Session V :=
  { s with cache := { s.cache with store := f s.cache.store } }

/-- The session with changed references outside the store. -/
def mapOwners (s : Session V) (f : Owners V → Owners V) : Session V :=
  s.mapStore fun st => { st with owners := f st.owners }

/-- The references outside the store. -/
def owners (s : Session V) : Owners V := s.cache.store.owners

/-- What exists at the moment. -/
def moment (s : Session V) : Moment V := s.cache.store.moment []

/-- The time that the cache reads. -/
def now (s : Session V) : Timestamp := s.cache.wall.stamp

/-- The session and the answer after an operation on the cache. -/
def answer {α : Type} (s : Session V) (ran : Cache.Op V α) (reply : α → Reply V) :
    Session V × Reply V :=
  ({ s with cache := ran.state },
    match ran.result with
    | .ok a => reply a
    | .error p => .panicked p)

/-- Stores an entry. -/
def put (s : Session V) (key : String) (e : Entry V) : Session V × Reply V :=
  s.answer (s.cache.put key e) fun _ => .nothing

/-- Stores an entry that holds a value of its own. -/
def putValue (s : Session V) (key entryKey : String) (value : V) (ttl : Duration)
    (revise : TimedEntry V → TimedEntry V) : Session V × Reply V :=
  s.answer (s.cache.putValue key entryKey value ttl revise) fun _ => .nothing

/-- Stores an entry that holds its value as asked for. -/
def putHeld (s : Session V) (key : String) (holding : Holding V) (ttl : Duration) :
    Session V × Reply V :=
  match holding.make? s.owners with
  | none => (s, .nothing)
  | some (owners, h) =>
    let s := s.mapOwners fun _ => owners
    s.put key (.timed (.create s.now key h ttl))

/-- Stores a new custom entry, which the application keeps too. -/
def putCustom (s : Session V) (key entryKey : String) (id : Name) (expired : Bool)
    (value : Option V) (hooks : Bool) : Session V × Reply V :=
  let (owners, e) := s.owners.makeCustom entryKey id expired value hooks
  (s.mapOwners fun _ => owners).put key (.custom e)

/-- Changes what the latest custom entry of a name answers, where something is given. -/
def reviseCustom (s : Session V) (id : Name) (expired : Option Bool)
    (value : Option (Option V)) : Session V :=
  match s.owners.custom? id with
  | none => s
  | some e =>
    let e := { e with expired := expired.getD e.expired }
    match value with
    | none => s.mapStore fun st => st.reviseCustom e
    | some v =>
      let (owners, cell) := s.owners.allocate? v
      (s.mapOwners fun _ => owners).mapStore fun st => st.reviseCustom { e with value := cell }

/-- Looks a key up and keeps a found value if a name for it is given. -/
def get (s : Session V) (key : String) (keep : Option Name) : Session V × Reply V :=
  let ran := s.cache.get key
  let s := { s with cache := ran.state }
  match ran.result with
  | .error p => (s, .panicked p)
  | .ok none => (s, .value none)
  | .ok (some cell) =>
    match keep with
    | none => (s, .value (some cell.value))
    | some name =>
      (s.mapOwners fun o => o.ownOnly name cell, .value (some cell.value))

/-- Hands a datagram to the application's own listener, which a panicking hook kills. -/
def receive (s : Session V) (payload : List UInt8) : Session V × Reply V :=
  if s.listener = some true then
    let (cache, delivery) := s.cache.receive payload
    ({ cache, listener := some (delivery ≠ .panicked) }, .delivery delivery)
  else (s, .nothing)

/-- The endpoint at which the application's own listener receives. -/
def loopback : Endpoint := { address := .ofOctets [127, 0, 0, 1], port := 1 }

/-- Sends a datagram on the host itself, and hands it on if it could be sent. -/
def overLoopback (s : Session V) (payload : List UInt8)
    (deliver : Session V → List UInt8 → Session V × Reply V) : Session V × Reply V :=
  match s.cache.host.transmit loopback payload.length with
  | .error e => (s, .unsent e)
  | .ok () => deliver s payload

/-- Sends a prefix to the application's own listener. -/
def send (s : Session V) (pattern : String) : Session V × Reply V :=
  match (Sender.mk loopback).send s.cache.host pattern with
  | .error fault => (s, .fault fault)
  | .ok payload => s.receive payload

/-- Hands a datagram to the listeners in the group. -/
def receiveFromGroup (s : Session V) (payload : List UInt8) : Session V × Reply V :=
  let (cache, deliveries) := s.cache.receiveFromGroup payload
  ({ s with cache }, match deliveries with
    | [] => .nothing
    | d :: _ => .delivery d)

/-- What a command does by itself. -/
def perform (s : Session V) : Command V → Session V × Reply V
  | .store key value ttl listener => s.putValue key key value ttl fun e => { e with listener }
  | .storeHeld key holding ttl => s.putHeld key holding ttl
  | .storeEntry key entryKey value ttl expires listener =>
    s.putValue key entryKey value ttl fun e =>
      { e with listener, expiresAt := expires.getD e.expiresAt }
  | .storeCustom key entryKey id expired value hooks =>
    s.putCustom key entryKey id expired value hooks
  | .reviseCustom id expired value => (s.reviseCustom id expired value, .nothing)
  | .own name value =>
    (s.mapOwners fun o =>
      let (o, cell) := o.allocate value
      o.ownOnly name cell, .nothing)
  | .soften handle value =>
    (s.mapOwners fun o =>
      let (o, cell) := o.allocate value
      o.soften handle cell, .nothing)
  | .softenOwned handle owner =>
    (s.mapOwners fun o => ((o.values.lookup owner).map (o.soften handle)).getD o, .nothing)
  | .share source target => (s.mapOwners fun o => o.share source target, .nothing)
  | .refer index holding =>
    (s.mapOwners fun o =>
      match holding.make? o with
      | none => o
      | some (o, h) => o.file index h, .nothing)
  | .copy source target =>
    (s.mapOwners fun o => ((o.copies.lookup source).map (o.file target)).getD o, .nothing)
  | .keepValue source owner =>
    let m := s.moment
    (s.mapOwners fun o =>
      (((o.copies.lookup source).bind (Holder.resolve m)).map (o.own owner)).getD o, .nothing)
  | .drop label => (s.mapOwners fun o => o.drop label, .nothing)
  | .reclaim handle => (s.mapOwners fun o => o.reclaim handle, .nothing)
  | .readSoft handle =>
    if (s.owners.handles.lookup handle).isSome then
      (s, .soft ((s.owners.behind? handle).map Cell.value))
    else (s, .nothing)
  | .get key keep => s.get key keep
  | .uncache key => s.answer (s.cache.uncache key) fun _ => .nothing
  | .uncacheLike pattern => s.answer (s.cache.uncacheLike pattern) .count
  | .sweep => s.answer s.cache.sweep .count
  | .drain => s.answer s.cache.drain .count
  | .size => (s, .size s.cache.store.size)
  | .stats => (s, .stats s.cache.store.report)
  | .useAge => (s, .count (s.cache.store.useAge s.cache.wall))
  | .setDelegate name => (s.mapStore fun st => { st with delegate := name }, .nothing)
  | .arm alarm => (s.mapStore fun st => { st with alarms := st.alarms ++ [alarm] }, .nothing)
  | .advance millis => ({ s with cache := s.cache.advance millis }, .nothing)
  | .skew millis => ({ s with cache := s.cache.skew millis }, .nothing)
  | .ensureSweeper => ({ s with cache := s.cache.ensureSweeper }, .nothing)
  | .shutdown => s.answer s.cache.shutdown fun _ => .nothing
  | .running => (s, .running s.cache.sweeperRunning s.cache.listenerRunning)
  | .settings => (s, .settings s.cache.settings)
  | .setHost host => ({ s with cache := { s.cache with host } }, .nothing)
  | .listen => ({ s with listener := some true }, .flag true)
  | .unlisten => ({ s with listener := none }, .nothing)
  | .listenerAlive => (s, .flag (s.listener == some true))
  | .datagram payload => s.overLoopback payload receive
  | .groupDatagram payload => s.overLoopback payload receiveFromGroup
  | .send pattern => s.send pattern

/-- Carries out a command, after which the cache settles. -/
def step (s : Session V) (c : Command V) : Session V × Reply V :=
  let (s, reply) := s.perform c
  ({ s with cache := s.cache.settle }, reply)

/-- Carries out commands one after the other; the result is the session they lead to. -/
def run (s : Session V) (commands : List (Command V)) : Session V :=
  commands.foldl (fun s c => (s.step c).1) s

end Session

end TimedCache
