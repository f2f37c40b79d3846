import TimedCache.Admin.Http
import TimedCache.Cache.Sweeper

/-!
# The administration interface

A cache of texts that is read and changed by requests, and that publishes invalidations if
it has a sender. Requests are served one after the other, each at one instant, and the
cache settles after each.
-/

namespace TimedCache.Admin

/-- A cache behind the interface. The lifetime that is given to values submitted without
one is in seconds. -/
structure App where
  cache : Cache String
  sender : Option Sender := none
  defaultTtl : Nat := 300

/-- Something that happens to the interface. -/
inductive Event where
  | request (r : Request)
  | advance (millis : Nat)
  | shutdown

namespace App

/-- The state that a request left, with the answer unless a hook panicked. -/
abbrev Served := Ran String App Answer

/-- The interface around a cache, with the sender and the lifetime that its settings ask
for. A group that cannot be used leaves it without a sender. -/
def ofSettings (cache : Cache String) : App :=
  { cache
    sender := cache.settings.multicast.bind fun group => (Sender.toGroup group).toOption
    defaultTtl := cache.settings.defaultTtl }

/-- Answers without a change. -/
def unchanged (app : App) (a : Answer) : Served := .done app a

/-- Answers with the result of an operation on the cache. -/
def onCache {α : Type} (app : App) (ran : Cache.Op String α) (answer : α → Answer) : Served :=
  ⟨{ app with cache := ran.state }, ran.result.map answer⟩

/-- Caches a submitted value. -/
def set (app : App) (r : SetRequest) : Served :=
  match r.unfit? with
  | some u => app.unchanged (.fault (.invalidRequest u.reason))
  | none =>
    let ttl := Duration.ofSeconds (r.ttl.getD app.defaultTtl)
    app.onCache (app.cache.putValue r.key r.key r.value ttl id) fun _ => .success (.stored r.key)

/-- Looks a key up. -/
def get (app : App) (key : String) : Served :=
  app.onCache (app.cache.get key) fun
    | some cell => .success (.value key cell.value)
    | none => .fault (.notFound key)

/-- Removes a key; an unknown key is removed as well. -/
def delete (app : App) (key : String) : Served :=
  app.onCache (app.cache.uncache key) fun _ => .success (.uncached key)

/-- Removes the keys that start with a pattern. -/
def uncacheLike (app : App) (pattern : String) : Served :=
  app.onCache (app.cache.uncacheLike pattern) fun n => .success (.uncachedLike pattern n)

/-- Publishes an invalidation. -/
def broadcast (app : App) (r : BroadcastRequest) : Served :=
  app.unchanged <|
    match app.sender with
    | none => .fault .multicastNotConfigured
    | some sender =>
      match sender.send app.cache.host r.pattern with
      | .error f => .fault f
      | .ok _ => .success (.sent r.pattern sender.target)

/-- The report on the cache. -/
def report (app : App) : Report :=
  { stats := app.cache.store.report
    useAge := app.cache.store.useAge app.cache.wall
    sweeperRunning := app.cache.sweeperRunning }

/-- Goes on with the text of a path segment. -/
def withSegment (app : App) (segment : String) (next : String → Served) : Served :=
  match Text.Percent.decode? segment with
  | some s => next s
  | none => app.unchanged (.rejection .pathEncoding)

/-- Goes on with the record in the body. -/
def withBody {α : Type} (app : App) (r : Request)
    (scan : Json.Input → Except Json.Defect (Json.Scanned α)) (next : α → Served) : Served :=
  match r.readBody scan with
  | .ok record => next record
  | .error rejection => app.unchanged (.rejection rejection)

/-- Serves a request whose route serves its method. -/
def dispatch (app : App) (r : Request) : Route → Served
  | .set => app.withBody r SetRequest.scan app.set
  | .get segment => app.withSegment segment app.get
  | .delete segment => app.withSegment segment app.delete
  | .uncacheLike segment => app.withSegment segment app.uncacheLike
  | .broadcast => app.withBody r BroadcastRequest.scan app.broadcast
  | .stats => app.unchanged (.report app.report)
  | .health => app.unchanged (.success (.healthy app.cache.wall))

/-- Serves a request. -/
def serve (app : App) (r : Request) : Served :=
  let route := Route.ofTarget? r.target
  if r.method = .options then app.unchanged (.preflight route)
  else
    match route with
    | none => app.unchanged .notFound
    | some route =>
      if route.serves r.method then
        let served := app.dispatch r route
        if r.method = .head then ⟨served.state, served.result.map Answer.withoutBody⟩ else served
      else app.unchanged (.wrongMethod route)

/-- What an event does by itself, with the answer if it is a request. -/
def handle (app : App) : Event → Ran String App (Option Answer)
  | .request r =>
    let served := app.serve r
    ⟨served.state, served.result.map some⟩
  | .advance millis => .done { app with cache := app.cache.advance millis } none
  | .shutdown =>
    let ran := app.cache.shutdown
    ⟨{ app with cache := ran.state }, ran.result.map fun _ => none⟩

/-- What an event leads to, after which the cache settles. -/
def step (app : App) (e : Event) : Ran String App (Option Answer) :=
  let ran := app.handle e
  ⟨{ ran.state with cache := ran.state.cache.settle }, ran.result⟩

/-- The interface after a list of events. -/
def run (app : App) (events : List Event) : App :=
  events.foldl (fun app e => (app.step e).state) app

end App

end TimedCache.Admin
