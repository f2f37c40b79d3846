import TimedCache.Proofs.Admin.Serving
import TimedCache.Proofs.Store.Outcomes

/-!
# What an answer tells of the store

In every state that the interface comes to while no hook panics, each handler does to the store what the
operation does that it calls, and answers accordingly. So the answer to a request tells what the request
has done to the store; one that was turned down has done nothing.
-/

namespace TimedCache.Admin

namespace App

/-- A new interface. -/
def opened (settings : Settings) (hosted : Bool) (host : Host) (wall : WallTime)
    (sender : Option Sender) (defaultTtl : Nat) : App :=
  { cache := Cache.createdAt settings hosted host wall, sender, defaultTtl }

/-- The states that the interface comes to: it is put around a new cache and things happen to it, and
the application may use the cache by itself. No hook is armed to panic. -/
inductive Reachable : App → Prop
  | opened (settings : Settings) (hosted : Bool) (host : Host) (wall : WallTime)
      (sender : Option Sender) (defaultTtl : Nat) :
      Reachable (opened settings hosted host wall sender defaultTtl)
  | happened {app : App} (e : Event) (h : Reachable app) : Reachable (app.step e).state
  | used {app : App} (s : Session String) (c : Command String) (hcache : s.cache = app.cache)
      (hquiet : c.isQuiet) (h : Reachable app) : Reachable { app with cache := (s.step c).1.cache }

variable {app : App}

/-- The interface comes to calm states only. -/
theorem Reachable.calm (h : app.Reachable) : app.cache.store.Calm := by
  induction h with
  | opened settings hosted host wall sender defaultTtl => exact Store.createdAt_calm wall
  | @happened app e h ih =>
    change (app.step e).state.session.cache.store.Calm
    rw [step_session]
    exact Session.step_calm (s := app.session) ih (Command.isQuiet_of_isPlain (app.command_isPlain e))
  | used s c hcache hquiet h ih => exact Session.step_calm (hcache ▸ ih) hquiet

/-- The entry that is made of a submitted value. -/
def entryFor (app : App) (record : SetRequest) : TimedEntry String :=
  .create app.cache.wall.stamp record.key (.strong (app.cache.store.owners.allocate record.value).2)
    (.ofSeconds (record.ttl.getD app.defaultTtl))

/-- The store in which it is put, where its value has been made. -/
def storeFor (app : App) (record : SetRequest) : Store String :=
  { app.cache.store with owners := (app.cache.store.owners.allocate record.value).1 }

/-- A value that is fit to be stored is put. -/
theorem set_of_fit (app : App) {record : SetRequest} (hfit : record.unfit? = none) :
    (app.set record).state.cache.store
      = ((app.storeFor record).put app.cache.wall record.key (.timed (app.entryFor record))).state
    ∧ (app.set record).result
      = ((app.storeFor record).put app.cache.wall record.key (.timed (app.entryFor record))).result.map
        fun _ => .success (.stored record.key) := by
  let c : Cache String := { app.cache with store := app.storeFor record }
  have hstore := c.touching_store fun s t => s.put t record.key (.timed (app.entryFor record))
  have hresult := c.touching_result fun s t => s.put t record.key (.timed (app.entryFor record))
  rw [set, hfit]
  exact ⟨hstore, congrArg (Except.map _) hresult⟩

/-- A submitted value is turned down or stored. -/
theorem set_cases (hs : app.cache.store.Calm) (record : SetRequest) :
    (record.unfit?.isSome ∧ ∃ answer, app.set record = app.unchanged answer ∧ answer.status = 400)
      ∨ record.unfit? = none ∧ (app.set record).result = .ok (.success (.stored record.key))
        ∧ Store.Stored app.cache.wall.stamp record.key app.cache.store
          (app.set record).state.cache.store := by
  cases hfit : record.unfit? with
  | some u =>
    rw [set, hfit]
    exact .inl ⟨rfl, _, rfl, rfl⟩
  | none =>
    have hcalm : (app.storeFor record).Calm := ⟨hs.quiet, hs.nodup, hs.counted, hs.bounded⟩
    obtain ⟨hstore, hresult⟩ := set_of_fit app hfit
    obtain ⟨hreturned, hothers, hstats⟩ :=
      hcalm.put_stored app.cache.wall record.key (.timed (app.entryFor record))
    rw [hstore, hresult, hreturned]
    exact .inr ⟨rfl, rfl, hothers, hstats⟩

/-- A look-up by request answers with a value or that there is none. -/
theorem get_cases (hs : app.cache.store.Calm) (key : String) :
    (∃ value, (app.get key).result = .ok (.success (.value key value))
        ∧ Store.Hit app.cache.wall.stamp key app.cache.store (app.get key).state.cache.store)
      ∨ (app.get key).result = .ok (.fault (.notFound key))
        ∧ Store.Missed app.cache.wall.stamp key app.cache.store (app.get key).state.cache.store := by
  have hstore : (app.get key).state.cache.store = (app.cache.store.get app.cache.wall key).state :=
    app.cache.touching_store _
  have hresult := app.cache.touching_result fun s t => s.get t key
  rw [hstore]
  rcases hs.get_cases app.cache.wall key with ⟨cell, hfound, hhit⟩ | ⟨hnone, hmissed⟩
  · exact .inl ⟨cell.value, congrArg (Except.map _) (hresult.trans hfound), hhit⟩
  · exact .inr ⟨congrArg (Except.map _) (hresult.trans hnone), hmissed⟩

/-- A removal by key succeeds, whether the key is known or not. -/
theorem delete_uncached (hs : app.cache.store.Calm) (key : String) :
    (app.delete key).result = .ok (.success (.uncached key))
      ∧ Store.Uncached app.cache.wall.stamp key app.cache.store (app.delete key).state.cache.store := by
  have hstore : (app.delete key).state.cache.store = (app.cache.store.uncache app.cache.wall key).state :=
    app.cache.touching_store _
  have hresult := app.cache.touching_result fun s t => s.uncache t key
  rw [hstore]
  obtain ⟨hreturned, huncached⟩ := hs.uncache_uncached app.cache.wall key
  exact ⟨congrArg (Except.map _) (hresult.trans hreturned), huncached⟩

/-- A removal by prefix succeeds and tells how many entries it removed. -/
theorem uncacheLike_uncachedLike (hs : app.cache.store.Calm) (pattern : String) :
    ∃ count, (app.uncacheLike pattern).result = .ok (.success (.uncachedLike pattern count))
      ∧ Store.UncachedLike pattern count app.cache.store (app.uncacheLike pattern).state.cache.store := by
  obtain ⟨count, hreturned, hremoved⟩ := hs.uncacheLike_uncachedLike app.cache.wall pattern
  exact ⟨count, congrArg (Except.map _) hreturned, hremoved⟩

/-- What the answer to a request tells of its effect. -/
structure Tells (r : Request) (before after : App) (answer : Answer) : Prop where
  /-- A request that is turned down changes nothing, but for a look-up that finds no value. -/
  turned : 400 ≤ answer.status →
    ¬ (answer.status = 404 ∧ (r.method = .get ∨ r.method = .head)
      ∧ ∃ segment, Route.ofTarget? r.target = some (.get segment)) → after = before
  /-- A question what is allowed changes nothing. -/
  options : r.method = .options → after = before
  /-- Success, and a look-up that finds no value, have the effect of what the request asked for. -/
  effect : match Route.ofTarget? r.target with
    | some .set => r.method = .put → answer.status = 200 →
      ∃ record, r.readBody SetRequest.scan = .ok record
        ∧ Store.Stored before.cache.wall.stamp record.key before.cache.store after.cache.store
    | some (.get segment) => r.method = .get ∨ r.method = .head →
      (answer.status = 404 → ∃ key, Text.Percent.decode? segment = some key
        ∧ Store.Missed before.cache.wall.stamp key before.cache.store after.cache.store)
      ∧ (answer.status = 200 → ∃ key, Text.Percent.decode? segment = some key
        ∧ Store.Hit before.cache.wall.stamp key before.cache.store after.cache.store)
    | some (.delete segment) => r.method = .delete → answer.status = 200 →
      ∃ key, Text.Percent.decode? segment = some key
        ∧ Store.Uncached before.cache.wall.stamp key before.cache.store after.cache.store
    | some (.uncacheLike segment) => r.method = .delete → answer.status = 200 →
      ∃ pattern count, Text.Percent.decode? segment = some pattern ∧ pattern ≠ ""
        ∧ answer = .success (.uncachedLike pattern count)
        ∧ Store.UncachedLike pattern count before.cache.store after.cache.store
    | some .broadcast | some .stats | some .health | none => after = before

variable {r : Request}

/-- The answer to a request that comes to no demand tells what it has done: nothing. -/
theorem tells_of_no_demand (app : App) (h : r.demand? = none) :
    ∃ answer, (app.serve r).result = .ok answer ∧ Tells r app (app.serve r).state answer := by
  obtain ⟨answer, hserve, hdown⟩ := serve_of_no_demand app h
  have hstate : (app.serve r).state = app := congrArg Ran.state hserve
  refine ⟨answer, congrArg Ran.result hserve, fun _ _ => hstate, fun _ => hstate, ?_⟩
  cases hroute : Route.ofTarget? r.target with
  | none => exact hstate
  | some route =>
    have hfailed := hdown route hroute
    have hfails (hother : route ∉ [.broadcast, .stats, .health]) (hmethod : r.method ≠ .options) :
        answer.status ≠ 200 := fun hok => absurd (hok ▸ (hfailed hother hmethod).1) (by decide)
    cases route with
    | get segment =>
      intro hmethod
      have hasked : r.method ≠ .options := by rcases hmethod with hget | hhead <;> simp [*]
      exact ⟨fun hstatus => absurd hstatus (hfailed (by simp) hasked).2,
        fun hstatus => absurd hstatus (hfails (by simp) hasked)⟩
    | set | delete segment | uncacheLike segment =>
      exact fun hmethod hstatus => absurd hstatus (hfails (by simp) (by simp [hmethod]))
    | broadcast | stats | health => exact hstate

/-- An answer that tells of success does not tell of a request that was turned down. -/
theorem not_turned {o : Outcome} : ¬ 400 ≤ (r.present (.success o)).status := by
  rw [r.present_status]
  exact (by decide : ¬ 400 ≤ 200)

section Handlers

variable (hs : app.cache.store.Calm) (hasked : r.method ≠ .options)
include hs hasked

/-- The answer to a submitted value tells whether it was stored. -/
theorem set_tells (hroute : Route.ofTarget? r.target = some .set) {record : SetRequest}
    (hread : r.readBody SetRequest.scan = .ok record) : ∃ answer, (app.set record).result = .ok answer
      ∧ Tells r app (app.set record).state (r.present answer) := by
  rcases set_cases hs record with ⟨-, answer, hset, hstatus⟩ | ⟨-, hdone, hstored⟩
  · have hunchanged : (app.set record).state = app := congrArg Ran.state hset
    refine ⟨answer, congrArg Ran.result hset, fun _ _ => hunchanged,
      fun hoptions => absurd hoptions hasked, ?_⟩
    rw [hroute]
    intro _ hok
    rw [r.present_status, hstatus] at hok
    cases hok
  · refine ⟨_, hdone, fun hle => absurd hle not_turned, fun hoptions => absurd hoptions hasked, ?_⟩
    rw [hroute]
    exact fun _ _ => ⟨record, hread, hstored⟩

/-- The answer to a look-up tells whether a value was found. -/
theorem get_tells {segment key : String} (hroute : Route.ofTarget? r.target = some (.get segment))
    (hserves : (Route.get segment).serves r.method)
    (hdecoded : Text.Percent.decode? segment = some key) : ∃ answer, (app.get key).result = .ok answer
      ∧ Tells r app (app.get key).state (r.present answer) := by
  rcases get_cases hs key with ⟨value, hfound, hhit⟩ | ⟨hnone, hmissed⟩
  · refine ⟨_, hfound, fun hle => absurd hle not_turned, fun hoptions => absurd hoptions hasked, ?_⟩
    rw [hroute]
    refine fun _ => ⟨fun hstatus => ?_, fun _ => ⟨key, hdecoded, hhit⟩⟩
    rw [r.present_status] at hstatus
    cases hstatus
  · have hstatus : (r.present (.fault (.notFound key))).status = 404 := r.present_status _
    have hmethod : r.method = .get ∨ r.method = .head := by
      cases h : r.method <;> rw [h] at hserves <;> simp_all [Route.serves]
    refine ⟨_, hnone, fun _ hother => absurd ⟨hstatus, hmethod, segment, hroute⟩ hother,
      fun hoptions => absurd hoptions hasked, ?_⟩
    rw [hroute]
    refine fun _ => ⟨fun _ => ⟨key, hdecoded, hmissed⟩, fun hok => ?_⟩
    rw [hstatus] at hok
    cases hok

/-- The answer to a removal by key tells what it has done. -/
theorem delete_tells {segment key : String} (hroute : Route.ofTarget? r.target = some (.delete segment))
    (hdecoded : Text.Percent.decode? segment = some key) : ∃ answer, (app.delete key).result = .ok answer
      ∧ Tells r app (app.delete key).state (r.present answer) := by
  obtain ⟨hdone, huncached⟩ := delete_uncached hs key
  refine ⟨_, hdone, fun hle => absurd hle not_turned, fun hoptions => absurd hoptions hasked, ?_⟩
  rw [hroute]
  exact fun _ _ => ⟨key, hdecoded, huncached⟩

/-- The answer to a removal by prefix tells how many entries it removed. -/
theorem uncacheLike_tells {segment pattern : String}
    (hroute : Route.ofTarget? r.target = some (.uncacheLike segment))
    (hdecoded : Text.Percent.decode? segment = some pattern) :
    ∃ answer, (app.uncacheLike pattern).result = .ok answer
      ∧ Tells r app (app.uncacheLike pattern).state (r.present answer) := by
  obtain ⟨count, hdone, hremoved⟩ := uncacheLike_uncachedLike hs pattern
  refine ⟨_, hdone, fun hle => absurd hle not_turned, fun hoptions => absurd hoptions hasked, ?_⟩
  rw [hroute]
  intro hmethod _
  have hwhole : r.present (.success (.uncachedLike pattern count))
      = .success (.uncachedLike pattern count) := if_neg (by simp [hmethod])
  exact ⟨pattern, count, hdecoded, ne_empty_of_decode (segment_ne_empty hroute) hdecoded, hwhole, hremoved⟩

end Handlers

/-- In every state that the interface comes to while no hook panics, every request is answered, and the
answer tells what it has done to the store. -/
theorem answer_tells_effect (happ : app.Reachable) (r : Request) :
    ∃ answer, (app.serve r).result = .ok answer ∧ Tells r app (app.serve r).state answer := by
  have hs := happ.calm
  cases hdemand : r.demand? with
  | none => exact tells_of_no_demand app hdemand
  | some d =>
    obtain ⟨route, hroute, hserves, hdemanded⟩ := exists_route_of_demand hdemand
    have hasked : r.method ≠ .options := ne_options_of_serves hserves
    have hmeet : ∃ answer, (app.meet d).result = .ok answer
        ∧ Tells r app (app.meet d).state (r.present answer) := by
      cases route with
      | set =>
        obtain ⟨record, hread, rfl⟩ := Option.map_eq_some_iff.mp hdemanded
        exact set_tells hs hasked hroute (eq_ok_of_toOption hread)
      | get segment =>
        obtain ⟨key, hdecoded, rfl⟩ := Option.map_eq_some_iff.mp hdemanded
        exact get_tells hs hasked hroute hserves hdecoded
      | delete segment =>
        obtain ⟨key, hdecoded, rfl⟩ := Option.map_eq_some_iff.mp hdemanded
        exact delete_tells hs hasked hroute hdecoded
      | uncacheLike segment =>
        obtain ⟨pattern, hdecoded, rfl⟩ := Option.map_eq_some_iff.mp hdemanded
        exact uncacheLike_tells hs hasked hroute hdecoded
      | broadcast | stats | health => cases hdemanded
    obtain ⟨answer, hanswer, htells⟩ := hmeet
    obtain ⟨hstate, hresult⟩ := serve_of_demand app hdemand
    refine ⟨r.present answer, ?_, hstate ▸ htells⟩
    rw [hresult, hanswer, Except.map]

/-- An application stores a value for a second, and two seconds pass. -/
def staleApp : App :=
  let cache : Cache String := Cache.createdAt {} true { link := .connected } 0
  let stored : Cache String :=
    (({ cache } : Session String).step (.store "a" "x" (.ofSeconds 1) none)).1.cache
  (App.step { cache := stored } (.advance 2000)).state

/-- Asking for the key of that value, without the body of the answer. -/
def staleLookUp : Request := { method := .head, target := "/get/%61" }

/-- The answer that the key is unknown tells that the entry has been removed, as an expired one. -/
theorem answer_tells_effect_stale : ∃ answer, (staleApp.serve staleLookUp).result = .ok answer
    ∧ answer.status = 404
    ∧ Store.Missed 2000 "a" staleApp.cache.store (staleApp.serve staleLookUp).state.cache.store := by
  have hreachable : staleApp.Reachable :=
    .happened _ (.used _ (.store "a" "x" (.ofSeconds 1) none) rfl rfl
      (.opened {} true { link := .connected } 0 none 300))
  have hroute : Route.ofTarget? staleLookUp.target = some (.get "%61") := by decide
  have hdecoded : Text.Percent.decode? "%61" = some "a" := by decide +kernel
  have hdemand : staleLookUp.demand? = some (.get "a") := by decide +kernel
  have hnone : (staleApp.cache.get "a").result = .ok none := by rfl
  obtain ⟨answer, hanswer, htells⟩ := answer_tells_effect hreachable staleLookUp
  have heffect := htells.effect
  rw [hroute] at heffect
  have hstatus : answer.status = 404 := by
    have hresult := (serve_of_demand staleApp hdemand).2
    rw [meet, get, onCache, hnone, hanswer] at hresult
    rw [Except.ok.inj hresult, staleLookUp.present_status]
    rfl
  obtain ⟨key, hkey, hmissed⟩ := (heffect (.inr rfl)).1 hstatus
  rw [hdecoded] at hkey
  cases hkey
  exact ⟨answer, hanswer, hstatus, hmissed⟩

end App

end TimedCache.Admin
