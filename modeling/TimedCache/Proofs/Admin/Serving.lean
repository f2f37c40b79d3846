import TimedCache.Admin.App
import TimedCache.Proofs.Session.Plain

/-!
# What requests ask of the cache

A request is a demand on the cache if it comes as far as a handler that works on the cache: it is
routed there and can be read. Every other request is answered without a change. So to the cache
whatever happens to the interface is a plain command, and what is known of sessions carries over.
-/

namespace TimedCache.Admin

/-- Reading on in some bytes loses none that were read. -/
theorem toList_loop_ne_nil (bytes : ByteArray) (i : Nat) {read : List UInt8} (h : read ≠ []) :
    ByteArray.toList.loop bytes i read ≠ [] := by
  fun_induction ByteArray.toList.loop bytes i read with
  | case1 i read hlt ih => exact ih (List.cons_ne_nil _ _)
  | case2 i read hlt => exact fun hnil => h (List.reverse_eq_nil_iff.mp hnil)

/-- What is not empty has a byte to read. -/
theorem toList_ne_nil {bytes : ByteArray} (h : 0 < bytes.size) : bytes.toList ≠ [] := by
  rw [ByteArray.toList, ByteArray.toList.loop, if_pos h]
  exact toList_loop_ne_nil bytes 1 (List.cons_ne_nil _ _)

/-- Percent-encoded bytes stand for some bytes. -/
theorem decodeBytes_ne_nil {bytes : List UInt8} (h : bytes ≠ []) :
    Text.Percent.decodeBytes bytes ≠ [] := by
  fun_cases Text.Percent.decodeBytes bytes <;> simp_all

/-- Decoding a segment that is not empty gives a text that is not empty. -/
theorem ne_empty_of_decode {segment text : String} (hsegment : segment ≠ "")
    (h : Text.Percent.decode? segment = some text) : text ≠ "" := by
  rintro rfl
  have hsize : 0 < segment.toUTF8.size := by
    rw [String.toUTF8_eq_toByteArray, String.size_toByteArray]
    exact Nat.pos_of_ne_zero fun hzero => hsegment (String.utf8ByteSize_eq_zero_iff.mp hzero)
  have hdecoded := decodeBytes_ne_nil (toList_ne_nil hsize)
  rw [Text.Percent.decode?, String.fromUTF8?] at h
  split at h
  · have hbytes : (Text.Percent.decodeBytes segment.toUTF8.toList).toByteArray = ByteArray.empty :=
      congrArg String.toByteArray (Option.some.inj h)
    have hlength := congrArg ByteArray.size hbytes
    rw [List.size_toByteArray] at hlength
    exact hdecoded (List.eq_nil_of_length_eq_zero hlength)
  · cases h

/-- A segment of a path is not empty. -/
theorem segment_ne_empty {target segment : String}
    (h : Route.ofTarget? target = some (.uncacheLike segment)) : segment ≠ "" := by
  rw [Route.ofTarget?] at h
  split at h
  · cases h
  split at h
  · cases h
  split at h
  · cases h
  split at h
  · cases h
  rcases Option.or_eq_some_iff.mp h with hget | ⟨-, h⟩
  · obtain ⟨_, -, hget⟩ := Option.map_eq_some_iff.mp hget
    cases hget
  rcases Option.or_eq_some_iff.mp h with hdelete | ⟨-, h⟩
  · obtain ⟨_, -, hdelete⟩ := Option.map_eq_some_iff.mp hdelete
    cases hdelete
  obtain ⟨_, hsegment, hroute⟩ := Option.map_eq_some_iff.mp h
  cases hroute
  dsimp only at hsegment
  split at hsegment
  · next hparameter =>
    simp only [Bool.and_eq_true, Bool.not_eq_true', List.isEmpty_eq_false_iff] at hparameter
    rw [← Option.some.inj hsegment]
    exact fun hempty => hparameter.1.2 (String.ofList_eq_empty_iff.mp hempty)
  · cases hsegment

/-- A call of a handler that works on the cache. -/
inductive Demand where
  | set (record : SetRequest)
  | get (key : String)
  | delete (key : String)
  | uncacheLike (pattern : String)
deriving DecidableEq, Repr

/-- The handler call that a route makes of a request, if the handler works on the cache and the request
can be read. -/
def Route.demand? (r : Request) : Route → Option Demand
  | .set => (r.readBody SetRequest.scan).toOption.map .set
  | .get segment => (Text.Percent.decode? segment).map .get
  | .delete segment => (Text.Percent.decode? segment).map .delete
  | .uncacheLike segment => (Text.Percent.decode? segment).map .uncacheLike
  | .broadcast | .stats | .health => none

/-- The handler call that a request comes to, if its path leads to one and its method is served there. -/
def Request.demand? (r : Request) : Option Demand :=
  ((Route.ofTarget? r.target).filter (Route.serves · r.method)).bind (Route.demand? r)

/-- What an accepted demand is for an application that uses the cache itself; a value that is not
cached asks for nothing. -/
def Demand.command (defaultTtl : Nat) : Demand → Command String
  | .set record =>
    match record.unfit? with
    | some _ => .size
    | none => .store record.key record.value (.ofSeconds (record.ttl.getD defaultTtl)) none
  | .get key => .get key none
  | .delete key => .uncache key
  | .uncacheLike pattern => .uncacheLike pattern

/-- The answer to the request as its method asks for it: without its body for a head request. -/
def Request.present (r : Request) (a : Answer) : Answer :=
  if r.method = .head then a.withoutBody else a

@[simp] theorem Request.present_status (r : Request) (a : Answer) :
    (r.present a).status = a.status := by
  rw [present]
  split <;> rfl

namespace App

variable {app : App} {r : Request} {d : Demand}

/-- What the handler does. -/
def meet (app : App) : Demand → Served
  | .set record => app.set record
  | .get key => app.get key
  | .delete key => app.delete key
  | .uncacheLike pattern => app.uncacheLike pattern

/-- A result that can be taken for an option was one. -/
theorem eq_ok_of_toOption {ε α : Type} {result : Except ε α} {a : α} (h : result.toOption = some a) :
    result = .ok a := by
  cases result with
  | ok b => exact congrArg Except.ok (Option.some.inj h)
  | error e => cases h

/-- A handler that works on the cache meets the demand. -/
theorem dispatch_of_demand {route : Route} (h : route.demand? r = some d) :
    app.dispatch r route = app.meet d := by
  cases route with
  | set =>
    obtain ⟨record, hrecord, rfl⟩ := Option.map_eq_some_iff.mp h
    rw [dispatch, withBody, eq_ok_of_toOption hrecord]
    rfl
  | get segment | delete segment | uncacheLike segment =>
    obtain ⟨text, htext, rfl⟩ := Option.map_eq_some_iff.mp h
    rw [dispatch, withSegment, htext]
    rfl
  | broadcast | stats | health => cases h

/-- Where there is no demand nothing changes, and a route to the cache turns the request down, not for
an unknown key. -/
theorem dispatch_of_no_demand (app : App) {route : Route} (h : route.demand? r = none) :
    ∃ a, app.dispatch r route = app.unchanged a
      ∧ (route ∉ [.broadcast, .stats, .health] → 400 ≤ a.status ∧ a.status ≠ 404) := by
  have hrejection (rejection : Rejection) : 400 ≤ (Answer.rejection rejection).status
      ∧ (Answer.rejection rejection).status ≠ 404 := by
    cases rejection <;> decide
  cases route with
  | set =>
    rw [dispatch, withBody]
    cases hbody : r.readBody SetRequest.scan with
    | ok record =>
      rw [Route.demand?, hbody] at h
      cases h
    | error rejection => exact ⟨_, rfl, fun _ => hrejection rejection⟩
  | get segment | delete segment | uncacheLike segment =>
    have hnone : Text.Percent.decode? segment = none := Option.map_eq_none_iff.mp h
    rw [dispatch, withSegment, hnone]
    exact ⟨_, rfl, fun _ => hrejection .pathEncoding⟩
  | broadcast =>
    rw [dispatch, withBody]
    split <;> exact ⟨_, rfl, fun helsewhere => absurd List.mem_cons_self helsewhere⟩
  | stats | health => exact ⟨_, rfl, fun helsewhere => absurd (by decide) helsewhere⟩

/-- A demand comes from the route of the request, which serves its method. -/
theorem exists_route_of_demand (h : r.demand? = some d) : ∃ route,
    Route.ofTarget? r.target = some route ∧ route.serves r.method ∧ route.demand? r = some d := by
  obtain ⟨route, hserved, hdemand⟩ := Option.bind_eq_some_iff.mp h
  obtain ⟨hroute, hserves⟩ := Option.filter_eq_some_iff.mp hserved
  exact ⟨route, hroute, hserves, hdemand⟩

/-- No route serves a question what is allowed. -/
theorem ne_options_of_serves {route : Route} {m : Method} (h : route.serves m) : m ≠ .options := by
  rintro rfl
  cases route <;> cases h

/-- A demand is met by its handler. -/
theorem serve_of_demand (app : App) (h : r.demand? = some d) : (app.serve r).state = (app.meet d).state
    ∧ (app.serve r).result = (app.meet d).result.map r.present := by
  obtain ⟨route, hroute, hserves, hdemand⟩ := exists_route_of_demand h
  rw [← dispatch_of_demand hdemand, serve, if_neg (ne_options_of_serves hserves), hroute]
  simp only [if_pos hserves]
  split
  · next hhead =>
    have hpresent : r.present = Answer.withoutBody := funext fun a => if_pos hhead
    rw [hpresent]
    exact ⟨rfl, rfl⟩
  · next hhead =>
    have hpresent : r.present = id := funext fun a => if_neg hhead
    rw [hpresent]
    cases (app.dispatch r route).result <;> exact ⟨rfl, rfl⟩

/-- A request that comes to no demand is answered without a change. If its path leads to the cache and
it does not just ask what is allowed, it is turned down, and not for an unknown key. -/
theorem serve_of_no_demand (app : App) (h : r.demand? = none) : ∃ a, app.serve r = app.unchanged a
    ∧ ∀ route, Route.ofTarget? r.target = some route → route ∉ [.broadcast, .stats, .health] →
      r.method ≠ .options → 400 ≤ a.status ∧ a.status ≠ 404 := by
  rw [serve]
  dsimp only
  split
  · next hmethod => exact ⟨_, rfl, fun _ _ _ hother => absurd hmethod hother⟩
  · cases hroute : Route.ofTarget? r.target with
    | none => exact ⟨_, rfl, fun _ hsome => nomatch hsome⟩
    | some route =>
      dsimp only
      split
      · next hserves =>
        rw [Request.demand?, hroute, Option.filter_some_pos (p := (Route.serves · r.method)) hserves,
          Option.bind_some] at h
        obtain ⟨a, ha, hstatus⟩ := dispatch_of_no_demand app h
        rw [ha]
        split
        · exact ⟨a.withoutBody, rfl, fun _ hsame helsewhere _ => hstatus (Option.some.inj hsame ▸ helsewhere)⟩
        · exact ⟨a, rfl, fun _ hsame helsewhere _ => hstatus (Option.some.inj hsame ▸ helsewhere)⟩
      · exact ⟨_, rfl, fun _ _ _ _ => ⟨Nat.le_add_right 400 5, Nat.succ_ne_self 404⟩⟩

/-- The cache as an application uses it by itself. -/
def session (app : App) : Session String := { cache := app.cache }

/-- What an event is for an application that uses the cache by itself. -/
def command (app : App) : Event → Command String
  | .request r => (r.demand?.map (Demand.command app.defaultTtl)).getD .size
  | .advance millis => .advance millis
  | .shutdown => .shutdown

/-- Meeting a demand is carrying out its command. -/
theorem meet_session (app : App) (d : Demand) :
    (app.meet d).state.session = (app.session.perform (d.command app.defaultTtl)).1 := by
  cases d with
  | set record =>
    rw [meet, set, Demand.command]
    cases record.unfit? <;> rfl
  | get key =>
    rw [meet, get, Demand.command, Session.perform, Session.get]
    change ({ cache := (app.cache.get key).state } : Session String) = _
    split <;> rfl
  | delete key => rfl
  | uncacheLike pattern => rfl

/-- To the cache what an event does by itself is what its command does. -/
theorem handle_session (app : App) (e : Event) :
    (app.handle e).state.session = (app.session.perform (app.command e)).1 := by
  cases e with
  | request r =>
    change (app.serve r).state.session = _
    rw [command]
    cases hdemand : r.demand? with
    | some d =>
      rw [(serve_of_demand app hdemand).1]
      exact meet_session app d
    | none =>
      obtain ⟨a, ha, -⟩ := serve_of_no_demand app hdemand
      rw [ha]
      rfl
  | advance millis => rfl
  | shutdown => rfl

/-- To the cache an event is its command. -/
theorem step_session (app : App) (e : Event) :
    (app.step e).state.session = (app.session.step (app.command e)).1 := by
  change _ = { (app.session.perform (app.command e)).1 with
    cache := (app.session.perform (app.command e)).1.cache.settle }
  rw [← handle_session]
  rfl

/-- The commands of an event are plain. -/
theorem command_isPlain (app : App) (e : Event) : (app.command e).isPlain := by
  cases e with
  | request r =>
    rw [command]
    cases r.demand? with
    | none => rfl
    | some d =>
      cases d with
      | set record =>
        rw [Option.map_some, Option.getD_some, Demand.command]
        split <;> rfl
      | get | delete | uncacheLike => rfl
  | advance | shutdown => rfl

/-- What some events are for an application that uses the cache by itself. -/
def commands (app : App) : List Event → List (Command String)
  | [] => []
  | e :: rest => app.command e :: (app.step e).state.commands rest

/-- To the cache events are their commands. -/
theorem run_session (app : App) (events : List Event) :
    (app.run events).session = app.session.run (app.commands events) := by
  induction events generalizing app with
  | nil => rfl
  | cons e rest ih =>
    rw [commands]
    change ((app.step e).state.run rest).session = (app.session.step (app.command e)).1.run _
    rw [ih, step_session]

/-- The commands of events are plain. -/
theorem isPlain_of_mem_commands {events : List Event} {c : Command String}
    (h : c ∈ app.commands events) : c.isPlain := by
  induction events generalizing app with
  | nil => cases h
  | cons e rest ih =>
    rcases List.mem_cons.mp h with rfl | h
    · exact app.command_isPlain e
    · exact ih h

end App

end TimedCache.Admin
