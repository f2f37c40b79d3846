import Mathlib.Data.List.Induction
import TimedCache.Proofs.Admin.Effects
import TimedCache.Proofs.Session.Enduring
import TimedCache.Proofs.Session.LifeCycle

/-!
# Turns of the interface

What happens to the interface, one turn after the other. A submitted value stays under its key until a
later turn stores another one there, removes the key, or empties the cache; which of these a turn does
can be told by its request, by the answer and by the sweeper. Neither passes of the sweeper nor requests
that are turned down take it away as long as its time is not over.
-/

namespace TimedCache.Admin

/-- Something that happens to the interface, with the state that it meets. -/
structure Turn where
  before : App
  event : Event

namespace App

/-- What happens to the interface, one turn after the other. -/
def history (app : App) : List Event → List Turn
  | [] => []
  | e :: rest => ⟨app, e⟩ :: (app.step e).state.history rest

theorem run_append (app : App) (first second : List Event) :
    app.run (first ++ second) = (app.run first).run second := List.foldl_append ..

theorem history_append (app : App) (first second : List Event) :
    app.history (first ++ second) = app.history first ++ (app.run first).history second := by
  induction first generalizing app with
  | nil => rfl
  | cons e rest ih =>
    rw [List.cons_append, history, ih]
    rfl

end App

/-- The call takes away what is under the key. -/
def Demand.Clears (key : String) : Demand → Prop
  | .set record => record.unfit? = none ∧ record.key = key
  | .get _ => False
  | .delete k => k = key
  | .uncacheLike pattern => pattern.toList <+: key.toList

namespace Turn

/-- The state that the turn leads to. -/
def after (o : Turn) : App := (o.before.step o.event).state

/-- The handler call that the turn comes to, if it is a request that does. -/
def demand? (o : Turn) : Option Demand :=
  match o.event with
  | .request r => r.demand?
  | .advance _ | .shutdown => none

/-- A value was submitted and the answer was that of success. Its lifetime in seconds is the submitted
one, or else that of the interface. -/
def Stores (key value : String) (ttl : Nat) (o : Turn) : Prop :=
  ∃ r answer record, o.event = .request r ∧ r.demand? = some (.set record)
    ∧ (o.before.serve r).result = .ok answer ∧ answer.status = 200
    ∧ record.key = key ∧ record.value = value ∧ record.ttl.getD o.before.defaultTtl = ttl

/-- The sweeper has retired in the course of the turn, and the cache was not closed. -/
def Retires (o : Turn) : Prop :=
  o.event ≠ .shutdown ∧ o.after.cache.sweeperRunning = false
    ∧ (o.before.cache.sweeperRunning ∨ (o.before.handle o.event).state.cache.sweeperRunning)

/-- The turn is the end of what was under the key before: another value is stored there, the key is
removed by itself or with a prefix, the sweeper retires, or the cache is closed. -/
def Ends (key : String) (o : Turn) : Prop :=
  (∃ value ttl, o.Stores key value ttl) ∨ o.demand? = some (.delete key)
    ∨ (∃ pattern, o.demand? = some (.uncacheLike pattern) ∧ pattern.toList <+: key.toList)
    ∨ o.Retires ∨ o.event = .shutdown

/-- The turn puts this entry under the key, whenever it is accessed later. -/
def Puts (key : String) (e : TimedEntry String) (o : Turn) : Prop :=
  ∃ record, o.demand? = some (.set record) ∧ record.unfit? = none ∧ record.key = key
    ∧ (Entry.timed (o.before.entryFor record)).Is e

end Turn

variable {app : App} {d : Demand} {last : WallTime} {key : String} {e : TimedEntry String}

/-- A handler call leaves an entry that endures under the key if it put it there, or if it was there
before and the call does not clear the key. -/
theorem App.meet_holds_iff (key : String) (hs : app.cache.store.Calm) (hendures : e.Endures last)
    (hfrom : 0 ≤ app.cache.wall) (hto : app.cache.wall ≤ last) (d : Demand) :
    (app.meet d).state.cache.store.Holds key e
      ↔ (∃ record, d = .set record ∧ record.unfit? = none ∧ record.key = key
          ∧ (Entry.timed (app.entryFor record)).Is e)
        ∨ (app.cache.store.Holds key e ∧ ¬ d.Clears key) := by
  have hact {s : Store String} (hs : s.Calm) {a : Action String} (ha : a.isPlain)
      (htime : a.time? = some app.cache.wall) : (s.act a).Holds key e ↔ _ :=
    hs.holds_act_iff_of_endures hendures ha fun t ht =>
      Option.some.inj (htime.symm.trans ht) ▸ ⟨hfrom, hto⟩
  -- only a submitted value comes into the store
  have hremoves {a : Action String} (hplain : a.isPlain) (htime : a.time? = some app.cache.wall)
      (hput : ∀ t k x, a ≠ .put t k x) (hset : ∀ record, d ≠ .set record)
      (hclears : a.Clears key ↔ d.Clears key) : (app.cache.store.act a).Holds key e
      ↔ (∃ record, d = .set record ∧ record.unfit? = none ∧ record.key = key
          ∧ (Entry.timed (app.entryFor record)).Is e)
        ∨ (app.cache.store.Holds key e ∧ ¬ d.Clears key) := by
    rw [hact hs hplain htime, hclears, or_iff_right, or_iff_right]
    · rintro ⟨record, h, -⟩
      exact hset record h
    · rintro ⟨_, t, h⟩
      exact hput t key _ h
  cases d with
  | set record =>
    cases hfit : record.unfit? with
    | some u =>
      have hstate : (app.meet (.set record)).state = app := by
        rw [meet, set, hfit]
        rfl
      rw [hstate, or_iff_right]
      · exact (and_iff_left fun hclears => Option.some_ne_none u (hfit.symm.trans hclears.1)).symm
      · rintro ⟨_, hsame, hnone, -⟩
        cases hsame
        cases hfit.symm.trans hnone
    | none =>
      have hcalm : (app.storeFor record).Calm := ⟨hs.quiet, hs.nodup, hs.counted, hs.bounded⟩
      change (app.set record).state.cache.store.Holds key e ↔ _
      rw [(set_of_fit app hfit).1]
      refine (hact (a := .put _ _ _) hcalm rfl rfl).trans (or_congr ?_ ?_)
      · rw [Occasion.exists_puts_iff]
        constructor
        · exact fun hkept => ⟨record, rfl, hfit, hkept⟩
        · rintro ⟨_, hsame, -, hkey, his⟩
          cases hsame
          exact ⟨hkey, his⟩
      · refine and_congr_right fun _ => not_congr ?_
        exact ⟨fun hkey => ⟨hfit, hkey⟩, And.right⟩
  | get k =>
    rw [meet, get]
    change (app.cache.get k).state.store.Holds key e ↔ _
    rw [Cache.get, Cache.touching_store]
    exact hremoves (a := .get _ k) rfl rfl (by simp) (by simp) Iff.rfl
  | delete k =>
    rw [meet, delete]
    change (app.cache.uncache k).state.store.Holds key e ↔ _
    rw [Cache.uncache, Cache.touching_store]
    exact hremoves (a := .uncache _ k) rfl rfl (by simp) (by simp) Iff.rfl
  | uncacheLike pattern => exact hremoves (a := .uncacheLike _ pattern) rfl rfl (by simp) (by simp) Iff.rfl

namespace Turn

variable {o : Turn}

/-- A turn that comes to a demand is a request. -/
theorem exists_request (h : o.demand? = some d) : ∃ r, o.event = .request r ∧ r.demand? = some d := by
  cases hevent : o.event with
  | request r =>
    rw [demand?, hevent] at h
    exact ⟨r, rfl, h⟩
  | advance | shutdown =>
    rw [demand?, hevent] at h
    cases h

/-- A submitted value is answered with success exactly if it is fit to be stored. -/
theorem stores_iff (hs : o.before.cache.store.Calm) {value : String} {ttl : Nat} :
    o.Stores key value ttl ↔ ∃ record, o.demand? = some (.set record) ∧ record.unfit? = none
      ∧ record.key = key ∧ record.value = value ∧ record.ttl.getD o.before.defaultTtl = ttl := by
  constructor
  · rintro ⟨r, answer, record, hevent, hdemand, hanswer, hstatus, hrecord⟩
    refine ⟨record, by rw [demand?, hevent]; exact hdemand, ?_, hrecord⟩
    rcases App.set_cases hs record with ⟨-, turned, hset, hturned⟩ | ⟨hfit, -⟩
    · have hresult := (App.serve_of_demand o.before hdemand).2
      change _ = (o.before.set record).result.map r.present at hresult
      rw [hanswer, hset] at hresult
      rw [Except.ok.inj hresult, r.present_status, hturned] at hstatus
      cases hstatus
    · exact hfit
  · rintro ⟨record, hdemand, hfit, hrecord⟩
    obtain ⟨r, hevent, hrequest⟩ := exists_request hdemand
    rcases App.set_cases hs record with ⟨hunfit, -⟩ | ⟨-, hset, -⟩
    · rw [hfit] at hunfit
      cases hunfit
    · have hresult := (App.serve_of_demand o.before hrequest).2
      change _ = (o.before.set record).result.map r.present at hresult
      rw [hset] at hresult
      exact ⟨r, _, record, hevent, hrequest, hresult, r.present_status _, hrecord⟩

/-- A turn is the end of what was under a key if its handler call clears the key, if the sweeper retires
or if the cache is closed. -/
theorem ends_iff (hs : o.before.cache.store.Calm) : o.Ends key
    ↔ (∃ d, o.demand? = some d ∧ d.Clears key) ∨ o.Retires ∨ o.event = .shutdown := by
  constructor
  · rintro (⟨_, _, hstores⟩ | hdemand | ⟨pattern, hdemand, hpattern⟩ | hlost)
    · obtain ⟨record, hdemand, hfit, hkey, -⟩ := (stores_iff hs).mp hstores
      exact .inl ⟨_, hdemand, hfit, hkey⟩
    · exact .inl ⟨_, hdemand, rfl⟩
    · exact .inl ⟨_, hdemand, hpattern⟩
    · exact .inr hlost
  · rintro (⟨d, hdemand, hclears⟩ | hlost)
    · cases d with
      | set record => exact .inl ⟨_, _, (stores_iff hs).mpr ⟨record, hdemand, hclears.1, hclears.2, rfl, rfl⟩⟩
      | get k => cases hclears
      | delete k => exact .inr (.inl (hclears ▸ hdemand))
      | uncacheLike pattern => exact .inr (.inr (.inl ⟨pattern, hdemand, hclears⟩))
    · exact .inr (.inr (.inr hlost))

/-- A request takes no time, and does not stop a sweeper by itself. -/
theorem handle_request (app : App) (r : Request) :
    (app.handle (.request r)).state.cache.wall = app.cache.wall
      ∧ (app.cache.sweeperRunning → (app.handle (.request r)).state.cache.sweeperRunning) := by
  have hinstant : (app.command (.request r)).isInstant := by
    rw [App.command]
    cases r.demand? with
    | none => rfl
    | some d =>
      cases d with
      | set record =>
        rw [Option.map_some, Option.getD_some, Demand.command]
        split <;> rfl
      | get | delete | uncacheLike => rfl
  have hserved := app.session.perform_served hinstant
  rw [← App.handle_session] at hserved
  exact ⟨hserved.attended.wall, hserved.sweeperRunning⟩

/-- What a turn does by itself leaves an entry that endures under the key if it put it there, or if it
was there before and neither the handler call clears the key nor a sweeper retires meanwhile. -/
theorem handle_holds_iff (key : String) (hs : o.before.cache.store.Calm) (hendures : e.Endures last)
    (hfrom : 0 ≤ o.before.cache.wall) (hto : (o.before.handle o.event).state.cache.wall ≤ last)
    (hopen : o.event ≠ .shutdown) : (o.before.handle o.event).state.cache.store.Holds key e
      ↔ o.Puts key e ∨ (o.before.cache.store.Holds key e ∧ (¬ ∃ d, o.demand? = some d ∧ d.Clears key)
        ∧ (o.before.cache.sweeperRunning → (o.before.handle o.event).state.cache.sweeperRunning)) := by
  obtain ⟨app, event⟩ := o
  cases event with
  | request r =>
    obtain ⟨hwall, hstill⟩ := handle_request app r
    cases hdemand : r.demand? with
    | none =>
      have hnone (d : Demand) : (Turn.mk app (.request r)).demand? ≠ some d :=
        fun h => nomatch hdemand.symm.trans h
      obtain ⟨a, ha, -⟩ := App.serve_of_no_demand app hdemand
      have hstate : (app.handle (.request r)).state = app := congrArg Ran.state ha
      rw [or_iff_right (fun ⟨record, h, _⟩ => hnone _ h)]
      refine Iff.trans (by rw [hstate]) (and_iff_left ⟨fun ⟨d, h, _⟩ => hnone d h, hstill⟩).symm
    | some d =>
      have hsome {d' : Demand} : (Turn.mk app (.request r)).demand? = some d' ↔ d = d' := by
        change r.demand? = some d' ↔ d = d'
        rw [hdemand, Option.some.injEq]
      have hstate : (app.handle (.request r)).state = (app.meet d).state := (App.serve_of_demand app hdemand).1
      have hmeet := App.meet_holds_iff key hs hendures hfrom (hwall ▸ hto) d
      refine Iff.trans (by rw [hstate]) (hmeet.trans (or_congr ?_ (and_congr_right fun _ => ?_)))
      · simp only [Puts, hsome]
      · refine ⟨fun hkept => ⟨fun ⟨d', hd', hclears⟩ => hkept ?_, hstill⟩, fun h hclears => h.1 ⟨d, ?_, hclears⟩⟩
        · exact hsome.mp hd' ▸ hclears
        · exact hsome.mpr rfl
  | advance millis =>
    have hwall : (app.handle (.advance millis)).state.cache.wall = app.cache.wall + millis :=
      (app.cache.advance_clocks millis).2
    have hnone (d : Demand) : (Turn.mk app (.advance millis)).demand? ≠ some d := nofun
    rw [or_iff_right (fun ⟨record, h, _⟩ => hnone _ h)]
    refine (Cache.advance_holds_iff key hs hendures hfrom (hwall ▸ hto)).trans (and_congr_right fun _ => ?_)
    exact (and_iff_right fun ⟨d, h, _⟩ => hnone d h).symm
  | shutdown => exact absurd rfl hopen

/-- What a turn does by itself does not turn the clock back. -/
theorem wall_le_handle (o : Turn) : o.before.cache.wall ≤ (o.before.handle o.event).state.cache.wall := by
  obtain ⟨app, event⟩ := o
  cases event with
  | request r => exact Int.le_of_eq (handle_request app r).1.symm
  | advance millis =>
    change app.cache.wall ≤ (app.cache.advance millis).wall
    rw [(app.cache.advance_clocks millis).2]
    exact Int.le_add_of_nonneg_right (Int.natCast_nonneg _)
  | shutdown =>
    change app.cache.wall ≤ app.cache.shutdown.state.wall
    exact Int.le_of_eq (Cache.shutdown_wall _).symm

/-- The wall clock is not turned back in a turn. -/
theorem wall_le_after (o : Turn) : o.before.cache.wall ≤ o.after.cache.wall := by
  change _ ≤ (o.before.handle o.event).state.cache.settle.wall
  rw [Cache.settle_wall]
  exact o.wall_le_handle

/-- What a turn does by itself leaves a calm store calm. -/
theorem handle_calm (hs : o.before.cache.store.Calm) :
    (o.before.handle o.event).state.cache.store.Calm := by
  change (o.before.handle o.event).state.session.cache.store.Calm
  rw [App.handle_session, Session.perform_store]
  exact hs.follow fun _ => Session.isPlain_of_mem_performActions (o.before.command_isPlain o.event)

/-- Closing the cache leaves nothing in it. -/
theorem after_entries_of_shutdown (h : o.event = .shutdown) : o.after.cache.store.entries = [] := by
  obtain ⟨app, event⟩ := o
  cases h
  change app.cache.shutdown.state.settle.store.entries = []
  have hsettled : app.cache.shutdown.state.settle = app.cache.shutdown.state := by
    rw [Cache.settle, app.cache.shutdown_spec.2.1]
  rw [hsettled, Cache.shutdown_entries]

/-- After a turn an entry that endures is under the key if the turn put it there and the sweeper did not
retire, or if it was there before and the turn is not the end of it. -/
theorem after_holds_iff (hs : o.before.cache.store.Calm) (hendures : e.Endures last)
    (hfrom : 0 ≤ o.before.cache.wall) (hto : o.after.cache.wall ≤ last) :
    o.after.cache.store.Holds key e
      ↔ (o.Puts key e ∧ ¬ o.Retires) ∨ (o.before.cache.store.Holds key e ∧ ¬ o.Ends key) := by
  rw [ends_iff hs]
  by_cases hclosed : o.event = .shutdown
  · refine iff_of_false ?_ ?_
    · rintro ⟨x, hfind, -⟩
      rw [Store.find?, after_entries_of_shutdown hclosed] at hfind
      cases hfind
    · rintro (⟨⟨record, hdemand, -⟩, -⟩ | ⟨-, hkept⟩)
      · rw [demand?, hclosed] at hdemand
        cases hdemand
      · exact hkept (.inr (.inr hclosed))
  · have hwall : (o.before.handle o.event).state.cache.wall ≤ last :=
      Cache.settle_wall (o.before.handle o.event).state.cache ▸ hto
    have hhandle := handle_holds_iff key hs hendures hfrom hwall hclosed
    have hsettle := Cache.settle_holds_iff key (handle_calm hs) hendures
      (Int.le_trans hfrom o.wall_le_handle) hwall
    have hstill : o.after.cache.sweeperRunning → (o.before.handle o.event).state.cache.sweeperRunning :=
      Cache.sweeperRunning_settle
    -- the sweeper is kept from before the turn until after it exactly if it does not retire
    have hkept : ∀ before handled after : Bool, (after → handled) →
        ((before → handled) ∧ (handled → after) ↔ ¬ (after = false ∧ (before ∨ handled))) := by
      decide
    have hretires : ¬ o.Retires ↔ _ := (not_congr (and_iff_right hclosed)).trans
      (hkept o.before.cache.sweeperRunning _ o.after.cache.sweeperRunning hstill).symm
    change (o.before.handle o.event).state.cache.settle.store.Holds key e ↔ _
    rw [hsettle, hhandle]
    constructor
    · rintro ⟨hput | ⟨hheld, hclears, hhandled⟩, hsettled⟩
      · obtain ⟨_, hdemand, -⟩ := id hput
        obtain ⟨r, hevent, -⟩ := exists_request hdemand
        have hhandled := (handle_request o.before r).2
        rw [← hevent] at hhandled
        exact .inl ⟨hput, hretires.mpr ⟨hhandled, hsettled⟩⟩
      · have hstays := hretires.mpr ⟨hhandled, hsettled⟩
        exact .inr ⟨hheld, not_or.mpr ⟨hclears, not_or.mpr ⟨hstays, hclosed⟩⟩⟩
    · rintro (⟨hput, hstays⟩ | ⟨hheld, hkept⟩)
      · exact ⟨.inl hput, (hretires.mp hstays).2⟩
      · obtain ⟨hclears, hlost⟩ := not_or.mp hkept
        obtain ⟨hhandled, hsettled⟩ := hretires.mp (not_or.mp hlost).1
        exact ⟨.inr ⟨hheld, hclears, hhandled⟩, hsettled⟩

end Turn

namespace App

/-- A turn of some events meets the state that the events before it lead to. -/
theorem exists_run_of_mem_history {events : List Event} {o : Turn} (h : o ∈ app.history events) :
    ∃ first rest, events = first ++ o.event :: rest ∧ o.before = app.run first := by
  induction events generalizing app with
  | nil => cases h
  | cons e rest ih =>
    rcases List.mem_cons.mp h with rfl | h
    · exact ⟨[], rest, rfl, rfl⟩
    · obtain ⟨first, later, rfl, hmet⟩ := ih h
      exact ⟨e :: first, later, rfl, hmet⟩

/-- The wall clock is not turned back by events. -/
theorem wall_le_run (app : App) (events : List Event) : app.cache.wall ≤ (app.run events).cache.wall := by
  induction events generalizing app with
  | nil => exact Int.le_refl _
  | cons e rest ih => exact Int.le_trans (Turn.wall_le_after ⟨app, e⟩) (ih _)

/-- Events keep a calm store calm. -/
theorem run_calm (hs : app.cache.store.Calm) (events : List Event) :
    (app.run events).cache.store.Calm := by
  change (app.run events).session.cache.store.Calm
  rw [run_session]
  exact Session.run_calm hs fun _ => isPlain_of_mem_commands

/-- A turn of some events meets a calm store, at a time between the first and the last. -/
theorem before_of_mem_history (hs : app.cache.store.Calm) {events : List Event} {o : Turn}
    (h : o ∈ app.history events) : o.before.cache.store.Calm ∧ app.cache.wall ≤ o.before.cache.wall
      ∧ o.before.cache.wall ≤ (app.run events).cache.wall := by
  obtain ⟨first, rest, rfl, hbefore⟩ := exists_run_of_mem_history h
  rw [hbefore, run_append]
  exact ⟨run_calm hs first, app.wall_le_run first, wall_le_run _ _⟩

/-- An entry that endures is under a key exactly if a turn has put it there, the sweeper did not retire in
that turn, and no turn since then was the end of it. -/
theorem run_holds_iff (hs : app.cache.store.Calm) (hempty : app.cache.store.entries = [])
    (hendures : e.Endures last) (hfrom : 0 ≤ app.cache.wall) {events : List Event}
    (hto : (app.run events).cache.wall ≤ last) : (app.run events).cache.store.Holds key e
      ↔ Since (fun o => o.Puts key e ∧ ¬ o.Retires) (Turn.Ends key) (app.history events) := by
  induction events using List.reverseRecOn with
  | nil =>
    refine iff_of_false ?_ ?_
    · rintro ⟨x, hfind, -⟩
      change app.cache.store.find? key = some x at hfind
      rw [Store.find?, hempty] at hfind
      cases hfind
    · rintro ⟨earlier, o, later, h, -⟩
      exact absurd h (by simp [history])
  | append_singleton front event ih =>
    rw [run_append] at hto ⊢
    rw [history_append]
    let o : Turn := ⟨app.run front, event⟩
    have hbefore : (app.run front).cache.wall ≤ last := Int.le_trans o.wall_le_after hto
    have hlast : o.after.cache.store.Holds key e ↔ _ := Turn.after_holds_iff (run_calm hs front) hendures
      (Int.le_trans hfrom (app.wall_le_run front)) hto
    change o.after.cache.store.Holds key e ↔ Since _ _ (app.history front ++ [o])
    rw [since_concat_iff, hlast, ih hbefore]

/-- What the command of an event puts owns its value. -/
theorem exists_cell_of_put_mem_command {t : WallTime} {k : String} {y : TimedEntry String} {event : Event}
    (h : .put t k (.timed y) ∈ app.session.performActions (app.command event)) :
    ∃ cell, y.holder = .strong cell := by
  cases event with
  | advance millis => cases Session.isRemoval_of_mem_performActions (c := .advance millis) rfl h
  | shutdown => cases Session.isRemoval_of_mem_performActions (c := .shutdown) rfl h
  | request r =>
    rw [command] at h
    cases hdemand : r.demand? with
    | none =>
      rw [hdemand] at h
      cases h
    | some d =>
      rw [hdemand, Option.map_some, Option.getD_some] at h
      cases d with
      | set record =>
        rw [Demand.command] at h
        split at h
        · cases h
        · obtain hput := (List.mem_pair.mp h).resolve_left (by simp)
          cases hput
          exact ⟨_, rfl⟩
      | get k => cases (List.mem_pair.mp h).resolve_left (by simp)
      | delete k => cases List.mem_singleton.mp h
      | uncacheLike pattern => cases List.mem_singleton.mp h

/-- What events put owns its value. -/
theorem exists_cell_of_put_mem {t : WallTime} {k : String} {y : TimedEntry String} {events : List Event}
    (h : .put t k (.timed y) ∈ app.session.script (app.commands events)) :
    ∃ cell, y.holder = .strong cell := by
  induction events generalizing app with
  | nil => cases h
  | cons event rest ih =>
    rcases List.mem_append.mp h with h | h
    · rcases List.mem_append.mp h with h | h
      · exact exists_cell_of_put_mem_command h
      · cases Cache.isRemoval_of_mem_settleActions h
    · rw [← step_session] at h
      exact ih h

/-- Everything that events leave in a cache that was empty is a usual entry that owns its value. -/
theorem run_entries (hs : app.cache.store.Calm) (hempty : app.cache.store.entries = [])
    (events : List Event) : (app.run events).cache.store.AllTimed
      ∧ ∀ key e, (app.run events).cache.store.Holds key e → ∃ cell, e.holder = .strong cell := by
  have hscript : ∀ a ∈ app.session.script (app.commands events), a.isPlain :=
    fun _ => Session.isPlain_of_mem_script fun _ => isPlain_of_mem_commands
  have hstore : (app.run events).cache.store
      = app.cache.store.follow (app.session.script (app.commands events)) := by
    change (app.run events).session.cache.store = _
    rw [run_session, Session.run_store]
    rfl
  have hnone : app.cache.store.AllTimed := by
    intro key x hfind
    rw [Store.find?, hempty] at hfind
    cases hfind
  rw [hstore]
  refine ⟨hs.follow_allTimed hnone hscript, fun key e hheld => ?_⟩
  obtain ⟨_, earlier, o, later, hhistory, ⟨t, hput⟩, -⟩ := (hs.holds_follow_iff hempty hscript).mp hheld
  have hmem : o.action ∈ app.session.script (app.commands events) :=
    Store.action_mem_of_mem_history (hhistory ▸ List.mem_append_right _ List.mem_cons_self)
  rw [hput] at hmem
  obtain ⟨cell, hown⟩ := exists_cell_of_put_mem hmem
  exact ⟨cell, hown⟩

end App

end TimedCache.Admin
