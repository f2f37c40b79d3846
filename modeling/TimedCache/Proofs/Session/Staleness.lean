import TimedCache.Proofs.Session.Waking
import TimedCache.Proofs.Store.Regardless

/-!
# How long a stale entry stays

No look-up is needed to get rid of an entry whose time is over: the sweeper does it within one sweep
interval. Whenever there is an entry in an open cache a sweeper is running, and it wakes before the
time of the entry has been over for a pause. It either sweeps then, after which no time is over, or
it retires and leaves nothing behind; a use that starts another sweeper later finds an empty store.
-/

namespace TimedCache

variable {V : Type}

namespace Cache

/-- A sweeper is running, and wakes before the time of the entry has been over for a pause. -/
def Watches (pause : Nat) (c : Cache V) (e : Entry V) : Prop :=
  ∃ due, c.dueAt = some due ∧ ∀ limit, e.expiresAt? = some limit →
    c.wall.stamp + (due - c.timer) ≤ limit + pause

/-- The cache is open and its store is calm but for alarms. All wake-ups that are due are done, the
next one is no more than a pause away, and every entry is watched. -/
structure Vigilant (pause : Nat) (c : Cache V) : Prop where
  isOpen : c.isOpen
  paused : c.settings.sweepInterval.pause = pause
  calm : c.store.muted.Calm
  ahead : ∀ due, c.dueAt = some due → c.timer < due ∧ due ≤ c.timer + pause
  watches : ∀ p ∈ c.store.entries, c.Watches pause p.2

/-- A sweeper that wakes when it is due either retires, which leaves nothing, or sweeps, which leaves
no entry whose time is over. -/
theorem vigilant_wake {pause : Nat} {c : Cache V} (hopen : c.isOpen)
    (hpaused : c.settings.sweepInterval.pause = pause) (hpause : 0 < pause) (hcalm : c.store.muted.Calm)
    (hdue : c.dueAt = some c.timer) (hreturned : ∀ o ∈ c.store.history c.wakeActions, o.returned) :
    c.wake.Vigilant pause := by
  have hafter : c.wake.store.muted.Calm := by
    rw [wake_store]
    exact hcalm.muted_follow hreturned
  have hisOpen : c.wake.isOpen := by rwa [wake_isOpen]
  have hsame : c.wake.settings.sweepInterval.pause = pause := by rwa [wake_settings]
  obtain ⟨-, hactions, hnone⟩ | ⟨-, hactions, hnext⟩ := c.wake_dueAt hdue
  · have hempty : c.wake.store.entries = [] := by
      rw [wake_store, hactions]
      exact c.store.drain_entries c.wall
    exact ⟨hisOpen, hsame, hafter, by simp [hnone], by simp [hempty]⟩
  · have hsweep : (c.store.sweep c.wall).returned :=
      hreturned ⟨c.store, .sweep c.wall⟩ (hactions ▸ List.mem_singleton_self _)
    rw [hpaused] at hnext
    refine ⟨hisOpen, hsame, hafter, ?_, ?_⟩
    · intro due hsome
      rw [hnext] at hsome
      rw [← Option.some.inj hsome, wake_timer]
      omega
    · intro p hp
      rw [wake_store, hactions] at hp
      refine ⟨c.timer + pause, hnext, fun limit hlimit => ?_⟩
      have hlater : c.wall.stamp ≤ limit := hcalm.le_limit_of_sweep hsweep hp hlimit
      rw [wake_wall, wake_timer, Nat.add_sub_cancel_left]
      exact Nat.add_le_add_right hlater pause

namespace Vigilant

variable {pause : Nat} {c : Cache V}

/-- The clocks may run on until the sweeper is due. -/
theorem runTo (h : c.Vigilant pause) {timer : Nat} (hlater : c.timer ≤ timer)
    (hbefore : ∀ due, c.dueAt = some due → timer < due) : (c.runTo timer).Vigilant pause := by
  refine ⟨h.isOpen, h.paused, h.calm, ?_, ?_⟩
  · intro due hdue
    have hnext := (h.ahead due hdue).2
    exact ⟨hbefore due hdue, Nat.le_trans hnext (Nat.add_le_add_right hlater _)⟩
  · intro p hp
    obtain ⟨due, hdue, hlimits⟩ := h.watches p hp
    have hnext := hbefore due hdue
    have hsplit : timer - c.timer + (due - timer) = due - c.timer := by omega
    have hwall : (c.runTo timer).wall = c.wall + ((timer - c.timer : Nat) : Int) := by
      rw [Cache.runTo, Int.ofNat_sub hlater]
    refine ⟨due, hdue, fun limit hlimit => ?_⟩
    calc (c.runTo timer).wall.stamp + (due - timer)
        ≤ c.wall.stamp + (timer - c.timer) + (due - timer) :=
          Nat.add_le_add_right (hwall ▸ WallTime.stamp_add_le c.wall _) _
      _ = c.wall.stamp + (due - c.timer) := by rw [Nat.add_assoc, hsplit]
      _ ≤ limit + pause := hlimits limit hlimit

/-- No wake-up is due. -/
theorem noneDue (h : c.Vigilant pause) : c.Ahead := fun due hdue => (h.ahead due hdue).1

/-- Time passes, with all wake-ups in it. -/
theorem advance (h : c.Vigilant pause) (hpause : 0 < pause) {millis : Nat}
    (hreturned : ∀ o ∈ c.store.history (c.advanceActions millis), o.returned) :
    (c.advance millis).Vigilant pause := by
  refine (advance_induction (P := Vigilant pause) (fun d hd => hd.paused ▸ hpause)
    (fun d due hd hdue _ _ hnow => ?_) (fun d timer hd => hd.runTo) h h.noneDue hreturned).1
  exact vigilant_wake (c := d.runTo due) hd.isOpen hd.paused hpause hd.calm hdue hnow

end Vigilant

end Cache

/-- The command moves the wall clock by letting time pass alone, does not close the cache, and stores
no entry with a time limit that was not made from a lifetime. -/
def Command.isTimely : Command V → Bool
  | .skew _ | .shutdown => false
  | .storeEntry _ _ _ _ expires _ => expires.isNone
  | _ => true

namespace Session

open Cache

variable {s : Session V} {pause : Nat}

/-- What a timely command puts into the store has a time limit that is not over yet. -/
theorem now_le_limit {c : Command V} (hc : c.isTimely) {a : Action V} (ha : a ∈ s.performActions c)
    {q : String × Entry V} (hq : q ∈ a.stored) {limit : Timestamp}
    (hlimit : q.2.expiresAt? = some limit) : s.now ≤ limit := by
  have hnow : s.now < Word.bound := Word.wrap_lt _
  have hstored : q ∈ (s.performActions c).flatMap Action.stored := List.mem_flatMap.mpr ⟨a, ha, hq⟩
  cases huse : c.isUse with
  | false =>
    have hnone := s.isUse_of_mem_performActions huse ha
    rw [Action.isUse_of_mem_stored hq] at hnone
    cases hnone
  | true =>
    cases c with
    | store key value ttl listener =>
      rw [List.mem_singleton.mp hstored] at hlimit
      exact le_of_expiryOf hnow hlimit
    | storeHeld key holding ttl =>
      rw [performActions, putHeldActions] at hstored
      split at hstored
      · cases hstored
      · rw [List.mem_singleton.mp hstored] at hlimit
        exact le_of_expiryOf hnow hlimit
    | storeEntry key entryKey value ttl expires listener =>
      rw [List.mem_singleton.mp hstored, Option.isNone_iff_eq_none.mp hc] at hlimit
      exact le_of_expiryOf hnow hlimit
    | storeCustom =>
      rw [List.mem_singleton.mp hstored] at hlimit
      cases hlimit
    | get | uncache => cases hstored
    | _ => cases huse

/-- A timely command that takes no time leaves every entry watched: a sweeper that it starts has a
whole pause ahead, and the time of an entry that it stores is not over yet. -/
theorem perform_vigilant (h : s.cache.Vigilant pause) (hpause : 0 < pause) {c : Command V}
    (hinstant : c.isInstant) (hc : c.isTimely)
    (hreturned : ∀ o ∈ s.cache.store.history (s.performActions c), o.returned) :
    (s.perform c).1.cache.Vigilant pause := by
  have hattended := s.perform_attended hinstant
  have hstore := s.perform_store c
  have hopen : (s.perform c).1.cache.isOpen := by
    rw [isOpen, hattended.hosted, hattended.closed]
    exact h.isOpen
  have hahead : ∀ due, (s.perform c).1.cache.dueAt = some due →
      s.cache.timer < due ∧ due ≤ s.cache.timer + pause := by
    intro due hdue
    rcases hattended.dueAt with hsame | ⟨-, -, hstarted⟩
    · exact h.ahead due (hsame ▸ hdue)
    · rw [hstarted, h.paused] at hdue
      have hnext := Option.some.inj hdue
      omega
  refine ⟨hopen, hattended.settings ▸ h.paused, ?_, hattended.timer ▸ hahead, ?_⟩
  · rw [hstore]
    exact h.calm.muted_follow hreturned
  · intro p hp
    rw [hstore] at hp
    rw [Watches, hattended.wall, hattended.timer]
    obtain ⟨q, hq | hq, hlimit⟩ := h.calm.exists_limit hreturned hp
    -- put by the command: a sweeper is running now, if it was not before
    · obtain ⟨a, ha, hstored⟩ := List.mem_flatMap.mp hq
      have hsome := s.perform_dueAt h.isOpen hreturned ⟨a, ha, Action.isUse_of_mem_stored hstored⟩
      obtain ⟨due, hdue⟩ := Option.isSome_iff_exists.mp hsome
      refine ⟨due, hdue, fun limit hsome => Nat.add_le_add ?_ ?_⟩
      · exact now_le_limit hc ha hstored (hlimit ▸ hsome)
      · exact Nat.sub_le_iff_le_add'.mpr (hahead due hdue).2
    -- there before: the sweeper that watched it still does
    · obtain ⟨due, hdue, hlimits⟩ := h.watches q hq
      have hkept : (s.perform c).1.cache.dueAt = s.cache.dueAt := by
        rcases hattended.dueAt with hsame | ⟨-, hnone, -⟩
        · exact hsame
        · rw [hnone] at hdue
          cases hdue
      exact ⟨due, hkept.trans hdue, fun limit hsome => hlimits limit (hlimit ▸ hsome)⟩

/-- A timely command in which no hook panics leaves every entry watched, and nothing to settle. -/
theorem step_vigilant (h : s.cache.Vigilant pause) (hpause : 0 < pause) {c : Command V}
    (hc : c.isTimely) (hreturned : ∀ o ∈ s.cache.store.history (s.performActions c), o.returned) :
    (s.step c).1.cache.Vigilant pause := by
  have hperformed : (s.perform c).1.cache.Vigilant pause := by
    cases hinstant : c.isInstant with
    | true => exact perform_vigilant h hpause hinstant hc hreturned
    | false =>
      cases c with
      | advance millis => exact h.advance hpause hreturned
      | skew | shutdown => cases hc
      | _ => cases hinstant
  change (s.perform c).1.cache.settle.Vigilant pause
  rw [hperformed.noneDue.settle]
  exact hperformed

/-- Timely commands in which no hook panics leave every entry watched. -/
theorem run_vigilant (h : s.cache.Vigilant pause) (hpause : 0 < pause) {commands : List (Command V)}
    (hcommands : ∀ c ∈ commands, c.isTimely) (hreturned : ∀ o ∈ s.history commands, o.returned) :
    (s.run commands).cache.Vigilant pause := by
  induction commands generalizing s with
  | nil => exact h
  | cons c rest ih =>
    obtain ⟨hc, hrest⟩ := List.forall_mem_cons.mp hcommands
    rw [history, script, actions, Store.history_append, Store.history_append] at hreturned
    obtain ⟨hfirst, hlater⟩ := List.forall_mem_append.mp hreturned
    obtain ⟨hperformed, -⟩ := List.forall_mem_append.mp hfirst
    apply ih (step_vigilant h hpause hc hperformed) hrest
    rw [history, step_store]
    exact hlater

/-- A new cache that can run tasks has nothing to watch. -/
theorem opened_vigilant (settings : Settings) (host : Host) (wall : WallTime) :
    (opened settings true host wall : Session V).cache.Vigilant settings.sweepInterval.pause :=
  ⟨rfl, rfl, Store.createdAt_calm wall, fun _ hdue => (nomatch hdue), fun _ hp => (nomatch hp)⟩

/-- After every timely command of a session in which no hook panics, no wake-up of a sweeper is
overdue, and no entry in the store has its time limit behind it by a sweep interval or more, whatever
the sweep interval in whole milliseconds and however often sweepers have retired. -/
theorem staleness_bounded (settings : Settings) (host : Host) (wall : WallTime)
    (hwhole : settings.sweepInterval.nanos % 1000000 = 0)
    (hpositive : 0 < settings.sweepInterval.millis) (commands : List (Command V))
    (hcommands : ∀ c ∈ commands, c.isTimely)
    (hreturned : ∀ o ∈ (opened settings true host wall).history commands, o.returned) :
    let s := (opened settings true host wall).run commands
    (∀ due, s.cache.dueAt = some due → s.cache.timer < due)
      ∧ ∀ p ∈ s.cache.store.entries, ∀ limit, p.2.expiresAt? = some limit →
        s.now < limit + settings.sweepInterval.millis := by
  intro s
  have hvigilant : s.cache.Vigilant settings.sweepInterval.pause :=
    run_vigilant (opened_vigilant settings host wall) (Duration.pause_pos hpositive) hcommands hreturned
  refine ⟨fun due hdue => (hvigilant.ahead due hdue).1, fun p hp limit hlimit => ?_⟩
  obtain ⟨due, hdue, hlimits⟩ := hvigilant.watches p hp
  have hahead := (hvigilant.ahead due hdue).1
  calc s.now < s.now + (due - s.cache.timer) := Nat.lt_add_of_pos_right (Nat.sub_pos_of_lt hahead)
    _ ≤ limit + settings.sweepInterval.pause := hlimits limit hlimit
    _ ≤ limit + settings.sweepInterval.millis := Nat.add_le_add_left (Duration.pause_le_millis hwhole) limit

/-- A sweeper retires and empties the store, and a later use starts another one. An entry that is
stored between two of its wake-ups is stale for a while. -/
def restartRun : List (Command Nat) :=
  [.store "x" 1 (.ofSeconds 0) none, .advance 4000, .store "a" 2 (.ofSeconds 1) none, .advance 600,
    .store "b" 3 (.ofSeconds 1) none, .advance 2300]

/-- The settings for that: the sweeper wakes every second and a half. -/
def restartSettings : Settings := { sweepInterval := ⟨1, 500000000⟩, idleTimeout := .ofSeconds 2 }

/-- An entry whose time has been over for 1300 milliseconds is still there, and for no more than 200
longer. -/
theorem staleness_bounded_restart :
    let s := (opened restartSettings true { link := .connected } 0).run restartRun
    s.now = 6900 ∧ s.cache.dueAt = some 7000
      ∧ s.cache.store.entries.map (fun p => (p.1, p.2.expiresAt?)) = [("b", some 5600)]
      ∧ ∀ p ∈ s.cache.store.entries, ∀ limit, p.2.expiresAt? = some limit →
        s.now < limit + restartSettings.sweepInterval.millis := by
  intro s
  have hcommands : ∀ c ∈ restartRun, c.isTimely := by decide
  have hreturned : ∀ o ∈ (opened restartSettings true { link := .connected } 0).history restartRun,
      o.returned := by decide
  refine ⟨by decide, by decide, by decide, ?_⟩
  exact (staleness_bounded restartSettings { link := .connected } 0 rfl (by decide) restartRun hcommands
    hreturned).2

end Session

end TimedCache
