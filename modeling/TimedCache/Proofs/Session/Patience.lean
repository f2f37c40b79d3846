import TimedCache.Proofs.Durations
import TimedCache.Proofs.Session.Beats
import TimedCache.Proofs.Session.Listening

/-!
# More patience

The idle timeout is read in one place only: a sweeper that wakes compares it with the time since the last
use. So a cache with another idle timeout does everything as before, up to the first wake-up at which the
two timeouts disagree, and a longer timeout disagrees with a shorter one only where the shorter one would
have the sweeper retire. This takes that milliseconds are counted in full: what counts is the low 64 bits
of the timeout, and those of a longer one may be fewer.
-/

namespace TimedCache

variable {V : Type}

namespace Cache

/-- The cache with another idle timeout. -/
def withPatience (c : Cache V) (timeout : Duration) : Cache V :=
  { c with settings := { c.settings with idleTimeout := timeout } }

variable (c : Cache V) (timeout : Duration)

@[simp] theorem withPatience_sweeper : (c.withPatience timeout).sweeper = c.sweeper := rfl

@[simp] theorem withPatience_host : (c.withPatience timeout).host = c.host := rfl

@[simp] theorem withPatience_multicast :
    (c.withPatience timeout).settings.multicast = c.settings.multicast := rfl

/-- How long a sweeper is content with an idle store does not matter to its listener. -/
theorem acquireListener_withPatience (sw : Sweeper) :
    (c.withPatience timeout).acquireListener sw = (c.acquireListener sw).withPatience timeout := by
  rw [acquireListener, acquireListener, withPatience_multicast]
  cases c.settings.multicast with
  | none => rfl
  | some group =>
    dsimp only
    rw [withPatience_host]
    cases Listener.bind c.host group with
    | ok address => rfl
    | error fault =>
      cases fault with
      | io failure =>
        dsimp only
        split
        · split <;> rfl
        · rfl
      | _ => rfl

theorem ensureSweeper_withPatience :
    (c.withPatience timeout).ensureSweeper = c.ensureSweeper.withPatience timeout := by
  rw [ensureSweeper, ensureSweeper, apply_ite (withPatience · timeout)]
  exact if_congr Iff.rfl rfl (acquireListener_withPatience (c.note _) timeout _)

theorem renewListener_withPatience (sw : Sweeper) :
    (c.withPatience timeout).renewListener sw = (c.renewListener sw).withPatience timeout := by
  rw [renewListener, renewListener, apply_ite (withPatience · timeout)]
  exact if_congr Iff.rfl (acquireListener_withPatience c timeout _) rfl

theorem pass_withPatience (sw : Sweeper) :
    (c.withPatience timeout).pass sw = (c.pass sw).withPatience timeout := by
  have hran : (c.withPatience timeout).store.sweep (c.withPatience timeout).wall = c.store.sweep c.wall := rfl
  rw [pass, pass, hran]
  split <;> rfl

theorem retire_withPatience (sw : Sweeper) :
    (c.withPatience timeout).retire sw = (c.retire sw).withPatience timeout := by
  have hran : (c.withPatience timeout).store.drain (c.withPatience timeout).wall = c.store.drain c.wall := rfl
  rw [retire, retire, hran]
  split <;> rfl

theorem shutdown_withPatience :
    (c.withPatience timeout).shutdown.state = c.shutdown.state.withPatience timeout := by
  rw [shutdown_state, shutdown_state, withPatience_sweeper]
  cases c.sweeper with
  | none => rfl
  | some sw =>
    exact congrArg (fun d => d.drain.state)
      (retire_withPatience ({ c with closed := true }.note .shutdownRequested) timeout sw)

theorem touching_withPatience {α : Type} (f : Store V → WallTime → Store.Op V α) :
    (c.withPatience timeout).touching f
      = ⟨(c.touching f).state.withPatience timeout, (c.touching f).result⟩ := by
  have hran : (c.withPatience timeout).onStore f
      = ⟨(c.onStore f).state.withPatience timeout, (c.onStore f).result⟩ := rfl
  rw [touching, touching, hran]
  cases hresult : (c.onStore f).result with
  | ok a =>
    rw [Ran.andThen_of_ok hresult, Ran.andThen_of_ok rfl, ensureSweeper_withPatience]
    rfl
  | error p => rw [Ran.andThen_of_error hresult, Ran.andThen_of_error rfl]

theorem receive_withPatience (payload : List UInt8) : (c.withPatience timeout).receive payload
    = ((c.receive payload).1.withPatience timeout, (c.receive payload).2) := by
  rw [receive, receive]
  split <;> rfl

theorem deliverTo_withPatience (payload : List UInt8) (listener : Nat) :
    (c.withPatience timeout).deliverTo payload listener
      = ((c.deliverTo payload listener).1.withPatience timeout, (c.deliverTo payload listener).2) := by
  rw [deliverTo, deliverTo, receive_withPatience]
  dsimp only
  split <;> rfl

theorem deliverToEach_withPatience (payload : List UInt8) (listeners : List Nat) :
    deliverToEach payload listeners (c.withPatience timeout)
      = ((deliverToEach payload listeners c).1.withPatience timeout,
        (deliverToEach payload listeners c).2) := by
  induction listeners generalizing c with
  | nil => rfl
  | cons listener rest ih =>
    rw [deliverToEach, deliverToEach]
    dsimp only
    rw [deliverTo_withPatience, ih]

/-- A sweeper that keeps running when it wakes does the same with a longer timeout, if that counts as
many milliseconds or more. -/
theorem wake_withPatience {c : Cache V} {timeout : Duration}
    (hword : c.settings.idleTimeout.wordMillis ≤ timeout.wordMillis) (hstays : c.wake.sweeperRunning) :
    (c.withPatience timeout).wake = c.wake.withPatience timeout := by
  cases hsweeper : c.sweeper with
  | none =>
    have hsweeper' : (c.withPatience timeout).sweeper = none := hsweeper
    rw [wake_of_sweeper_eq_none hsweeper, wake_of_sweeper_eq_none hsweeper']
  | some sw =>
    have hused : ¬ c.settings.idleTimeout.wordMillis ≤ c.store.useAge c.wall := by
      intro hidle
      rw [wake, hsweeper] at hstays
      dsimp only at hstays
      rw [if_pos hidle, sweeperRunning, retire_sweeper] at hstays
      cases hstays
    have hused' : ¬ (c.withPatience timeout).settings.idleTimeout.wordMillis
        ≤ (c.withPatience timeout).store.useAge (c.withPatience timeout).wall :=
      fun hidle => hused (Nat.le_trans hword hidle)
    rw [wake, wake, withPatience_sweeper, hsweeper]
    dsimp only
    rw [if_neg hused, if_neg hused', renewListener_withPatience, pass_withPatience]
    rfl

/-- Where no wake-up ends the sweeper, the wake-ups up to a timer position are the same with a longer
timeout, and none of them ends it. -/
theorem wakeUntil_withPatience {c : Cache V} {timeout : Duration}
    (hword : c.settings.idleTimeout.wordMillis ≤ timeout.wordMillis) {target fuel : Nat}
    (hstays : ∀ d ∈ wakingsUntil target fuel c, d.wake.sweeperRunning) :
    wakeUntil target fuel (c.withPatience timeout) = (wakeUntil target fuel c).withPatience timeout
      ∧ ∀ d ∈ wakingsUntil target fuel (c.withPatience timeout), d.wake.sweeperRunning := by
  induction fuel generalizing c with
  | zero => exact ⟨rfl, List.forall_mem_nil _⟩
  | succ fuel ih =>
    rw [wakeUntil, wakeUntil, wakingsUntil, withPatience_sweeper]
    rw [wakingsUntil] at hstays
    cases hsweeper : c.sweeper with
    | none => exact ⟨rfl, List.forall_mem_nil _⟩
    | some sw =>
      rw [hsweeper] at hstays
      dsimp only at hstays ⊢
      have hnext : (c.withPatience timeout).nextWake sw = c.nextWake sw := rfl
      have hrun : (c.withPatience timeout).runTo (c.nextWake sw)
          = (c.runTo (c.nextWake sw)).withPatience timeout := rfl
      rw [hnext, hrun]
      split
      · next hreached =>
        rw [if_pos hreached] at hstays
        obtain ⟨hfirst, hlater⟩ := List.forall_mem_cons.mp hstays
        have hwake := wake_withPatience (c := c.runTo (c.nextWake sw)) hword hfirst
        have hkept : (c.runTo (c.nextWake sw)).wake.settings.idleTimeout.wordMillis ≤ timeout.wordMillis := by
          rw [wake_settings]
          exact hword
        rw [hwake]
        obtain ⟨hrest, hstays'⟩ := ih hkept hlater
        exact ⟨hrest, List.forall_mem_cons.mpr ⟨hwake ▸ hfirst, hstays'⟩⟩
      · exact ⟨rfl, List.forall_mem_nil _⟩

/-- Where settling does not end the sweeper, it does the same with a longer timeout. -/
theorem settle_withPatience {c : Cache V} {timeout : Duration}
    (hword : c.settings.idleTimeout.wordMillis ≤ timeout.wordMillis)
    (hstays : ∀ d ∈ c.settlings, d.wake.sweeperRunning) :
    (c.withPatience timeout).settle = c.settle.withPatience timeout
      ∧ ∀ d ∈ (c.withPatience timeout).settlings, d.wake.sweeperRunning := by
  have htimer : (c.withPatience timeout).timer = c.timer := rfl
  rw [settlings] at hstays
  rw [settle, settle, settlings, withPatience_sweeper, htimer]
  cases hsweeper : c.sweeper with
  | none => exact ⟨rfl, List.forall_mem_nil _⟩
  | some sw =>
    rw [hsweeper] at hstays
    dsimp only at hstays ⊢
    split
    · next hdue =>
      rw [if_pos hdue] at hstays
      have hrunning : c.wake.sweeperRunning := hstays c (List.mem_singleton_self c)
      have hwake := wake_withPatience hword hrunning
      refine ⟨hwake, fun d hd => ?_⟩
      rw [List.mem_singleton.mp hd, hwake]
      exact hrunning
    · exact ⟨rfl, List.forall_mem_nil _⟩

end Cache

namespace Session

open Cache

/-- The session whose cache has another idle timeout. -/
def withPatience (s : Session V) (timeout : Duration) : Session V :=
  { s with cache := s.cache.withPatience timeout }

variable (s : Session V) (timeout : Duration)

/-- Storing an entry is the same with another timeout, whatever changed in the store before. -/
theorem put_withPatience {store : Store V} (key : String) (e : Entry V) :
    (Cache.put { s.cache.withPatience timeout with store } key e).state
      = (Cache.put { s.cache with store } key e).state.withPatience timeout :=
  congrArg Ran.state (touching_withPatience { s.cache with store } timeout fun st t => st.put t key e)

theorem putHeld_withPatience (key : String) (holding : Holding V) (ttl : Duration) :
    ((s.withPatience timeout).putHeld key holding ttl).1
      = (s.putHeld key holding ttl).1.withPatience timeout := by
  have howners : (s.withPatience timeout).owners = s.owners := rfl
  rw [putHeld, putHeld, howners]
  split
  · rfl
  · exact congrArg (Session.mk · s.listener) (s.put_withPatience timeout _ _)

theorem reviseCustom_withPatience (id : Name) (expired : Option Bool) (value : Option (Option V)) :
    (s.withPatience timeout).reviseCustom id expired value
      = (s.reviseCustom id expired value).withPatience timeout := by
  have howners : (s.withPatience timeout).owners = s.owners := rfl
  rw [reviseCustom, reviseCustom, howners]
  split
  · rfl
  · split <;> rfl

theorem get_withPatience (key : String) (keep : Option Name) :
    ((s.withPatience timeout).get key keep).1 = (s.get key keep).1.withPatience timeout := by
  have hran : (s.withPatience timeout).cache.get key
      = ⟨(s.cache.get key).state.withPatience timeout, (s.cache.get key).result⟩ :=
    touching_withPatience s.cache timeout fun st t => st.get t key
  rw [get, get, hran]
  dsimp only
  split
  · rfl
  · rfl
  · split <;> rfl

theorem receive_withPatience (payload : List UInt8) :
    ((s.withPatience timeout).receive payload).1 = (s.receive payload).1.withPatience timeout := by
  have hlistener : (s.withPatience timeout).listener = s.listener := rfl
  have hcache : (s.withPatience timeout).cache.receive payload
      = ((s.cache.receive payload).1.withPatience timeout, (s.cache.receive payload).2) :=
    Cache.receive_withPatience s.cache timeout payload
  rw [receive, receive, hlistener, hcache]
  split <;> rfl

theorem receiveFromGroup_withPatience (payload : List UInt8) :
    ((s.withPatience timeout).receiveFromGroup payload).1
      = (s.receiveFromGroup payload).1.withPatience timeout := by
  have hcache : (s.withPatience timeout).cache.receiveFromGroup payload
      = ((s.cache.receiveFromGroup payload).1.withPatience timeout, (s.cache.receiveFromGroup payload).2) :=
    deliverToEach_withPatience s.cache timeout payload s.cache.listeners
  rw [receiveFromGroup, receiveFromGroup, hcache]
  rfl

theorem overLoopback_withPatience {payload : List UInt8}
    {deliver : Session V → List UInt8 → Session V × Reply V}
    (h : (deliver (s.withPatience timeout) payload).1 = (deliver s payload).1.withPatience timeout) :
    ((s.withPatience timeout).overLoopback payload deliver).1
      = (s.overLoopback payload deliver).1.withPatience timeout := by
  have hhost : (s.withPatience timeout).cache.host = s.cache.host := rfl
  rw [overLoopback, overLoopback, hhost]
  split
  · rfl
  · exact h

theorem send_withPatience (pattern : String) :
    ((s.withPatience timeout).send pattern).1 = (s.send pattern).1.withPatience timeout := by
  have hhost : (s.withPatience timeout).cache.host = s.cache.host := rfl
  rw [send, send, hhost]
  split
  · rfl
  · exact s.receive_withPatience timeout _

/-- A command that takes no time does the same with another timeout. -/
theorem perform_withPatience {c : Command V} (hadvance : ∀ millis, c ≠ .advance millis) :
    ((s.withPatience timeout).perform c).1 = (s.perform c).1.withPatience timeout := by
  cases c with
  | advance millis => exact absurd rfl (hadvance millis)
  | store | storeEntry | storeCustom =>
    exact congrArg (Session.mk · s.listener) (s.put_withPatience timeout _ _)
  | storeHeld key holding ttl => exact s.putHeld_withPatience timeout key holding ttl
  | reviseCustom id expired value => exact s.reviseCustom_withPatience timeout id expired value
  | readSoft handle =>
    have howners : (s.withPatience timeout).owners = s.owners := rfl
    rw [perform, perform, howners]
    split <;> rfl
  | get key keep => exact s.get_withPatience timeout key keep
  | uncache key =>
    exact congrArg (fun ran => Session.mk ran.state s.listener)
      (touching_withPatience s.cache timeout fun st t => st.uncache t key)
  | ensureSweeper =>
    exact congrArg (Session.mk · s.listener) (ensureSweeper_withPatience s.cache timeout)
  | shutdown => exact congrArg (Session.mk · s.listener) (shutdown_withPatience s.cache timeout)
  | datagram payload => exact s.overLoopback_withPatience timeout (s.receive_withPatience timeout payload)
  | groupDatagram payload =>
    exact s.overLoopback_withPatience timeout (s.receiveFromGroup_withPatience timeout payload)
  | send pattern => exact s.send_withPatience timeout pattern
  | _ => rfl

variable {s timeout} {c : Command V}

/-- Where a command has done the same with a longer timeout, so does settling after it if that does not end
the sweeper. -/
theorem settle_after_withPatience (hword : s.cache.settings.idleTimeout.wordMillis ≤ timeout.wordMillis)
    (hperform : ((s.withPatience timeout).perform c).1 = (s.perform c).1.withPatience timeout)
    (hstays : ∀ d ∈ (s.perform c).1.cache.settlings, d.wake.sweeperRunning) :
    ((s.withPatience timeout).step c).1 = (s.step c).1.withPatience timeout
      ∧ ∀ d ∈ ((s.withPatience timeout).perform c).1.cache.settlings, d.wake.sweeperRunning := by
  have hkept : (s.perform c).1.cache.settings.idleTimeout.wordMillis ≤ timeout.wordMillis := by
    rw [perform_settings]
    exact hword
  obtain ⟨hsettled, hstill⟩ := settle_withPatience hkept hstays
  refine ⟨?_, hperform ▸ hstill⟩
  change Session.mk ((s.withPatience timeout).perform c).1.cache.settle
    ((s.withPatience timeout).perform c).1.listener = _
  rw [hperform]
  exact congrArg (Session.mk · (s.perform c).1.listener) hsettled

/-- A command does the same with a longer timeout where no wake-up ends the sweeper, and then none does so
with the longer timeout. -/
theorem step_withPatience (hword : s.cache.settings.idleTimeout.wordMillis ≤ timeout.wordMillis)
    (hstays : ∀ d ∈ s.wakingsOf c, d.wake.sweeperRunning) :
    ((s.withPatience timeout).step c).1 = (s.step c).1.withPatience timeout
      ∧ ∀ d ∈ (s.withPatience timeout).wakingsOf c, d.wake.sweeperRunning := by
  obtain ⟨hduring, hafter⟩ := List.forall_mem_append.mp hstays
  cases c with
  | advance millis =>
    obtain ⟨hwoken, hstill⟩ := wakeUntil_withPatience hword hduring
    have hperform : ((s.withPatience timeout).perform (.advance millis)).1
        = (s.perform (.advance millis)).1.withPatience timeout :=
      congrArg (fun d => Session.mk (d.runTo (s.cache.timer + millis)) s.listener) hwoken
    obtain ⟨hstep, hsettled⟩ := settle_after_withPatience hword hperform hafter
    exact ⟨hstep, List.forall_mem_append.mpr ⟨hstill, hsettled⟩⟩
  | _ =>
    obtain ⟨hstep, hsettled⟩ := settle_after_withPatience hword
      (s.perform_withPatience timeout (by rintro _ ⟨⟩)) hafter
    exact ⟨hstep, List.forall_mem_append.mpr ⟨List.forall_mem_nil _, hsettled⟩⟩

/-- A run is the same with a longer timeout where no wake-up ends a sweeper, and then none does so with the
longer timeout. -/
theorem run_withPatience (hword : s.cache.settings.idleTimeout.wordMillis ≤ timeout.wordMillis)
    {commands : List (Command V)} (hstays : ∀ d ∈ s.wakings commands, d.wake.sweeperRunning) :
    (s.withPatience timeout).run commands = (s.run commands).withPatience timeout
      ∧ ∀ d ∈ (s.withPatience timeout).wakings commands, d.wake.sweeperRunning := by
  induction commands generalizing s with
  | nil => exact ⟨rfl, List.forall_mem_nil _⟩
  | cons c rest ih =>
    obtain ⟨hfirst, hlater⟩ := List.forall_mem_append.mp hstays
    obtain ⟨hstep, hnow⟩ := step_withPatience hword hfirst
    have hkept : (s.step c).1.cache.settings.idleTimeout.wordMillis ≤ timeout.wordMillis := by
      have hsettings : (s.step c).1.cache.settings = s.cache.settings :=
        settle_invariant (P := fun d => d.settings = s.cache.settings)
          (fun d hd => d.wake_settings.trans hd) (s.perform_settings c)
      rw [hsettings]
      exact hword
    obtain ⟨hrest, hstill⟩ := ih hkept hlater
    rw [← hstep] at hrest hstill
    exact ⟨hrest, List.forall_mem_append.mpr ⟨hnow, hstill⟩⟩

/-- Of two new caches that differ in their idle timeouts only, whatever is done to both, panics of hooks
included: as long as no sweeper of the one with the shorter timeout has retired by itself, no sweeper of
the other has, and the other has the same sweeper, the same store and the same reports. The longer timeout
has to be shorter than `2 ^ 64` milliseconds. -/
theorem longer_patience_keeps_sweeper (settings : Settings) (hosted : Bool) (host : Host) (wall : WallTime)
    (commands : List (Command V)) {longer : Duration} (hlonger : settings.idleTimeout ≤ longer)
    (hcounted : longer.millis < Word.bound) :
    let start : Session V := opened settings hosted host wall
    let patient : Session V := opened { settings with idleTimeout := longer } hosted host wall
    (∀ c ∈ start.wakings commands, c.wake.sweeperRunning) →
      (∀ c ∈ patient.wakings commands, c.wake.sweeperRunning)
      ∧ patient.run commands = (start.run commands).withPatience longer := by
  intro start patient hstays
  obtain ⟨hrun, hstill⟩ := run_withPatience (s := start) (Duration.wordMillis_mono hlonger hcounted) hstays
  exact ⟨hstill, hrun⟩

/-- A sweeper that wakes every second. -/
def everySecond (timeout : Duration) : Settings := { sweepInterval := .ofSeconds 1, idleTimeout := timeout }

/-- A value is stored, and a second passes. -/
def secondRun : List (Command Nat) := [.store "a" 1 ⟨0, 0⟩ none, .advance 1000]

/-- The sweeper that is content with an hour without use is there after a second, and so is the one that is
content with the longest timeout that a word can count. -/
theorem longer_patience_keeps_sweeper_longest :
    let longest := Duration.ofSeconds 18446744073709551
    (everySecond (.ofSeconds 3600)).idleTimeout ≤ longest ∧ longest.millis < Word.bound
      ∧ ((opened (everySecond longest) true { link := .connected } 0).run secondRun).cache.sweeperRunning := by
  intro longest
  have hlonger : (everySecond (.ofSeconds 3600)).idleTimeout ≤ longest := by decide
  have hcounted : longest.millis < Word.bound := by decide
  obtain ⟨-, hrun⟩ := longer_patience_keeps_sweeper (everySecond (.ofSeconds 3600)) true
    { link := .connected } 0 secondRun hlonger hcounted (by decide)
  refine ⟨hlonger, hcounted, ?_⟩
  change ((opened { everySecond (.ofSeconds 3600) with idleTimeout := longest } true
    { link := .connected } 0).run secondRun).cache.sweeperRunning
  rw [hrun]
  decide

/-- One second more, and the sweeper that is content with so much retires after the first second and empties
the store, where the one that is content with an hour stays. -/
theorem long_patience_cut_short :
    let hour := Duration.ofSeconds 3600
    let longest := Duration.ofSeconds 18446744073709552
    let kept := (opened (everySecond hour) true { link := .connected } 0).run secondRun
    let lost := (opened (everySecond longest) true { link := .connected } 0).run secondRun
    hour ≤ longest ∧ kept.cache.sweeperRunning ∧ kept.cache.store.size = 1
      ∧ lost.cache.sweeperRunning = false ∧ lost.cache.store.size = 0 := by
  decide

end Session

end TimedCache
