import TimedCache.Proofs.Session.Plain
import TimedCache.Proofs.Store.Regardless

/-!
# Caches that differ in their stores

A sweeper is moved by the clocks, the settings, the host and the latest touch of the store, and by
nothing else that the store holds. So two caches that differ in what their stores hold, and in what
was reported of that, go on alike as long as no hook panics and the latest touches agree.
-/

namespace TimedCache

variable {V : Type}

namespace Cache

/-- The caches differ in nothing but their stores and what was reported. -/
def Twin (c d : Cache V) : Prop := ∃ store notices, d = { c with store, notices }

namespace Twin

variable {c d : Cache V}

theorem settings (h : c.Twin d) : d.settings = c.settings := by
  obtain ⟨_, _, rfl⟩ := h
  rfl

theorem wall (h : c.Twin d) : d.wall = c.wall := by
  obtain ⟨_, _, rfl⟩ := h
  rfl

theorem timer (h : c.Twin d) : d.timer = c.timer := by
  obtain ⟨_, _, rfl⟩ := h
  rfl

theorem host (h : c.Twin d) : d.host = c.host := by
  obtain ⟨_, _, rfl⟩ := h
  rfl

theorem sweeper (h : c.Twin d) : d.sweeper = c.sweeper := by
  obtain ⟨_, _, rfl⟩ := h
  rfl

theorem listeners (h : c.Twin d) : d.listeners = c.listeners := by
  obtain ⟨_, _, rfl⟩ := h
  rfl

/-- The stores may change. -/
theorem withStore (h : c.Twin d) (store store' : Store V) :
    Twin { c with store } { d with store := store' } := by
  obtain ⟨_, _, rfl⟩ := h
  exact ⟨_, _, rfl⟩

/-- The wall clocks of both caches are set. -/
theorem skew (h : c.Twin d) (millis : Int) : (c.skew millis).Twin (d.skew millis) := by
  obtain ⟨_, _, rfl⟩ := h
  exact ⟨_, _, rfl⟩

/-- Both caches move to another host. -/
theorem setHost (h : c.Twin d) (host : Host) : Twin { c with host } { d with host } := by
  obtain ⟨_, _, rfl⟩ := h
  exact ⟨_, _, rfl⟩

/-- Both caches carry out operations on their stores alone. -/
theorem onStore (h : c.Twin d) {α : Type} (f g : Store V → WallTime → Store.Op V α) :
    (c.onStore f).state.Twin (d.onStore g).state := h.withStore _ _

/-- More may be reported. -/
theorem note (h : c.Twin d) (n n' : Notice) : (c.note n).Twin (d.note n') := by
  obtain ⟨_, _, rfl⟩ := h
  exact ⟨_, _, rfl⟩

/-- Both caches try to acquire a listener. -/
theorem acquireListener (h : c.Twin d) (sw : Sweeper) :
    (c.acquireListener sw).Twin (d.acquireListener sw) := by
  obtain ⟨_, _, rfl⟩ := h
  rw [Cache.acquireListener, Cache.acquireListener]
  cases c.settings.multicast with
  | none => exact ⟨_, _, rfl⟩
  | some group =>
    dsimp only
    cases Listener.bind c.host group with
    | ok address => exact ⟨_, _, rfl⟩
    | error fault =>
      cases fault with
      | io failure =>
        dsimp only
        split
        · split <;> exact ⟨_, _, rfl⟩
        · exact ⟨_, _, rfl⟩
      | _ => exact ⟨_, _, rfl⟩

/-- Both caches start a sweeper, or neither does. -/
theorem ensureSweeper (h : c.Twin d) : c.ensureSweeper.Twin d.ensureSweeper := by
  obtain ⟨store, notices, rfl⟩ := h
  rw [Cache.ensureSweeper, Cache.ensureSweeper, sweeperRunning, sweeperRunning]
  dsimp only
  split
  · exact ⟨_, _, rfl⟩
  · exact acquireListener ⟨_, _, rfl⟩ _

/-- Both caches renew their listener, or neither does. -/
theorem renewListener (h : c.Twin d) (sw : Sweeper) :
    (c.renewListener sw).Twin (d.renewListener sw) := by
  obtain ⟨store, notices, rfl⟩ := h
  rw [Cache.renewListener, Cache.renewListener, isListenerAlive, isListenerAlive]
  dsimp only
  split
  · exact acquireListener ⟨_, _, rfl⟩ _
  · exact ⟨_, _, rfl⟩

/-- The sweepers of both caches retire. -/
theorem retire (h : c.Twin d) (sw : Sweeper) : (c.retire sw).Twin (d.retire sw) := by
  obtain ⟨store, notices, rfl⟩ := h
  rw [Cache.retire, Cache.retire]
  split <;> split <;> exact ⟨_, _, rfl⟩

/-- The sweepers of both caches sweep. -/
theorem pass (h : c.Twin d) (sw : Sweeper) : (c.pass sw).Twin (d.pass sw) := by
  obtain ⟨store, notices, rfl⟩ := h
  rw [Cache.pass, Cache.pass]
  split <;> split <;> exact ⟨_, _, rfl⟩

/-- The sweepers of both caches wake, if the stores were touched at the same time. -/
theorem wake (h : c.Twin d) (htouch : d.store.stats.lastTouch = c.store.stats.lastTouch) :
    c.wake.Twin d.wake ∧ d.wakeActions = c.wakeActions := by
  have hage : d.store.useAge d.wall = c.store.useAge c.wall := by
    rw [h.wall, Store.useAge, Store.useAge, Stats.useAge, Stats.useAge, htouch]
  rw [Cache.wake, Cache.wake, wakeActions, wakeActions, h.sweeper, hage, h.settings, h.wall]
  cases c.sweeper with
  | none => exact ⟨h, rfl⟩
  | some sw =>
    dsimp only
    split
    · exact ⟨(h.note _ _).retire sw, rfl⟩
    · have hrenew := h.renewListener { sw with wakesAt := sw.wakesAt + c.settings.sweepInterval.pause }
      rw [hrenew.sweeper]
      exact ⟨hrenew.pass _, rfl⟩

end Twin

end Cache

/-- Removing entries is no use. -/
theorem Action.usedAt?_of_isRemoval {a : Action V} (h : a.isRemoval) : a.usedAt? = none := by
  cases a <;> first | rfl | cases h

namespace Cache

/-- A wake-up is no use of the store. -/
theorem wake_lastTouch (c : Cache V) : c.wake.store.stats.lastTouch = c.store.stats.lastTouch := by
  have hunused : ∀ a ∈ c.wakeActions, a.usedAt? = none :=
    fun a ha => Action.usedAt?_of_isRemoval (isRemoval_of_mem_wakeActions ha)
  rw [wake_store, Store.follow_lastTouch_of_unused _ hunused]

/-- The caches differ in nothing but their stores and what was reported; nothing is about to panic,
and the stores were touched at the same time. -/
structure Abreast (c d : Cache V) : Prop where
  twin : c.Twin d
  calm : c.store.Calm
  calm' : d.store.Calm
  touched : d.store.stats.lastTouch = c.store.stats.lastTouch

namespace Abreast

variable {c d : Cache V}

/-- The sweepers of both caches wake. -/
theorem wake (h : c.Abreast d) : c.wake.Abreast d.wake ∧ d.wakeActions = c.wakeActions := by
  obtain ⟨htwin, hactions⟩ := h.twin.wake h.touched
  have hplain : ∀ a ∈ c.wakeActions, a.isPlain :=
    fun a ha => Action.isPlain_of_isRemoval (isRemoval_of_mem_wakeActions ha)
  refine ⟨⟨htwin, ?_, ?_, ?_⟩, hactions⟩
  · rw [wake_store]
    exact h.calm.follow hplain
  · rw [wake_store, hactions]
    exact h.calm'.follow hplain
  · rw [wake_lastTouch, wake_lastTouch, h.touched]

/-- Both caches settle. -/
theorem settle (h : c.Abreast d) : c.settle.Twin d.settle ∧ d.settleActions = c.settleActions := by
  rw [Cache.settle, Cache.settle, settleActions, settleActions, h.twin.sweeper, h.twin.timer]
  cases c.sweeper with
  | none => exact ⟨h.twin, rfl⟩
  | some sw =>
    dsimp only
    split
    · exact ⟨h.wake.1.twin, h.wake.2⟩
    · exact ⟨h.twin, rfl⟩

/-- The clocks of both caches run. -/
theorem runTo (h : c.Abreast d) (timer : Nat) : (c.runTo timer).Abreast (d.runTo timer) := by
  refine ⟨?_, h.calm, h.calm', h.touched⟩
  obtain ⟨_, _, rfl⟩ := h.twin
  exact ⟨_, _, rfl⟩

/-- The sweepers of both caches wake whenever they are due up to a timer position. -/
theorem wakeUntil (h : c.Abreast d) (target fuel : Nat) :
    (wakeUntil target fuel c).Abreast (wakeUntil target fuel d)
      ∧ wakeUntilActions target fuel d = wakeUntilActions target fuel c := by
  induction fuel generalizing c d with
  | zero => exact ⟨h, rfl⟩
  | succ fuel ih =>
    rw [Cache.wakeUntil, Cache.wakeUntil, wakeUntilActions, wakeUntilActions, h.twin.sweeper]
    cases c.sweeper with
    | none => exact ⟨h, rfl⟩
    | some sw =>
      have hnext : d.nextWake sw = c.nextWake sw := by rw [nextWake, nextWake, h.twin.timer]
      dsimp only
      rw [hnext]
      split
      · obtain ⟨hwake, hactions⟩ := (h.runTo (c.nextWake sw)).wake
        obtain ⟨hrest, hlater⟩ := ih hwake
        exact ⟨hrest, by rw [hactions, hlater]⟩
      · exact ⟨h, rfl⟩

/-- Time passes for both caches. -/
theorem advance (h : c.Abreast d) (millis : Nat) :
    (c.advance millis).Twin (d.advance millis) ∧ d.advanceActions millis = c.advanceActions millis := by
  have htimer := h.twin.timer
  obtain ⟨hwakes, hactions⟩ := h.wakeUntil (c.timer + millis) millis
  rw [Cache.advance, Cache.advance, advanceActions, advanceActions, htimer]
  exact ⟨(hwakes.runTo _).twin, hactions⟩

end Abreast

namespace Twin

variable {c d : Cache V}

/-- Both caches carry out operations that return, and start a sweeper or do not. -/
theorem touching (h : c.Twin d) {α : Type} {f g : Store V → WallTime → Store.Op V α}
    (hf : ∃ a, (f c.store c.wall).result = .ok a) (hg : ∃ a, (g d.store d.wall).result = .ok a) :
    (c.touching f).state.Twin (d.touching g).state := by
  obtain ⟨a, hf⟩ := hf
  obtain ⟨b, hg⟩ := hg
  rw [Cache.touching, Cache.touching, Cache.onStore, Cache.onStore, Ran.andThen, Ran.andThen]
  dsimp only
  rw [hf, hg]
  exact (h.withStore _ _).ensureSweeper

/-- Both caches are closed. -/
theorem shutdown (h : c.Twin d) :
    c.shutdown.state.Twin d.shutdown.state ∧ d.shutdownActions = c.shutdownActions := by
  obtain ⟨store, notices, rfl⟩ := h
  obtain ⟨settings, store', hosted, closed, sweeper, wall, timer, host, listeners, attempts,
    notices'⟩ := c
  rw [shutdown_state, shutdown_state]
  cases sweeper with
  | none => exact ⟨⟨_, _, rfl⟩, rfl⟩
  | some sw => exact ⟨(retire ⟨_, _, rfl⟩ sw).onStore (fun s t => s.drain t) fun s t => s.drain t, rfl⟩

/-- Both caches receive a datagram. -/
theorem receive (h : c.Twin d) (payload : List UInt8) :
    (c.receive payload).1.Twin (d.receive payload).1 := by
  rw [Cache.receive, Cache.receive]
  split
  · exact h
  · exact h
  · exact h.withStore _ _

end Twin

/-- In a calm store a datagram is never the cause of a panic. -/
theorem receive_delivery {c : Cache V} (hs : c.store.Calm) (payload : List UInt8) :
    (c.receive payload).2 = match Datagram.decode (payload.take Datagram.capacity) with
      | .error _ => .dropped
      | .ok none => .ignored
      | .ok (some _) => .applied := by
  rw [Cache.receive]
  cases Datagram.decode (payload.take Datagram.capacity) with
  | error fault => rfl
  | ok pattern =>
    cases pattern with
    | none => rfl
    | some pattern =>
      obtain ⟨log, h⟩ := hs.uncacheLike_eq c.wall pattern
      have hreturned : (c.uncacheLike pattern).returned = true := by
        rw [Cache.uncacheLike, Cache.onStore, h]
        rfl
      exact if_pos hreturned

/-- In a calm store no listener dies of a datagram. -/
theorem deliverTo_fst {c : Cache V} (hs : c.store.Calm) (payload : List UInt8) (listener : Nat) :
    (c.deliverTo payload listener).1 = (c.receive payload).1 := by
  have hdelivery : (c.receive payload).2 ≠ .panicked := by
    rw [receive_delivery hs]
    split <;> exact fun h => nomatch h
  rw [deliverTo]
  exact congrArg Prod.fst (if_neg hdelivery)

/-- A store stays calm when a datagram is received. -/
theorem receive_calm {c : Cache V} (hs : c.store.Calm) (payload : List UInt8) :
    (c.receive payload).1.store.Calm := by
  rw [receive_store]
  exact hs.follow fun a ha => Action.isPlain_of_isRemoval (Action.isRemoval_of_mem_ofDatagram ha)

/-- The listeners of both caches receive a datagram. -/
theorem Twin.deliverToEach {c d : Cache V} (h : c.Twin d) (hc : c.store.Calm) (hd : d.store.Calm)
    (payload : List UInt8) (listeners : List Nat) :
    (deliverToEach payload listeners c).1.Twin (deliverToEach payload listeners d).1 := by
  induction listeners generalizing c d with
  | nil => exact h
  | cons listener rest ih =>
    rw [Cache.deliverToEach, Cache.deliverToEach]
    dsimp only
    rw [deliverTo_fst hc, deliverTo_fst hd]
    exact ih (h.receive payload) (receive_calm hc payload) (receive_calm hd payload)

end Cache

end TimedCache
