import TimedCache.Proofs.Returned
import TimedCache.Proofs.Session.Abreast
import TimedCache.Proofs.Store.Moves

/-!
# When the sweeper wakes

A command that takes no time leaves a running sweeper its next wake-up. It starts a sweeper where none
is running at most, which then wakes after one pause; every put, look-up and removal by key that
returns sees to that, as long as the cache is open and can run tasks.
-/

namespace TimedCache

variable {V : Type}

namespace Cache

/-- The timer position of the sweeper's next wake-up, if one is running. -/
def dueAt (c : Cache V) : Option Nat := c.sweeper.map Sweeper.wakesAt

/-- A sweeper can be started: the cache can run tasks and was not closed. -/
def isOpen (c : Cache V) : Bool := c.hosted && !c.closed

/-- The timer positions at which the sweeper started and at which it wakes next, if one is running. -/
def shift (c : Cache V) : Option (Nat × Nat) := c.sweeper.map fun sw => (sw.startedAt, sw.wakesAt)

theorem dueAt_eq (c : Cache V) : c.dueAt = c.shift.map Prod.snd := by
  rw [shift, Option.map_map]
  rfl

theorem shift_isSome (c : Cache V) : c.shift.isSome = c.sweeperRunning := Option.isSome_map

section Sweeper

variable (c : Cache V) (sw : Sweeper)

/-- An attempt at a listener moves neither the start nor the next wake-up. -/
theorem acquireListener_shift : (c.acquireListener sw).shift = some (sw.startedAt, sw.wakesAt) := by
  rw [acquireListener]
  cases c.settings.multicast with
  | none => rfl
  | some group =>
    dsimp only
    cases Listener.bind c.host group with
    | ok address => rfl
    | error fault =>
      cases fault with
      | io failure =>
        dsimp only
        split
        · split <;> rfl
        · rfl
      | _ => rfl

/-- Renewing a listener moves neither the start nor the next wake-up. -/
theorem renewListener_shift : (c.renewListener sw).shift = some (sw.startedAt, sw.wakesAt) := by
  rw [renewListener]
  split
  · exact acquireListener_shift _ _
  · rfl

/-- A sweep moves neither the start nor the next wake-up. -/
theorem pass_shift : (c.pass sw).shift = some (sw.startedAt, sw.wakesAt) := by
  rw [pass]
  split <;> rfl

/-- A sweeper that has retired is not running. -/
theorem retire_sweeper : (c.retire sw).sweeper = none := by
  rw [retire]
  split <;> rfl

/-- Where no sweeper can be started, none is. -/
theorem ensureSweeper_of_not_isOpen (h : c.isOpen = false) : c.ensureSweeper = c := by
  rw [ensureSweeper]
  refine if_pos ?_
  cases hhosted : c.hosted <;> cases hclosed : c.closed <;> simp [isOpen, hhosted, hclosed] at h ⊢

/-- A sweeper that is running stays as it is; else one starts now and wakes after a pause. -/
theorem ensureSweeper_shift (h : c.isOpen) : c.ensureSweeper.shift
    = some (c.shift.getD (c.timer, c.timer + c.settings.sweepInterval.pause)) := by
  obtain ⟨hhosted, hclosed⟩ := Bool.and_eq_true_iff.mp h
  rw [Bool.not_eq_true'] at hclosed
  rw [ensureSweeper, sweeperRunning, hhosted, hclosed]
  cases hsweeper : c.sweeper with
  | none =>
    rw [shift, shift, hsweeper, Option.map_none, Option.getD_none]
    exact acquireListener_shift _ _
  | some sw => simp [shift, hsweeper]

/-- A wake-up changes the store, the sweeper, its listener and what is reported. -/
theorem wake_eq : ∃ store sweeper listeners attempts notices,
    c.wake = { c with store, sweeper, listeners, attempts, notices } := by
  rw [wake]
  cases c.sweeper with
  | none => exact ⟨_, _, _, _, _, rfl⟩
  | some sw =>
    dsimp only
    split
    · rw [retire]
      split <;> exact ⟨_, _, _, _, _, rfl⟩
    · obtain ⟨_, _, _, _, h⟩ :=
        c.renewListener_eq { sw with wakesAt := sw.wakesAt + c.settings.sweepInterval.pause }
      rw [h, pass]
      split <;> exact ⟨_, _, _, _, _, rfl⟩

@[simp] theorem wake_settings : c.wake.settings = c.settings := by
  obtain ⟨_, _, _, _, _, h⟩ := c.wake_eq
  rw [h]

@[simp] theorem wake_wall : c.wake.wall = c.wall := by
  obtain ⟨_, _, _, _, _, h⟩ := c.wake_eq
  rw [h]

@[simp] theorem wake_timer : c.wake.timer = c.timer := by
  obtain ⟨_, _, _, _, _, h⟩ := c.wake_eq
  rw [h]

@[simp] theorem wake_isOpen : c.wake.isOpen = c.isOpen := by
  obtain ⟨_, _, _, _, _, h⟩ := c.wake_eq
  rw [h]
  rfl

/-- A sweeper that wakes retires and drains the store if that was idle for long enough; otherwise it
sweeps, and wakes again a pause after it was due. -/
theorem wake_shift {start due : Nat} (hshift : c.shift = some (start, due)) :
    c.settings.idleTimeout.wordMillis ≤ c.store.useAge c.wall
      ∧ c.wakeActions = [.drain c.wall] ∧ c.wake.sweeper = none
    ∨ c.store.useAge c.wall < c.settings.idleTimeout.wordMillis
      ∧ c.wakeActions = [.sweep c.wall]
      ∧ c.wake.shift = some (start, due + c.settings.sweepInterval.pause) := by
  obtain ⟨sw, hsweeper, hpositions⟩ := Option.map_eq_some_iff.mp hshift
  cases hpositions
  rw [wake, wakeActions, hsweeper]
  dsimp only
  split
  · next hidle => exact .inl ⟨hidle, rfl, retire_sweeper _ _⟩
  · next hidle =>
    refine .inr ⟨Nat.lt_of_not_le hidle, rfl, ?_⟩
    have hrenewed := c.renewListener_shift
      { sw with wakesAt := sw.wakesAt + c.settings.sweepInterval.pause }
    obtain ⟨renewed, hsome, hsame⟩ := Option.map_eq_some_iff.mp hrenewed
    rw [pass_shift, hsome, Option.getD_some, hsame]

/-- The same of the next wake-up alone. -/
theorem wake_dueAt {due : Nat} (hdue : c.dueAt = some due) :
    c.settings.idleTimeout.wordMillis ≤ c.store.useAge c.wall
      ∧ c.wakeActions = [.drain c.wall] ∧ c.wake.dueAt = none
    ∨ c.store.useAge c.wall < c.settings.idleTimeout.wordMillis
      ∧ c.wakeActions = [.sweep c.wall]
      ∧ c.wake.dueAt = some (due + c.settings.sweepInterval.pause) := by
  rw [dueAt_eq] at hdue
  obtain ⟨⟨start, due⟩, hshift, rfl⟩ := Option.map_eq_some_iff.mp hdue
  obtain ⟨hidle, hactions, hnone⟩ | ⟨hused, hactions, hnext⟩ := c.wake_shift hshift
  · exact .inl ⟨hidle, hactions, by rw [dueAt, hnone, Option.map_none]⟩
  · exact .inr ⟨hused, hactions, by rw [dueAt_eq, hnext, Option.map_some]⟩

end Sweeper

/-- A datagram changes the store alone. -/
theorem receive_eq (c : Cache V) (payload : List UInt8) :
    ∃ store, (c.receive payload).1 = { c with store } := by
  rw [receive]
  split <;> exact ⟨_, rfl⟩

/-- A datagram to a listener changes the store, and may end listeners. -/
theorem deliverTo_eq (c : Cache V) (payload : List UInt8) (listener : Nat) :
    ∃ store listeners, listeners.Sublist c.listeners
      ∧ (c.deliverTo payload listener).1 = { c with store, listeners } := by
  obtain ⟨store, h⟩ := c.receive_eq payload
  rw [deliverTo]
  dsimp only
  rw [h]
  split
  · exact ⟨_, _, List.filter_sublist, rfl⟩
  · exact ⟨_, _, .refl _, rfl⟩

/-- A datagram to several listeners changes the store, and may end listeners. -/
theorem deliverToEach_eq (c : Cache V) (payload : List UInt8) (receivers : List Nat) :
    ∃ store listeners, listeners.Sublist c.listeners
      ∧ (deliverToEach payload receivers c).1 = { c with store, listeners } := by
  induction receivers generalizing c with
  | nil => exact ⟨_, _, .refl _, rfl⟩
  | cons receiver rest ih =>
    obtain ⟨_, _, hfewer, hfirst⟩ := c.deliverTo_eq payload receiver
    obtain ⟨_, _, hfewer', hrest⟩ := ih (c.deliverTo payload receiver).1
    rw [hfirst] at hfewer'
    rw [deliverToEach]
    dsimp only
    rw [hrest, hfirst]
    exact ⟨_, _, hfewer'.trans hfewer, rfl⟩

/-- The sweeper and the clocks stay as they are; the store and the host may change, and listeners may
end. -/
def Around (c d : Cache V) : Prop :=
  ∃ store host listeners, listeners.Sublist c.listeners ∧ d = { c with store, host, listeners }

/-- What surrounds the sweeper may change, and a sweeper may be asked for before. -/
def Served (c d : Cache V) : Prop :=
  c.Around d ∨ ∃ store, ({ c with store } : Cache V).ensureSweeper.Around d

namespace Around

variable {c d : Cache V}

theorem refl (c : Cache V) : c.Around c := ⟨_, _, _, .refl _, rfl⟩

theorem withStore (h : c.Around d) (store : Store V) : c.Around { d with store } := by
  obtain ⟨_, _, _, hfewer, rfl⟩ := h
  exact ⟨_, _, _, hfewer, rfl⟩

theorem shift (h : c.Around d) : d.shift = c.shift := by
  obtain ⟨_, _, _, -, rfl⟩ := h
  rfl

theorem sweeper (h : c.Around d) : d.sweeper = c.sweeper := by
  obtain ⟨_, _, _, -, rfl⟩ := h
  rfl

end Around

namespace Served

variable {c d : Cache V}

theorem of_withStore {store : Store V} (h : Served { c with store } d) : c.Served d := h

theorem withStore (h : c.Served d) (store : Store V) : c.Served { d with store } := by
  obtain h | ⟨_, h⟩ := h
  · exact .inl (h.withStore store)
  · exact .inr ⟨_, h.withStore store⟩

/-- An operation that uses the store asks for a sweeper if it returns. -/
theorem touching {α : Type} (c : Cache V) (f : Store V → WallTime → Store.Op V α) :
    c.Served (c.touching f).state := by
  rw [Cache.touching, onStore, Ran.andThen]
  cases (f c.store c.wall).result with
  | ok a => exact .inr ⟨_, .refl _⟩
  | error p => exact .inl ⟨_, _, _, .refl _, rfl⟩

/-- A sweeper that is running stays, and another one is started only where none is and one can be. -/
theorem shift (h : c.Served d) : d.shift = c.shift
    ∨ c.isOpen ∧ c.shift = none ∧ d.shift = some (c.timer, c.timer + c.settings.sweepInterval.pause) := by
  obtain h | ⟨store, h⟩ := h
  · exact .inl h.shift
  · rw [h.shift]
    cases hopen : c.isOpen with
    | false =>
      rw [ensureSweeper_of_not_isOpen { c with store } hopen]
      exact .inl rfl
    | true =>
      have hstarted : ({ c with store } : Cache V).ensureSweeper.shift
          = some (c.shift.getD (c.timer, c.timer + c.settings.sweepInterval.pause)) :=
        ensureSweeper_shift { c with store } hopen
      rw [hstarted]
      cases c.shift with
      | none => exact .inr ⟨rfl, rfl, rfl⟩
      | some positions => exact .inl rfl

end Served

/-- The cache goes on with the clocks and the settings that it had. A sweeper that was running keeps
its next wake-up, and one may have been started where none was. -/
structure Attended (c d : Cache V) : Prop where
  settings : d.settings = c.settings
  hosted : d.hosted = c.hosted
  closed : d.closed = c.closed
  wall : d.wall = c.wall
  timer : d.timer = c.timer
  dueAt : d.dueAt = c.dueAt
    ∨ c.isOpen ∧ c.dueAt = none ∧ d.dueAt = some (c.timer + c.settings.sweepInterval.pause)

/-- What surrounds the sweeper and a sweeper that is asked for leave the clocks and the settings. -/
theorem Served.attended {c d : Cache V} (h : c.Served d) : c.Attended d := by
  have hdue : d.dueAt = c.dueAt
      ∨ c.isOpen ∧ c.dueAt = none ∧ d.dueAt = some (c.timer + c.settings.sweepInterval.pause) := by
    rw [dueAt_eq, dueAt_eq]
    obtain hsame | ⟨hopen, hnone, hstarted⟩ := h.shift
    · exact .inl (congrArg _ hsame)
    · exact .inr ⟨hopen, congrArg _ hnone, congrArg _ hstarted⟩
  obtain ⟨_, _, _, -, rfl⟩ | ⟨store, _, _, _, -, rfl⟩ := h
  · exact ⟨rfl, rfl, rfl, rfl, rfl, hdue⟩
  · obtain ⟨_, _, _, _, hsame⟩ := Cache.ensureSweeper_eq { c with store }
    exact ⟨by rw [hsame], by rw [hsame], by rw [hsame], by rw [hsame], by rw [hsame], hdue⟩

/-- An operation that uses the store and returns leaves a sweeper running, if one can be started. -/
theorem touching_dueAt {α : Type} {c : Cache V} {f : Store V → WallTime → Store.Op V α} (h : c.isOpen)
    (hreturned : (f c.store c.wall).returned) : (c.touching f).state.dueAt.isSome := by
  obtain ⟨a, ha⟩ := Ran.exists_of_returned hreturned
  have hstate : (c.touching f).state = (c.onStore f).state.ensureSweeper := by
    rw [touching, Ran.andThen_of_ok (show (c.onStore f).result = .ok a from ha)]
    rfl
  rw [hstate, dueAt_eq, ensureSweeper_shift _ (show (c.onStore f).state.isOpen from h)]
  rfl

end Cache

/-- The command takes no time, and leaves the clocks and the cache open. -/
def Command.isInstant : Command V → Bool
  | .advance _ | .skew _ | .shutdown => false
  | _ => true

/-- The command puts an entry, looks a key up or removes one. -/
def Command.isUse : Command V → Bool
  | .store .. | .storeHeld .. | .storeEntry .. | .storeCustom .. | .get .. | .uncache _ => true
  | _ => false

/-- The command asks for a sweeper, by itself or because it uses the store. -/
def Command.isSummons : Command V → Bool
  | .ensureSweeper => true
  | c => c.isUse

/-- The action is a put, a look-up or a removal by key, which the store counts as a use. -/
def Action.isUse : Action V → Bool
  | .put .. | .get .. | .uncache .. => true
  | _ => false

/-- To put an entry is to use the store. -/
theorem Action.isUse_of_mem_stored {a : Action V} {p : String × Entry V} (h : p ∈ a.stored) : a.isUse := by
  cases a with
  | put => rfl
  | _ => cases h

/-- An action that is no use notes no time. -/
theorem Action.usedAt?_of_not_isUse {a : Action V} (h : a.isUse = false) : a.usedAt? = none := by
  cases a <;> first | rfl | cases h

/-- Removing entries is no use of the store. -/
theorem Action.isUse_of_isRemoval {a : Action V} (h : a.isRemoval) : a.isUse = false := by
  cases a <;> first | rfl | cases h

namespace Session

open Cache

variable (s : Session V)

/-- Storing an entry may ask for a sweeper, whatever changed in the store before. -/
theorem put_served {store : Store V} (key : String) (e : Entry V) :
    s.cache.Served (Cache.put { s.cache with store } key e).state :=
  (Served.touching { s.cache with store } _).of_withStore

/-- Changing a custom entry changes the store alone. -/
theorem reviseCustom_around (id : Name) (expired : Option Bool) (value : Option (Option V)) :
    s.cache.Around (s.reviseCustom id expired value).cache := by
  rw [reviseCustom]
  cases s.owners.custom? id with
  | none => exact .refl _
  | some e => cases value <;> exact ⟨_, _, _, .refl _, rfl⟩

/-- The application's own listener changes the store alone. -/
theorem receive_around (payload : List UInt8) : s.cache.Around (s.receive payload).1.cache := by
  rw [receive]
  split
  · obtain ⟨store, h⟩ := s.cache.receive_eq payload
    dsimp only
    rw [h]
    exact ⟨_, _, _, .refl _, rfl⟩
  · exact .refl _

/-- A datagram that cannot be sent changes nothing. -/
theorem overLoopback_around {payload : List UInt8}
    {deliver : Session V → List UInt8 → Session V × Reply V}
    (h : s.cache.Around (deliver s payload).1.cache) :
    s.cache.Around (s.overLoopback payload deliver).1.cache := by
  rw [overLoopback]
  split
  · exact .refl _
  · exact h

/-- A command that takes no time and asks for no sweeper leaves a running one and the clocks. -/
theorem perform_around {c : Command V} (hinstant : c.isInstant) (hsummons : c.isSummons = false) :
    s.cache.Around (s.perform c).1.cache := by
  cases c with
  | store | storeHeld | storeEntry | storeCustom | get | uncache | ensureSweeper => cases hsummons
  | advance | skew | shutdown => cases hinstant
  | reviseCustom id expired value => exact s.reviseCustom_around id expired value
  | readSoft handle =>
    rw [perform]
    split <;> exact .refl _
  | datagram payload => exact s.overLoopback_around (s.receive_around payload)
  | groupDatagram payload =>
    apply overLoopback_around
    obtain ⟨store, listeners, hfewer, h⟩ := s.cache.deliverToEach_eq payload s.cache.listeners
    rw [receiveFromGroup, Cache.receiveFromGroup]
    dsimp only
    rw [h]
    exact ⟨_, _, _, hfewer, rfl⟩
  | send pattern =>
    change s.cache.Around (s.send pattern).1.cache
    rw [send]
    split
    · exact .refl _
    · exact s.receive_around _
  | _ => exact ⟨_, _, _, .refl _, rfl⟩

/-- A command that takes no time asks for a sweeper at most. -/
theorem perform_served {c : Command V} (hinstant : c.isInstant) : s.cache.Served (s.perform c).1.cache := by
  cases hsummons : c.isSummons with
  | false => exact .inl (s.perform_around hinstant hsummons)
  | true =>
    cases c with
    | store | storeEntry | storeCustom => exact s.put_served _ _
    | storeHeld key holding ttl =>
      change s.cache.Served (s.putHeld key holding ttl).1.cache
      rw [putHeld]
      split
      · exact .inl (.refl _)
      · exact s.put_served _ _
    | get key keep =>
      obtain ⟨-, store, h⟩ := s.get_cache key keep
      change s.cache.Served (s.get key keep).1.cache
      rw [h]
      exact (Served.touching s.cache _).withStore store
    | uncache key => exact .touching s.cache _
    | ensureSweeper => exact .inr ⟨_, .refl _⟩
    | _ => cases hsummons

/-- A command that takes no time leaves the clocks and a running sweeper's next wake-up. -/
theorem perform_attended {c : Command V} (hc : c.isInstant) : s.cache.Attended (s.perform c).1.cache :=
  (s.perform_served hc).attended

/-- What a command does that is no use of the store is none either. -/
theorem isUse_of_mem_performActions {c : Command V} (hc : c.isUse = false) {a : Action V}
    (h : a ∈ s.performActions c) : a.isUse = false := by
  cases c with
  | store | storeHeld | storeEntry | storeCustom | get | uncache => cases hc
  | uncacheLike | sweep | drain | advance | shutdown | datagram | groupDatagram | send =>
    exact Action.isUse_of_isRemoval (isRemoval_of_mem_performActions rfl h)
  | reviseCustom id expired value =>
    rw [performActions, reviseCustomActions] at h
    split at h
    · cases h
    · cases value with
      | none => exact List.mem_singleton.mp h ▸ rfl
      | some v => rcases List.mem_pair.mp h with rfl | rfl <;> rfl
  | own | soften | softenOwned | share | refer | copy | keepValue | drop | reclaim | setDelegate
  | arm => exact List.mem_singleton.mp h ▸ rfl
  | readSoft | size | stats | useAge | skew | ensureSweeper | running | settings | setHost | listen
  | unlisten | listenerAlive => cases h

/-- A use sets the references outside and puts an entry, unless it lacks what it would hold; or it looks
a key up, and leaves the references of whoever keeps the value; or it removes a key. -/
theorem performActions_of_isUse {c : Command V} (hc : c.isUse) : s.performActions c = []
    ∨ (∃ owners key e, s.performActions c = [.refer owners, .put s.cache.wall key e])
    ∨ (∃ key owners, s.performActions c = [.get s.cache.wall key, .refer owners])
    ∨ ∃ key, s.performActions c = [.uncache s.cache.wall key] := by
  cases c with
  | store | storeEntry | storeCustom => exact .inr (.inl ⟨_, _, _, rfl⟩)
  | storeHeld key holding ttl =>
    rw [performActions, putHeldActions]
    split
    · exact .inl rfl
    · exact .inr (.inl ⟨_, _, _, rfl⟩)
  | get => exact .inr (.inr (.inl ⟨_, _, rfl⟩))
  | uncache => exact .inr (.inr (.inr ⟨_, rfl⟩))
  | _ => cases hc

/-- Storing an entry leaves a sweeper running, if it returns and one can be started. -/
theorem put_dueAt (hopen : s.cache.isOpen) {owners : Owners V} {key : String} {e : Entry V}
    (hreturned : ∀ o ∈ s.cache.store.history [.refer owners, .put s.cache.wall key e], o.returned) :
    (((s.mapOwners fun _ => owners).put key e).1.cache).dueAt.isSome := by
  have hput := hreturned ⟨{ s.cache.store with owners }, .put s.cache.wall key e⟩
    (List.mem_cons_of_mem _ (List.mem_singleton_self _))
  exact touching_dueAt (c := (s.mapOwners fun _ => owners).cache) hopen hput

/-- A command that uses the store leaves a sweeper running, if it returns and one can be started. -/
theorem perform_dueAt (hopen : s.cache.isOpen) {c : Command V}
    (hreturned : ∀ o ∈ s.cache.store.history (s.performActions c), o.returned)
    (huse : ∃ a ∈ s.performActions c, a.isUse) : (s.perform c).1.cache.dueAt.isSome := by
  obtain ⟨a, ha, huse⟩ := huse
  cases hc : c.isUse with
  | false => simp [s.isUse_of_mem_performActions hc ha] at huse
  | true =>
    cases c with
    | store | storeEntry | storeCustom => exact s.put_dueAt hopen hreturned
    | storeHeld key holding ttl =>
      change (s.putHeld key holding ttl).1.cache.dueAt.isSome
      rw [performActions, putHeldActions] at hreturned ha
      rw [putHeld]
      cases hmake : holding.make? s.owners with
      | none =>
        rw [hmake] at ha
        cases ha
      | some made =>
        rw [hmake] at hreturned
        exact s.put_dueAt hopen hreturned
    | get key keep =>
      obtain ⟨-, store, hget⟩ := s.get_cache key keep
      have hdue : (s.cache.get key).state.dueAt.isSome := touching_dueAt hopen
        (hreturned ⟨s.cache.store, .get s.cache.wall key⟩ (List.mem_cons_self ..))
      change (s.get key keep).1.cache.dueAt.isSome
      rw [hget]
      exact hdue
    | uncache key =>
      exact touching_dueAt hopen
        (hreturned ⟨s.cache.store, .uncache s.cache.wall key⟩ (List.mem_singleton_self _))
    | _ => cases hc

end Session

end TimedCache
