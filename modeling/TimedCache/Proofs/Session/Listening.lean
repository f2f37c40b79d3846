import TimedCache.Proofs.Session.LifeCycle

/-!
# The life cycle of listeners

A sweeper starts a listener for remote invalidations where a group is configured, and looks after it
whenever it wakes: a listener that a panicking hook killed is given up and another one is tried for. A
retiring sweeper ends its listener. So one listener is alive at most, under a sweeper that is running and
has made it known, and a wake-up that goes on leaves known exactly what is alive.
-/

namespace TimedCache

variable {V : Type}

namespace Cache

/-- The listener of a sweeper that is alive, if there is one, is the one that it started last and has made
known. The sweeper wants one if a group is configured, and it runs where one can be started. -/
structure Oversees (c : Cache V) (sw : Sweeper) : Prop where
  alive : c.listeners = [] ∨ ∃ n, sw.listener = some n ∧ sw.listening = true ∧ c.listeners = [n]
  wanted : sw.wanted = c.settings.multicast.isSome
  silent : c.settings.multicast = none → sw.listening = false
  isOpen : c.isOpen

/-- A running sweeper oversees the listeners, and without one none is alive. -/
def Overseen (c : Cache V) : Prop :=
  match c.sweeper with
  | none => c.listeners = []
  | some sw => c.Oversees sw

/-- What a wake-up that goes on does about the listener: it keeps one that is alive, and else tries for
another one if a group is configured. It makes known whether one is alive. -/
structure Renewed (c d : Cache V) : Prop where
  running_iff : d.listenerRunning ↔ d.listeners ≠ []
  attempts_eq : d.attempts = c.attempts + if c.listeners = [] ∧ c.settings.multicast.isSome then 1 else 0
  kept : c.listeners ≠ [] → d.listeners = c.listeners
  replaced : c.listeners = [] → ∀ group address, c.settings.multicast = some group →
    Listener.bind c.host group = .ok address → d.listeners ≠ []

variable {c d : Cache V} {sw : Sweeper}

theorem Overseen.of_none (hsweeper : c.sweeper = none) (hlisteners : c.listeners = []) : c.Overseen := by
  rw [Overseen, hsweeper]
  exact hlisteners

theorem Overseen.of_some (hsweeper : c.sweeper = some sw) (h : c.Oversees sw) : c.Overseen := by
  rw [Overseen, hsweeper]
  exact h

/-- An attempt at a listener where none is alive: none is made without a group; else it starts one or
fails, as the host decides. -/
theorem acquireListener_cases (hnone : c.listeners = []) (sw : Sweeper) :
    (c.settings.multicast = none ∧ (c.acquireListener sw).attempts = c.attempts
        ∧ (c.acquireListener sw).sweeper = some { sw with wanted := false }
        ∧ (c.acquireListener sw).listeners = [])
      ∨ ∃ group, c.settings.multicast = some group
        ∧ (c.acquireListener sw).attempts = c.attempts + 1
        ∧ ((∃ n, (c.acquireListener sw).sweeper
              = some { sw with wanted := true, listener := some n, listening := true }
            ∧ (c.acquireListener sw).listeners = [n])
          ∨ ∃ fault reportedDenied, Listener.bind c.host group = .error fault
            ∧ (c.acquireListener sw).sweeper = some { sw with wanted := true, reportedDenied }
            ∧ (c.acquireListener sw).listeners = []) := by
  rw [acquireListener]
  cases c.settings.multicast with
  | none => exact .inl ⟨rfl, rfl, rfl, hnone⟩
  | some group =>
    refine .inr ⟨group, rfl, ?_⟩
    dsimp only
    cases Listener.bind c.host group with
    | ok address =>
      refine ⟨rfl, .inl ⟨c.attempts + 1, rfl, ?_⟩⟩
      rw [startListener, stopListener, hnone]
      rfl
    | error fault =>
      cases fault with
      | io failure =>
        dsimp only
        split
        · split <;> exact ⟨rfl, .inr ⟨_, _, rfl, rfl, hnone⟩⟩
        · exact ⟨rfl, .inr ⟨_, _, rfl, rfl, hnone⟩⟩
      | _ => exact ⟨rfl, .inr ⟨_, _, rfl, rfl, hnone⟩⟩

/-- A sweeper that knows of no listener oversees the one that it acquires, and makes it known. -/
theorem acquireListener_overseen (hnone : c.listeners = []) (hopen : c.isOpen) (hsilent : sw.listening = false) :
    (c.acquireListener sw).Overseen ∧ c.Renewed (c.acquireListener sw) := by
  obtain ⟨_, _, _, _, hsame⟩ := c.acquireListener_eq sw
  have hsettings : (c.acquireListener sw).settings = c.settings := by rw [hsame]
  have hisOpen : (c.acquireListener sw).isOpen := by
    rw [hsame]
    exact hopen
  obtain ⟨hgroup, hattempts, hsweeper, hlisteners⟩
    | ⟨group, hgroup, hattempts, ⟨n, hsweeper, hlisteners⟩ | ⟨fault, _, hbind, hsweeper, hlisteners⟩⟩ :=
    acquireListener_cases hnone sw
  · refine ⟨.of_some hsweeper ⟨.inl hlisteners, ?_, fun _ => hsilent, hisOpen⟩, ?_, ?_, ?_, ?_⟩
    · rw [hsettings, hgroup]
      rfl
    · simp [listenerRunning, hsweeper, hlisteners, hsilent]
    · simp [hattempts, hgroup]
    · exact fun h => absurd hnone h
    · intro _ group _ hsome
      rw [hgroup] at hsome
      cases hsome
  · refine ⟨.of_some hsweeper ⟨.inr ⟨n, rfl, rfl, hlisteners⟩, ?_, fun h => ?_, hisOpen⟩, ?_, ?_, ?_, ?_⟩
    · rw [hsettings, hgroup]
      rfl
    · rw [hsettings, hgroup] at h
      cases h
    · simp [listenerRunning, hsweeper, hlisteners]
    · simp [hattempts, hgroup, hnone]
    · exact fun h => absurd hnone h
    · exact fun _ _ _ _ _ => by simp [hlisteners]
  · refine ⟨.of_some hsweeper ⟨.inl hlisteners, ?_, fun _ => hsilent, hisOpen⟩, ?_, ?_, ?_, ?_⟩
    · rw [hsettings, hgroup]
      rfl
    · simp [listenerRunning, hsweeper, hlisteners, hsilent]
    · simp [hattempts, hgroup, hnone]
    · exact fun h => absurd hnone h
    · intro _ group' address hsome hok
      obtain rfl := Option.some.inj (hgroup.symm.trans hsome)
      rw [hbind] at hok
      cases hok

namespace Oversees

/-- The listener that a sweeper started last is alive exactly if any is. -/
theorem isListenerAlive_iff (h : c.Oversees sw) : c.isListenerAlive sw ↔ c.listeners ≠ [] := by
  obtain hnone | ⟨n, hstarted, -, hone⟩ := h.alive
  · cases hlistener : sw.listener <;> simp [isListenerAlive, hnone, hlistener]
  · simp [isListenerAlive, hstarted, hone]

/-- A sweeper that ends its listener leaves none alive. -/
theorem stopListener (h : c.Oversees sw) : (c.stopListener sw).listeners = [] := by
  obtain hnone | ⟨n, hstarted, -, hone⟩ := h.alive
  · simp [Cache.stopListener, hnone]
  · simp [Cache.stopListener, hstarted, hone]

/-- A sweeper goes on overseeing listeners when some of them end and other things change. -/
theorem fewer (h : c.Oversees sw) (hfewer : d.listeners.Sublist c.listeners)
    (hsettings : d.settings = c.settings) (hisOpen : d.isOpen = c.isOpen) : d.Oversees sw := by
  refine ⟨?_, hsettings ▸ h.wanted, hsettings ▸ h.silent, hisOpen.trans h.isOpen⟩
  obtain hnone | ⟨n, hstarted, hknown, hone⟩ := h.alive
  · exact .inl (List.sublist_nil.mp (hnone ▸ hfewer))
  · rw [hone] at hfewer
    obtain hgone | hstays := List.sublist_singleton.mp hfewer
    · exact .inl hgone
    · exact .inr ⟨n, hstarted, hknown, hstays⟩

/-- It is the same for a sweeper that is further on. -/
theorem further (h : c.Oversees sw) {sw' : Sweeper} (hlistener : sw'.listener = sw.listener)
    (hlistening : sw'.listening = sw.listening) (hwanted : sw'.wanted = sw.wanted) : c.Oversees sw' := by
  refine ⟨?_, hwanted.trans h.wanted, hlistening ▸ h.silent, h.isOpen⟩
  rw [hlistener, hlistening]
  exact h.alive

/-- A sweeper that renews its listener oversees it. -/
theorem renewListener (h : c.Oversees sw) :
    (c.renewListener sw).Overseen ∧ c.Renewed (c.renewListener sw) := by
  rw [Cache.renewListener]
  split
  · next hlost =>
    rw [Bool.and_eq_true, Bool.not_eq_true'] at hlost
    have hnone : c.listeners = [] := by
      by_contra hsome
      rw [h.isListenerAlive_iff.mpr hsome] at hlost
      cases hlost.2
    exact acquireListener_overseen hnone h.isOpen rfl
  · next hkept =>
    -- a listener that is not alive is not wanted either, so there is no group
    have hgroup (hnone : c.listeners = []) : c.settings.multicast = none := by
      rw [Bool.and_eq_true, not_and_or, h.wanted, Bool.not_eq_true', Bool.not_eq_false,
        h.isListenerAlive_iff] at hkept
      obtain hunwanted | halive := hkept
      · exact Option.not_isSome_iff_eq_none.mp hunwanted
      · exact absurd hnone halive
    refine ⟨.of_some rfl (h.fewer (.refl _) rfl rfl), ?_, ?_, fun _ => rfl, fun hnone group _ hsome => ?_⟩
    · change sw.listening = true ↔ c.listeners ≠ []
      obtain hnone | ⟨n, -, hknown, hone⟩ := h.alive
      · rw [h.silent (hgroup hnone), hnone]
        simp
      · rw [hknown, hone]
        simp
    · change c.attempts = _
      have hunwanted : ¬(c.listeners = [] ∧ c.settings.multicast.isSome) := by
        rintro ⟨hnone, hsome⟩
        rw [hgroup hnone] at hsome
        cases hsome
      rw [if_neg hunwanted]
      rfl
    · rw [hgroup hnone] at hsome
      cases hsome

end Oversees

/-- A sweep leaves the listeners and what is known of them. -/
theorem pass_eq (c : Cache V) (sw : Sweeper) : ∃ store passes notices,
    c.pass sw = { c with store, notices, sweeper := some { sw with passes } } := by
  rw [pass]
  split <;> exact ⟨_, _, _, rfl⟩

namespace Overseen

/-- Where no sweeper is running, no listener is alive. -/
theorem listeners_eq_nil (h : c.Overseen) (hsweeper : c.sweeper = none) : c.listeners = [] := by
  rwa [Overseen, hsweeper] at h

theorem oversees (h : c.Overseen) (hsweeper : c.sweeper = some sw) : c.Oversees sw := by
  rwa [Overseen, hsweeper] at h

/-- Listeners stay overseen when some of them end and other things change. -/
theorem fewer (h : c.Overseen) (hsweeper : d.sweeper = c.sweeper)
    (hfewer : d.listeners.Sublist c.listeners) (hsettings : d.settings = c.settings)
    (hisOpen : d.isOpen = c.isOpen) : d.Overseen := by
  cases hrunning : c.sweeper with
  | none =>
    rw [h.listeners_eq_nil hrunning] at hfewer
    exact .of_none (hsweeper.trans hrunning) (List.sublist_nil.mp hfewer)
  | some sw =>
    exact .of_some (hsweeper.trans hrunning) ((h.oversees hrunning).fewer hfewer hsettings hisOpen)

/-- Retiring ends the listener, even if a hook panics on the way. -/
theorem retire (h : c.Overseen) (hsweeper : c.sweeper = some sw) : (c.retire sw).listeners = [] := by
  have hstopped := (h.oversees hsweeper).stopListener
  rw [Cache.retire]
  split <;> exact hstopped

/-- A sweep leaves the listener overseen. -/
theorem pass (h : c.Overseen) (hsweeper : c.sweeper = some sw) : (c.pass sw).Overseen := by
  obtain ⟨_, passes, _, hpass⟩ := c.pass_eq sw
  have hfurther : c.Oversees { sw with passes } := (h.oversees hsweeper).further rfl rfl rfl
  rw [hpass]
  exact .of_some rfl (hfurther.fewer (.refl _) rfl rfl)

end Overseen

/-- A sweep leaves a renewed listener as it is. -/
theorem Renewed.pass (h : c.Renewed d) (hsweeper : d.sweeper = some sw) : c.Renewed (d.pass sw) := by
  obtain ⟨_, _, _, hpass⟩ := d.pass_eq sw
  have hknown : (d.pass sw).listenerRunning = d.listenerRunning := by
    rw [listenerRunning, listenerRunning, hpass, hsweeper]
    rfl
  have hlisteners : (d.pass sw).listeners = d.listeners := by rw [hpass]
  have hattempts : (d.pass sw).attempts = d.attempts := by rw [hpass]
  refine ⟨?_, hattempts.trans h.attempts_eq, hlisteners ▸ h.kept, hlisteners ▸ h.replaced⟩
  rw [hknown, hlisteners]
  exact h.running_iff

namespace Overseen

/-- A sweeper that wakes renews its listener, or retires and leaves none. -/
theorem wake_cases (h : c.Overseen) : c.wake.Overseen
    ∧ (c.wake.sweeperRunning → c.Renewed c.wake)
    ∧ (c.wake.sweeperRunning = false → c.wake.listeners = []) := by
  cases hsweeper : c.sweeper with
  | none =>
    rw [wake_of_sweeper_eq_none hsweeper]
    refine ⟨h, fun hrunning => ?_, fun _ => h.listeners_eq_nil hsweeper⟩
    rw [sweeperRunning, hsweeper] at hrunning
    cases hrunning
  | some sw =>
    have hoversees := h.oversees hsweeper
    rw [Cache.wake, hsweeper]
    dsimp only
    split
    · have hnoted : (c.note (.idle (c.store.useAge c.wall))).Overseen := h.fewer rfl (.refl _) rfl rfl
      have hnone := hnoted.retire hsweeper
      have hretired := (c.note (.idle (c.store.useAge c.wall))).retire_sweeper sw
      refine ⟨.of_none hretired hnone, fun hrunning => ?_, fun _ => hnone⟩
      rw [sweeperRunning, hretired] at hrunning
      cases hrunning
    · generalize hnext : { sw with wakesAt := sw.wakesAt + c.settings.sweepInterval.pause } = next
      have hfurther : c.Oversees next := by
        subst hnext
        exact hoversees.further rfl rfl rfl
      obtain ⟨hoverseen, hrenewed⟩ := hfurther.renewListener
      obtain ⟨sw', hsweeper', -⟩ := Option.map_eq_some_iff.mp (c.renewListener_shift next)
      rw [hsweeper', Option.getD_some]
      refine ⟨hoverseen.pass hsweeper', fun _ => hrenewed.pass hsweeper', fun hstopped => ?_⟩
      obtain ⟨_, _, _, hpass⟩ := (c.renewListener next).pass_eq sw'
      rw [sweeperRunning, hpass] at hstopped
      cases hstopped

theorem wake (h : c.Overseen) : c.wake.Overseen := h.wake_cases.1

theorem runTo (h : c.Overseen) (timer : Nat) : (c.runTo timer).Overseen := h.fewer rfl (.refl _) rfl rfl

/-- A sweeper that starts acquires a listener and oversees it. -/
theorem ensureSweeper (h : c.Overseen) : c.ensureSweeper.Overseen := by
  rw [Cache.ensureSweeper]
  split
  · exact h
  · next hstarts =>
    simp only [Bool.or_eq_true, Bool.not_eq_true', not_or, Bool.not_eq_true, Bool.not_eq_false] at hstarts
    obtain ⟨⟨hclosed, hhosted⟩, hrunning⟩ := hstarts
    have hopen : c.isOpen := by
      rw [isOpen, hhosted, hclosed]
      rfl
    rw [sweeperRunning, Option.isSome_eq_false_iff, Option.isNone_iff_eq_none] at hrunning
    exact (acquireListener_overseen (c := c.note (.started c.settings.sweepInterval))
      (h.listeners_eq_nil hrunning) hopen rfl).1

/-- A command that takes no time leaves the listeners overseen. -/
theorem served (h : c.Overseen) (hserved : c.Served d) : d.Overseen := by
  obtain ⟨_, _, _, hfewer, rfl⟩ | ⟨store, _, _, _, hfewer, rfl⟩ := hserved
  · exact h.fewer rfl hfewer rfl rfl
  · have hstored : ({ c with store } : Cache V).Overseen := h.fewer rfl (.refl _) rfl rfl
    exact hstored.ensureSweeper.fewer rfl hfewer rfl rfl

/-- Closing a cache ends the listener, however it ends itself. -/
theorem shutdown (h : c.Overseen) : c.shutdown.state.Overseen := by
  have hlisteners : c.shutdown.state.listeners = [] := by
    rw [shutdown_state]
    cases hsweeper : c.sweeper with
    | none => exact h.listeners_eq_nil hsweeper
    | some sw =>
      have hstopped := (h.oversees hsweeper).stopListener
      change (Cache.retire _ sw).listeners = []
      rw [Cache.retire]
      split <;> exact hstopped
  exact .of_none c.shutdown_spec.2.1 hlisteners

end Overseen

/-- The caches that the wake-ups up to a timer position meet, one after the other. -/
def wakingsUntil (target : Nat) : Nat → Cache V → List (Cache V)
  | 0, _ => []
  | fuel + 1, c =>
    match c.sweeper with
    | none => []
    | some sw =>
      let next := c.nextWake sw
      if next ≤ target then c.runTo next :: wakingsUntil target fuel (c.runTo next).wake else []

/-- The cache that a wake-up meets while the cache settles, if there is one. -/
def settlings (c : Cache V) : List (Cache V) :=
  match c.sweeper with
  | none => []
  | some sw => if sw.wakesAt ≤ c.timer then [c] else []

/-- After the wake-ups up to a timer position the cache is as the last of them left it. -/
theorem wakeUntil_eq (target fuel : Nat) (c : Cache V) :
    wakeUntil target fuel c = ((wakingsUntil target fuel c).getLast?.map Cache.wake).getD c := by
  induction fuel generalizing c with
  | zero => rfl
  | succ fuel ih =>
    rw [wakeUntil, wakingsUntil]
    cases c.sweeper with
    | none => rfl
    | some sw =>
      dsimp only
      split
      · rw [ih, List.getLast?_cons]
        cases (wakingsUntil target fuel (c.runTo (c.nextWake sw)).wake).getLast? <;> rfl
      · rfl

/-- A cache that has settled is as the wake-up left it, if there was one. -/
theorem settle_eq (c : Cache V) : c.settle = (c.settlings.getLast?.map Cache.wake).getD c := by
  rw [settle, settlings]
  cases c.sweeper with
  | none => rfl
  | some sw =>
    dsimp only
    split <;> rfl

/-- Every wake-up while time passes meets overseen listeners. -/
theorem Overseen.wakingsUntil (h : c.Overseen) (target fuel : Nat) :
    ∀ d ∈ wakingsUntil target fuel c, d.Overseen := by
  induction fuel generalizing c with
  | zero => exact List.forall_mem_nil _
  | succ fuel ih =>
    rw [Cache.wakingsUntil]
    split
    · exact List.forall_mem_nil _
    · dsimp only
      split
      · exact List.forall_mem_cons.mpr ⟨h.runTo _, ih (h.runTo _).wake⟩
      · exact List.forall_mem_nil _

/-- A wake-up while a cache settles meets overseen listeners. -/
theorem Overseen.settlings (h : c.Overseen) : ∀ d ∈ c.settlings, d.Overseen := by
  rw [Cache.settlings]
  split
  · exact List.forall_mem_nil _
  · split
    · exact List.forall_mem_singleton.mpr h
    · exact List.forall_mem_nil _

/-- A cache that has settled has overseen listeners, as the wake-up left them if there was one. -/
theorem Overseen.settle (h : c.Overseen) : c.settle.Overseen := by
  rw [settle_eq]
  cases hlast : c.settlings.getLast? with
  | none => exact h
  | some d => exact (h.settlings d (List.mem_of_getLast? hlast)).wake

/-- After some time the listeners are overseen, as the last wake-up left them if there was one. -/
theorem Overseen.advance (h : c.Overseen) (millis : Nat) : (c.advance millis).Overseen := by
  have hwoken : (wakeUntil (c.timer + millis) millis c).Overseen := by
    rw [wakeUntil_eq]
    cases hlast : (Cache.wakingsUntil (c.timer + millis) millis c).getLast? with
    | none => exact h
    | some d => exact (h.wakingsUntil _ _ d (List.mem_of_getLast? hlast)).wake
  exact hwoken.runTo _

/-- A hook that panics at a datagram ends the listener that received it. -/
theorem deliverTo_of_panicked {payload : List UInt8} {listener : Nat}
    (h : (c.deliverTo payload listener).2 = .panicked) :
    (c.deliverTo payload listener).1.listeners = c.listeners.filter (· != listener) := by
  obtain ⟨_, hreceived⟩ := c.receive_eq payload
  rw [deliverTo] at h ⊢
  dsimp only at h ⊢
  split at h
  · next hpanicked => rw [if_pos hpanicked, hreceived]
  · next hreturned => exact absurd h hreturned

/-- The listeners at any time: one is alive at most, under a running sweeper, and it is known. -/
structure Accounted (c : Cache V) : Prop where
  length_le : c.listeners.length ≤ 1
  running : c.listeners ≠ [] → c.sweeperRunning
  known : c.listenerRunning = false → c.listeners = []

theorem Overseen.accounted (h : c.Overseen) : c.Accounted := by
  cases hsweeper : c.sweeper with
  | none =>
    have hnone := h.listeners_eq_nil hsweeper
    exact ⟨by rw [hnone]; exact Nat.zero_le _, fun hsome => absurd hnone hsome, fun _ => hnone⟩
  | some sw =>
    have hrunning : c.sweeperRunning := by rw [sweeperRunning, hsweeper]; rfl
    obtain hnone | ⟨n, -, hknown, hone⟩ := (h.oversees hsweeper).alive
    · exact ⟨by rw [hnone]; exact Nat.zero_le _, fun _ => hrunning, fun _ => hnone⟩
    · refine ⟨by rw [hone]; exact Nat.le_refl _, fun _ => hrunning, fun hunknown => ?_⟩
      rw [listenerRunning, hsweeper] at hunknown
      exact absurd (hknown.symm.trans hunknown) (by decide)

end Cache

namespace Session

open Cache

variable {s : Session V}

/-- The caches that the wake-ups meet while a command is carried out and the cache settles after it. -/
def wakingsOf (s : Session V) (c : Command V) : List (Cache V) :=
  (match c with
    | .advance millis => wakingsUntil (s.cache.timer + millis) millis s.cache
    | _ => []) ++ (s.perform c).1.cache.settlings

/-- The caches that the wake-ups of a run meet, one after the other. -/
def wakings (s : Session V) : List (Command V) → List (Cache V)
  | [] => []
  | c :: rest => s.wakingsOf c ++ (s.step c).1.wakings rest

/-- A command leaves the listeners overseen. -/
theorem perform_overseen (h : s.cache.Overseen) (c : Command V) : (s.perform c).1.cache.Overseen := by
  cases hinstant : c.isInstant with
  | true => exact h.served (s.perform_served hinstant)
  | false =>
    cases c with
    | advance millis => exact h.advance millis
    | skew millis => exact h.fewer rfl (.refl _) rfl rfl
    | shutdown => exact h.shutdown
    | _ => cases hinstant

theorem step_overseen (h : s.cache.Overseen) (c : Command V) : (s.step c).1.cache.Overseen :=
  (perform_overseen h c).settle

/-- Every wake-up of a command meets overseen listeners. -/
theorem wakingsOf_overseen (h : s.cache.Overseen) (c : Command V) : ∀ d ∈ s.wakingsOf c, d.Overseen := by
  refine List.forall_mem_append.mpr ⟨?_, (perform_overseen h c).settlings⟩
  split
  · exact h.wakingsUntil _ _
  · exact List.forall_mem_nil _

/-- A run leaves the listeners overseen, and every wake-up of it meets overseen listeners. -/
theorem run_overseen (h : s.cache.Overseen) (commands : List (Command V)) :
    (s.run commands).cache.Overseen ∧ ∀ d ∈ s.wakings commands, d.Overseen := by
  induction commands generalizing s with
  | nil => exact ⟨h, List.forall_mem_nil _⟩
  | cons c rest ih =>
    obtain ⟨hrun, hwakings⟩ := ih (step_overseen h c)
    exact ⟨hrun, List.forall_mem_append.mpr ⟨wakingsOf_overseen h c, hwakings⟩⟩

/-- Where no listener is alive, a datagram to the group changes nothing. -/
theorem perform_groupDatagram_of_none (hnone : s.cache.listeners = []) (payload : List UInt8) :
    (s.perform (.groupDatagram payload)).1 = s := by
  rw [perform, overLoopback]
  split
  · rfl
  · rw [receiveFromGroup, Cache.receiveFromGroup, hnone]
    rfl

/-- A hook that panics at a datagram to the group kills the listener that received it. -/
theorem perform_groupDatagram_of_panicked (h : s.cache.Overseen) {payload : List UInt8}
    (hpanicked : (s.perform (.groupDatagram payload)).2 = .delivery .panicked) :
    (s.perform (.groupDatagram payload)).1.cache.listeners = [] := by
  have hlength := h.accounted.length_le
  rw [perform, overLoopback] at hpanicked ⊢
  split at hpanicked
  · cases hpanicked
  · rw [receiveFromGroup, Cache.receiveFromGroup] at hpanicked ⊢
    cases hlisteners : s.cache.listeners with
    | nil =>
      rw [hlisteners] at hpanicked
      cases hpanicked
    | cons n rest =>
      rw [hlisteners, List.length_cons] at hlength
      have hrest : rest = [] := List.length_eq_zero_iff.mp (by omega)
      subst hrest
      rw [hlisteners] at hpanicked
      have hdelivery : (s.cache.deliverTo payload n).2 = .panicked := Reply.delivery.inj hpanicked
      have hended := deliverTo_of_panicked hdelivery
      rw [hlisteners] at hended
      exact hended.trans (by simp)

/-- One listener of a sweeper is alive at most, and only under a sweeper that is running and has made it
known. A wake-up that goes on makes known exactly what is alive; if it meets no listener that is alive it
tries once for another one where a group is configured, and has one if that can be bound. A wake-up that
retires leaves none, whether its drain panics or not, and neither does closing the cache. Where none is
alive a datagram to the group changes nothing, and one at which a hook panics leaves none alive. -/
theorem listener_life_cycle (settings : Settings) (hosted : Bool) (host : Host) (wall : WallTime)
    (commands : List (Command V)) :
    let start : Session V := opened settings hosted host wall
    let s := start.run commands
    s.cache.Accounted
      ∧ (∀ c ∈ start.wakings commands, c.Accounted ∧ c.wake.Accounted
        ∧ (c.wake.sweeperRunning → c.Renewed c.wake)
        ∧ (c.wake.sweeperRunning = false → c.wake.listeners = []))
      ∧ (∀ payload, (s.perform (.groupDatagram payload)).2 = .delivery .panicked →
        (s.perform (.groupDatagram payload)).1.cache.listeners = [])
      ∧ (s.cache.listeners = [] → ∀ payload, (s.perform (.groupDatagram payload)).1 = s)
      ∧ (.shutdown ∈ commands → s.cache.listeners = []) := by
  intro start s
  have hstart : start.cache.Overseen := .of_none rfl rfl
  obtain ⟨hrun, hwakings⟩ := run_overseen hstart commands
  refine ⟨hrun.accounted, fun c hc => ?_, fun _ => perform_groupDatagram_of_panicked hrun,
    perform_groupDatagram_of_none, fun hclosing => ?_⟩
  · obtain ⟨hwake, hrenewed, hretired⟩ := (hwakings c hc).wake_cases
    exact ⟨(hwakings c hc).accounted, hwake.accounted, hrenewed, hretired⟩
  · have hclosed : s.cache.isOpen = false := by
      rw [run_isOpen, (Command.any_isShutdown commands).mpr hclosing, Bool.not_true, Bool.and_false]
    cases hsweeper : s.cache.sweeper with
    | none => exact hrun.listeners_eq_nil hsweeper
    | some sw =>
      have hopen := (hrun.oversees hsweeper).isOpen
      rw [hclosed] at hopen
      cases hopen

/-- A datagram at which a hook panics kills the listener; the next wake-up cannot bind another one, the one
after it can, and then the sweeper retires. -/
example :
    let start : Session Nat := opened
      { sweepInterval := .ofSeconds 1, idleTimeout := .ofSeconds 3,
        multicast := some { address := .ofOctets [239, 0, 0, 1], port := 9000 } } true
      { link := .connected } 0
    let commands : List (Command Nat) :=
      [.store "a" 1 (.ofSeconds 0) (some "l"), .arm ⟨"l", .uncached, none⟩, .groupDatagram [97],
        .setHost { link := .isolated }, .advance 1000, .setHost { link := .connected }, .advance 1000,
        .advance 1000]
    ((List.range 9).map fun n =>
        let c := (start.run (commands.take n)).cache
        (c.sweeperRunning, c.listenerRunning, c.listeners, c.attempts))
      = [(false, false, [], 0), (true, true, [1], 1), (true, true, [1], 1), (true, true, [], 1),
        (true, true, [], 1), (true, false, [], 2), (true, false, [], 2), (true, true, [3], 3),
        (false, false, [], 3)] := by
  decide +kernel

end Session

end TimedCache
