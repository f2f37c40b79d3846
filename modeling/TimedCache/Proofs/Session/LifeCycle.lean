import TimedCache.Proofs.Session.Lookup
import TimedCache.Proofs.Session.Waking
import TimedCache.Proofs.Store.Regardless
import TimedCache.Proofs.Store.Tally

/-!
# The life cycle of sweepers

A sweeper lives only where one can be started, and there it lives as long as there is an entry: it
starts with the first use, retires by emptying the store, and comes back with the next use, whatever
hooks panic in between. Closing a cache ends this for good and leaves the store empty, but usable.
-/

namespace TimedCache

variable {V : Type}

/-- The command closes the cache. -/
def Command.isShutdown : Command V → Bool
  | .shutdown => true
  | _ => false

theorem Command.any_isShutdown (commands : List (Command V)) :
    commands.any isShutdown = true ↔ .shutdown ∈ commands := by
  rw [List.any_eq_true]
  constructor
  · rintro ⟨c, hc, hshutdown⟩
    cases c <;> first | exact hc | cases hshutdown
  · exact fun h => ⟨_, h, rfl⟩

namespace Cache

variable {c : Cache V}

/-- A sweeper runs where one can be started only, and there it does as long as there is an entry. -/
structure Tended (c : Cache V) : Prop where
  unmanned : c.isOpen = false → c.sweeper = none
  manned : c.isOpen → c.store.entries ≠ [] → c.sweeperRunning

/-- A sweeper that wakes goes on, or leaves an empty store. -/
theorem wake_sweeperRunning (h : c.sweeperRunning) :
    c.wake.sweeperRunning ∨ c.wake.store.entries = [] := by
  obtain ⟨⟨start, due⟩, hshift⟩ := Option.isSome_iff_exists.mp (c.shift_isSome.trans h)
  obtain ⟨-, hactions, -⟩ | ⟨-, -, hnext⟩ := c.wake_shift hshift
  · refine .inr ?_
    rw [wake_store, hactions]
    exact c.store.drain_entries c.wall
  · exact .inl (by rw [← shift_isSome, hnext]; rfl)

namespace Tended

/-- A sweeper keeps the cache tended when it wakes, and when it retires. -/
theorem wake (h : c.Tended) : c.wake.Tended := by
  cases hsweeper : c.sweeper with
  | none =>
    rw [wake_of_sweeper_eq_none hsweeper]
    exact h
  | some sw =>
    have hrunning : c.sweeperRunning := by rw [sweeperRunning, hsweeper]; rfl
    refine ⟨fun hopen => ?_, fun _ hentries => ?_⟩
    · rw [wake_isOpen] at hopen
      rw [h.unmanned hopen] at hsweeper
      cases hsweeper
    · exact (wake_sweeperRunning hrunning).resolve_right hentries

theorem settle (h : c.Tended) : c.settle.Tended := settle_invariant (fun _ hd => hd.wake) h

theorem advance (h : c.Tended) (millis : Nat) : (c.advance millis).Tended :=
  advance_invariant (fun _ _ hd => ⟨hd.unmanned, hd.manned⟩) (fun _ hd => hd.wake) millis h

end Tended

/-- Time passing and settling leave a cache open or closed. -/
theorem settle_isOpen (c : Cache V) : c.settle.isOpen = c.isOpen :=
  settle_invariant (P := fun d => d.isOpen = c.isOpen) (fun d h => d.wake_isOpen.trans h) rfl

theorem advance_isOpen (c : Cache V) (millis : Nat) : (c.advance millis).isOpen = c.isOpen :=
  advance_invariant (P := fun d => d.isOpen = c.isOpen) (fun _ _ h => h)
    (fun d h => d.wake_isOpen.trans h) millis rfl

/-- Closing a cache leaves it empty, however it ends. -/
theorem shutdown_entries (c : Cache V) : c.shutdown.state.store.entries = [] := by
  rw [shutdown_store, shutdownActions]
  split <;> exact Store.drain_entries _ _

end Cache

namespace Session

open Cache

variable {s : Session V}

/-- A sweeper can be started after a command exactly if one could be before and the cache was not
closed. -/
theorem perform_isOpen (s : Session V) (c : Command V) :
    (s.perform c).1.cache.isOpen = (s.cache.isOpen && !c.isShutdown) := by
  cases hinstant : c.isInstant with
  | true =>
    have hattended := s.perform_attended hinstant
    have hclosing : c.isShutdown = false := by cases c <;> first | rfl | cases hinstant
    rw [isOpen, hattended.hosted, hattended.closed, hclosing, Bool.not_false, Bool.and_true]
    rfl
  | false =>
    cases c with
    | advance millis =>
      exact (s.cache.advance_isOpen millis).trans (Bool.and_true _).symm
    | skew millis => exact (Bool.and_true _).symm
    | shutdown => exact s.cache.shutdown_spec.1.trans (Bool.and_false _).symm
    | _ => cases hinstant

theorem step_isOpen (s : Session V) (c : Command V) :
    (s.step c).1.cache.isOpen = (s.cache.isOpen && !c.isShutdown) :=
  (settle_isOpen _).trans (s.perform_isOpen c)

theorem run_isOpen (s : Session V) (commands : List (Command V)) :
    (s.run commands).cache.isOpen = (s.cache.isOpen && !commands.any Command.isShutdown) := by
  induction commands generalizing s with
  | nil => exact (Bool.and_true _).symm
  | cons c rest ih =>
    change ((s.step c).1.run rest).cache.isOpen = _
    rw [ih, step_isOpen, List.any_cons, Bool.not_or, Bool.and_assoc]

/-- If every put returned, so did everything that a command which puts something did to the store. -/
theorem returned_of_stored {c : Command V} {a : Action V} (ha : a ∈ s.performActions c)
    (hstored : a.stored ≠ [])
    (hputs : ∀ o ∈ s.cache.store.history (s.performActions c), o.isPut → o.returned) :
    ∀ o ∈ s.cache.store.history (s.performActions c), o.returned := by
  have huse : a.isUse := by
    obtain ⟨p, hp⟩ := List.exists_mem_of_ne_nil _ hstored
    exact Action.isUse_of_mem_stored hp
  cases hc : c.isUse with
  | false => simp [s.isUse_of_mem_performActions hc ha] at huse
  | true =>
    obtain hnothing | ⟨_, _, _, hput⟩ | ⟨_, _, hget⟩ | ⟨_, huncache⟩ := s.performActions_of_isUse hc
    · rw [hnothing] at ha
      cases ha
    · -- setting the references outside always returns
      rw [hput] at hputs ⊢
      intro o ho
      rcases List.mem_pair.mp ho with rfl | rfl
      · rfl
      · exact hputs _ ho rfl
    · rw [hget] at ha
      rcases List.mem_pair.mp ha with rfl | rfl <;> exact absurd rfl hstored
    · rw [huncache] at ha
      rw [List.mem_singleton.mp ha] at hstored
      exact absurd rfl hstored

/-- A command keeps the cache tended, if what it puts is put without a panic. -/
theorem perform_tended (h : s.cache.Tended) {c : Command V}
    (hputs : ∀ o ∈ s.cache.store.history (s.performActions c), o.isPut → o.returned) :
    (s.perform c).1.cache.Tended := by
  cases hinstant : c.isInstant with
  | true =>
    have hserved := s.perform_served hinstant
    have hclosing : c.isShutdown = false := by cases c <;> first | rfl | cases hinstant
    have hisOpen := s.perform_isOpen c
    rw [hclosing, Bool.not_false, Bool.and_true] at hisOpen
    refine ⟨fun hopen => ?_, fun hopen hentries => ?_⟩
    · rw [hisOpen] at hopen
      have hnone : s.cache.shift = none := by rw [shift, h.unmanned hopen, Option.map_none]
      obtain hsame | ⟨hopened, -⟩ := hserved.shift
      · rw [hnone] at hsame
        exact Option.map_eq_none_iff.mp hsame
      · rw [hopen] at hopened
        cases hopened
    · rw [hisOpen] at hopen
      by_cases hempty : s.cache.store.entries = []
      · -- an entry came in, so something was put
        have hputSomething : ∃ a ∈ s.performActions c, a.stored ≠ [] := by
          by_contra hnothing
          simp only [not_exists, not_and, not_not] at hnothing
          rw [perform_store] at hentries
          exact hentries (Store.entries_of_follow hempty hnothing)
        obtain ⟨a, ha, hstored⟩ := hputSomething
        obtain ⟨p, hp⟩ := List.exists_mem_of_ne_nil _ hstored
        have hdue := s.perform_dueAt hopen (returned_of_stored ha hstored hputs)
          ⟨a, ha, Action.isUse_of_mem_stored hp⟩
        rwa [dueAt, Option.isSome_map] at hdue
      · exact hserved.sweeperRunning (h.manned hopen hempty)
  | false =>
    cases c with
    | advance millis => exact h.advance millis
    | skew millis => exact ⟨h.unmanned, h.manned⟩
    | shutdown =>
      obtain ⟨hclosed, hnone, -⟩ := s.cache.shutdown_spec
      refine ⟨fun _ => hnone, fun hopen => ?_⟩
      change s.cache.shutdown.state.isOpen = true at hopen
      rw [hclosed] at hopen
      cases hopen
    | _ => cases hinstant

/-- Commands keep the cache tended, if what they put is put without a panic. -/
theorem run_tended (h : s.cache.Tended) {commands : List (Command V)}
    (hputs : ∀ o ∈ s.history commands, o.isPut → o.returned) : (s.run commands).cache.Tended := by
  induction commands generalizing s with
  | nil => exact h
  | cons c rest ih =>
    rw [history, script, actions, Store.history_append, Store.history_append] at hputs
    obtain ⟨hfirst, hlater⟩ := List.forall_mem_append.mp hputs
    obtain ⟨hperformed, -⟩ := List.forall_mem_append.mp hfirst
    apply ih (s := (s.step c).1) (perform_tended h hperformed).settle
    rw [history, step_store]
    exact hlater

/-- The command asks for a sweeper, and does so: by itself, or through a use of the store that
returns. -/
def Summons (s : Session V) : Command V → Prop
  | .ensureSweeper => True
  | c => (∃ a ∈ s.performActions c, a.isUse)
    ∧ ∀ o ∈ s.cache.store.history (s.performActions c), o.returned

/-- A sweeper is running when one was asked for and can be started. -/
theorem perform_summons (hopen : s.cache.isOpen) {c : Command V} (h : s.Summons c) :
    (s.perform c).1.cache.sweeperRunning := by
  rw [← shift_isSome, ← Option.isSome_map (f := Prod.snd), ← dueAt_eq]
  by_cases hensure : c = .ensureSweeper
  · subst hensure
    change s.cache.ensureSweeper.dueAt.isSome
    rw [dueAt_eq, ensureSweeper_shift _ hopen]
    rfl
  · have huse : (∃ a ∈ s.performActions c, a.isUse)
        ∧ ∀ o ∈ s.cache.store.history (s.performActions c), o.returned := by
      cases c <;> first | exact h | exact absurd rfl hensure
    exact s.perform_dueAt hopen huse.2 huse.1

/-- A command that asks for no sweeper starts none. -/
theorem perform_sweeper_eq_none (hnone : s.cache.sweeper = none) {c : Command V}
    (hsummons : c.isSummons = false) : (s.perform c).1.cache.sweeper = none := by
  cases hinstant : c.isInstant with
  | true => exact (s.perform_around hinstant hsummons).sweeper.trans hnone
  | false =>
    cases c with
    | advance millis =>
      exact advance_invariant (P := fun d => d.sweeper = none) (fun _ _ hd => hd)
        (fun d hd => (congrArg _ (wake_of_sweeper_eq_none hd)).trans hd) millis hnone
    | skew millis => exact hnone
    | shutdown => exact s.cache.shutdown_spec.2.1
    | _ => cases hinstant

/-- A cache without a sweeper has nothing to settle. -/
theorem step_cache_of_sweeper_eq_none {c : Command V} (h : (s.perform c).1.cache.sweeper = none) :
    (s.step c).1.cache = (s.perform c).1.cache := by
  change (s.perform c).1.cache.settle = _
  rw [settle, h]

/-- A call without a result of its own answers with nothing exactly if it returns. -/
theorem answer_eq_nothing_iff (s : Session V) (ran : Op V Unit) :
    (s.answer ran fun _ => .nothing).2 = .nothing ↔ ran.returned := by
  rw [answer, Ran.returned]
  cases ran.result <;> simp [Except.isOk, Except.toBool]

/-- A cache that is closed still stores and looks up: a store returns if no hook panics, and what it
has stored is found. -/
theorem get_after_store (hclosed : s.cache.isOpen = false) (hnone : s.cache.sweeper = none)
    (key : String) (value : V) (ttl : Duration) (listener keep : Option Name) :
    let stored := s.step (.store key value ttl listener)
    (s.cache.store.alarms = [] → stored.2 = .nothing)
      ∧ (stored.2 = .nothing → (stored.1.step (.get key keep)).2 = .value (some value)) := by
  intro stored
  let met : Store V := { s.cache.store with owners := (s.owners.allocate value).1 }
  let cell : Cell V := (s.owners.allocate value).2
  let entry : TimedEntry V := { TimedEntry.create s.now key (.strong cell) ttl with listener }
  have hreply : stored.2 = .nothing ↔ (met.put s.cache.wall key (.timed entry)).returned := by
    have hresult := touching_result { s.cache with store := met } fun st t => st.put t key (.timed entry)
    have hreturned := congrArg Except.isOk hresult
    exact (answer_eq_nothing_iff s _).trans (iff_of_eq (congrArg (· = true) hreturned))
  have hserved := s.perform_served (c := .store key value ttl listener) rfl
  have hperformed : (s.perform (.store key value ttl listener)).1.cache.sweeper = none := by
    have hshift : s.cache.shift = none := by rw [shift, hnone, Option.map_none]
    obtain hsame | ⟨hopen, -⟩ := hserved.shift
    · exact Option.map_eq_none_iff.mp (hsame.trans hshift)
    · rw [hclosed] at hopen
      cases hopen
  have hcache : stored.1.cache = (s.perform (.store key value ttl listener)).1.cache :=
    step_cache_of_sweeper_eq_none hperformed
  refine ⟨fun hquiet => hreply.mpr (Store.put_returned_of_quiet hquiet), fun hstored => ?_⟩
  have hafter : stored.1.cache.store = (met.put s.cache.wall key (.timed entry)).state := by
    rw [hcache]
    exact touching_store { s.cache with store := met } _
  have hwall : stored.1.cache.wall = s.cache.wall := by rw [hcache, hserved.attended.wall]
  have hfind : stored.1.cache.store.find? key = some (.timed entry) := by
    rw [hafter]
    exact Store.find?_of_put (hreply.mp hstored)
  have hlive : (Entry.timed entry).isLive (stored.1.cache.store.moment []) stored.1.cache.wall.stamp := by
    rw [hwall]
    exact Entry.isLive_create (Word.wrap_lt _) key cell ttl listener
  have hget : (stored.1.cache.get key).result = .ok (some cell) :=
    (touching_result _ _).trans (Store.get_result_of_timed hfind hlive)
  exact get_answer hget keep

/-- A sweeper never runs where tasks cannot be started. Where they can, one runs whenever there is an
entry, and after every command that asks for one and returns, until the cache is closed; other commands
start none. Closing the cache empties it, and no sweeper and no listener of one is running from then on,
but entries can be stored and looked up. All this whatever other hooks panic than those of a put. -/
theorem sweeper_life_cycle (settings : Settings) (hosted : Bool) (host : Host) (wall : WallTime)
    (commands : List (Command V))
    (hputs : ∀ o ∈ (opened settings hosted host wall).history commands, o.isPut → o.returned) :
    let s : Session V := (opened settings hosted host wall).run commands
    (hosted = false → s.cache.sweeperRunning = false)
      ∧ (hosted = true → .shutdown ∉ commands →
        (0 < s.cache.store.size → s.cache.sweeperRunning)
        ∧ ∀ c, s.Summons c → (s.perform c).1.cache.sweeperRunning
          ∧ (0 < settings.sweepInterval.pause → (s.step c).1.cache.sweeperRunning))
      ∧ (∀ c : Command V, c.isSummons = false → s.cache.sweeperRunning = false →
        (s.step c).1.cache.sweeperRunning = false)
      ∧ (s.step .shutdown).1.cache.store.size = 0
      ∧ (.shutdown ∈ commands →
        s.cache.sweeperRunning = false ∧ s.cache.listenerRunning = false
        ∧ ∀ key value ttl listener keep,
          let stored := s.step (.store key value ttl listener)
          (s.cache.store.alarms = [] → stored.2 = .nothing)
            ∧ (stored.2 = .nothing → (stored.1.step (.get key keep)).2 = .value (some value))) := by
  intro s
  have htended : s.cache.Tended :=
    run_tended ⟨fun _ => rfl, fun _ hentries => absurd rfl hentries⟩ hputs
  have hisOpen : s.cache.isOpen = (hosted && !commands.any Command.isShutdown) :=
    (run_isOpen _ commands).trans (congrArg (· && _) (Bool.and_true hosted))
  have hidle (hclosed : s.cache.isOpen = false) : s.cache.sweeperRunning = false := by
    rw [sweeperRunning, htended.unmanned hclosed]
    rfl
  refine ⟨fun hhosted => hidle (by rw [hisOpen, hhosted, Bool.false_and]), fun hhosted hkept => ?_,
    fun c hsummons hnone => ?_, ?_, fun hclosing => ?_⟩
  · have hopen : s.cache.isOpen := by
      rw [← Command.any_isShutdown, Bool.not_eq_true] at hkept
      rw [hisOpen, hhosted, hkept]
      rfl
    refine ⟨fun hsize => htended.manned hopen (List.ne_nil_of_length_pos hsize), fun c hc => ?_⟩
    have hrunning := perform_summons hopen hc
    refine ⟨hrunning, fun hpause => ?_⟩
    rw [step_cache (run_prompt (opened_prompt settings hosted host wall) hpause commands) hpause]
    exact hrunning
  · rw [sweeperRunning, Option.isSome_eq_false_iff, Option.isNone_iff_eq_none] at hnone ⊢
    have hperformed := perform_sweeper_eq_none hnone hsummons
    rw [step_cache_of_sweeper_eq_none hperformed]
    exact hperformed
  · have hempty : (s.perform .shutdown).1.cache.store.entries = [] := s.cache.shutdown_entries
    have hnone : (s.perform .shutdown).1.cache.sweeper = none := s.cache.shutdown_spec.2.1
    rw [step_cache_of_sweeper_eq_none hnone, Store.size, hempty]
    rfl
  · have hclosed : s.cache.isOpen = false := by
      rw [hisOpen, (Command.any_isShutdown commands).mpr hclosing, Bool.not_true, Bool.and_false]
    have hnone := htended.unmanned hclosed
    refine ⟨hidle hclosed, by rw [listenerRunning, hnone]; rfl, fun key value ttl listener keep => ?_⟩
    exact get_after_store hclosed hnone key value ttl listener keep

/-- A hook panics while the sweeper drains the store to retire; a later use starts another sweeper,
and then the cache is closed, which another hook interrupts. -/
def closedRun : List (Command Nat) :=
  [.store "a" 1 (.ofSeconds 0) (some "l"), .arm ⟨"l", .uncached, none⟩, .advance 5000,
    .store "b" 2 (.ofSeconds 0) (some "l"), .arm ⟨"l", .uncached, none⟩, .shutdown]

/-- The session in which that happens. -/
def idleStart : Session Nat :=
  opened { sweepInterval := .ofSeconds 1, idleTimeout := .ofSeconds 2 } true { link := .connected } 0

/-- After the panic no sweeper is running, after the next use one is, and after closing none is, though
an entry can be stored and found. -/
theorem sweeper_life_cycle_closed :
    (idleStart.run (closedRun.take 3)).cache.sweeperRunning = false
      ∧ (idleStart.run (closedRun.take 4)).cache.sweeperRunning
      ∧ (idleStart.run closedRun).cache.sweeperRunning = false
      ∧ (((idleStart.run closedRun).step (.store "c" 3 (.ofSeconds 1) none)).1.step (.get "c" none)).2
        = .value (some 3) := by
  have hputs : ∀ o ∈ idleStart.history closedRun, o.isPut → o.returned := by decide +kernel
  have hputs' : ∀ o ∈ idleStart.history (closedRun.take 4), o.isPut → o.returned := by decide +kernel
  have hkept : .shutdown ∉ closedRun.take 4 := by simp [closedRun]
  have hopen := sweeper_life_cycle { sweepInterval := .ofSeconds 1, idleTimeout := .ofSeconds 2 } true
    { link := .connected } 0 (closedRun.take 4) hputs'
  have hclosed := sweeper_life_cycle { sweepInterval := .ofSeconds 1, idleTimeout := .ofSeconds 2 } true
    { link := .connected } 0 closedRun hputs
  obtain ⟨hnone, -, hworks⟩ := hclosed.2.2.2.2 (by simp [closedRun])
  obtain ⟨hstores, hfinds⟩ := hworks "c" 3 (.ofSeconds 1) none none
  have hrunning := (hopen.2.1 rfl hkept).1 (by decide +kernel)
  exact ⟨by decide +kernel, hrunning, hnone, hfinds (hstores (by decide +kernel))⟩

end Session

end TimedCache
