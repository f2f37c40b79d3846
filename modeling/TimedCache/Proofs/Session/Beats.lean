import TimedCache.Proofs.Session.Retirement
import TimedCache.Proofs.Session.Rhythm

/-!
# Only uses keep a sweeper alive

In a run only a few commands are beats of the sweeper's rhythm: those that move the clocks, ask for a
sweeper or close the cache, and those that use the store. Which key a use is about, what it stores or
finds, and what happens between the beats, has no influence on the sweeper, so no removal by prefix can
put off its end.
-/

namespace TimedCache

variable {V : Type}

namespace Session

open Cache

variable (s : Session V)

/-- The beat that a command is, if it is one. A command that cannot make the holder it would store does
not use the store. -/
def beat? : Command V → Option Beat
  | .advance millis => some (.advance millis)
  | .skew millis => some (.skew millis)
  | .ensureSweeper => some .ensureSweeper
  | .shutdown => some .shutdown
  | c => if (s.performActions c).any Action.isUse then some .touch else none

/-- The beats of a run. -/
def beats (s : Session V) : List (Command V) → List Beat
  | [] => []
  | c :: rest => (s.beat? c).toList ++ (s.step c).1.beats rest

/-- The rhythm after a command depends on the beat that it is. -/
def goesOn (r : Rhythm) : Option Beat → Rhythm
  | none => r
  | some b => r.beat b

variable {s}

/-- A use leaves its time behind, whether it returns or not. -/
theorem perform_lastTouch {c : Command V} (hc : c.isUse) (huse : (s.performActions c).any Action.isUse) :
    (s.perform c).1.cache.store.stats.lastTouch = s.cache.wall.stamp := by
  rw [perform_store]
  obtain hnothing | ⟨owners, key, e, hput⟩ | ⟨key, _, hget⟩ | ⟨key, huncache⟩ :=
    s.performActions_of_isUse hc
  · rw [hnothing] at huse
    cases huse
  · rw [hput]
    exact Store.act_lastTouch (s.cache.store.act (.refer owners)) (.put s.cache.wall key e)
  · rw [hget]
    exact Store.act_lastTouch s.cache.store (.get s.cache.wall key)
  · rw [huncache]
    exact Store.act_lastTouch s.cache.store (.uncache s.cache.wall key)

/-- If the uses of a command return, so does everything that it does to the store. -/
theorem returned_of_uses {c : Command V} (hc : c.isUse)
    (huses : ∀ o ∈ s.cache.store.history (s.performActions c), o.action.isUse → o.returned) :
    ∀ o ∈ s.cache.store.history (s.performActions c), o.returned := by
  obtain hnothing | ⟨_, _, _, hput⟩ | ⟨_, _, hget⟩ | ⟨_, huncache⟩ := s.performActions_of_isUse hc
  · rw [hnothing]
    exact fun _ ho => by cases ho
  · rw [hput] at huses ⊢
    obtain ⟨-, hlast⟩ := List.forall_mem_cons.mp huses
    exact List.forall_mem_cons.mpr ⟨rfl, fun o ho => hlast o ho (List.mem_singleton.mp ho ▸ rfl)⟩
  · rw [hget] at huses ⊢
    obtain ⟨hfirst, -⟩ := List.forall_mem_cons.mp huses
    exact List.forall_mem_cons.mpr ⟨hfirst rfl, List.forall_mem_singleton.mpr rfl⟩
  · rw [huncache] at huses ⊢
    exact List.forall_mem_singleton.mpr (huses _ List.mem_cons_self rfl)

/-- A command that would use the store and does not do so changes nothing at all. -/
theorem perform_of_unused {c : Command V} (hc : c.isUse)
    (hunused : (s.performActions c).any Action.isUse = false) : (s.perform c).1 = s := by
  have hnothing : s.performActions c = [] := by
    obtain hnothing | ⟨_, _, _, hput⟩ | ⟨_, _, hget⟩ | ⟨_, huncache⟩ := s.performActions_of_isUse hc
    · exact hnothing
    · rw [hput] at hunused
      cases hunused
    · rw [hget] at hunused
      cases hunused
    · rw [huncache] at hunused
      cases hunused
  cases c with
  | storeHeld key holding ttl =>
    rw [performActions, putHeldActions] at hnothing
    change (s.putHeld key holding ttl).1 = s
    rw [putHeld]
    cases hmake : holding.make? s.owners with
    | none => rfl
    | some made =>
      rw [hmake] at hnothing
      cases hnothing
  | store | storeEntry | storeCustom | get | uncache => cases hnothing
  | _ => cases hc

/-- A command that takes no time is a beat if it uses the store, and by nothing else. -/
theorem beat?_of_isInstant {c : Command V} (hc : c.isInstant) (hensure : c ≠ .ensureSweeper) :
    s.beat? c = if (s.performActions c).any Action.isUse then some .touch else none := by
  cases c <;> first | rfl | exact absurd rfl hensure | cases hc

/-- A command that asks for no sweeper and takes no time leaves the rhythm. -/
theorem around_rhythm {c : Command V} (hinstant : c.isInstant) (hsummons : c.isSummons = false) :
    (s.perform c).1.cache.rhythm = s.cache.rhythm ∧ s.beat? c = none := by
  have huse : c.isUse = false := by cases c <;> first | rfl | cases hsummons
  have hunused : ∀ a ∈ s.performActions c, a.isUse = false := fun a => s.isUse_of_mem_performActions huse
  have hnoted : (s.perform c).1.cache.store.stats.lastTouch = s.cache.store.stats.lastTouch := by
    rw [perform_store, Store.follow_lastTouch_of_unused]
    exact fun a ha => Action.usedAt?_of_not_isUse (hunused a ha)
  refine ⟨?_, ?_⟩
  · obtain ⟨_, _, _, -, hsame⟩ := s.perform_around hinstant hsummons
    rw [hsame] at hnoted ⊢
    exact Rhythm.ext rfl rfl rfl rfl rfl hnoted rfl
  · have hensure : c ≠ .ensureSweeper := fun h => by simp [h, Command.isSummons] at hsummons
    rw [beat?_of_isInstant hinstant hensure, if_neg]
    simpa using hunused

/-- A use of the store moves the rhythm on by a touch, unless there was nothing to store. -/
theorem use_rhythm {c : Command V} (hc : c.isUse)
    (huses : ∀ o ∈ s.cache.store.history (s.performActions c), o.action.isUse → o.returned) :
    (s.perform c).1.cache.rhythm = goesOn s.cache.rhythm (s.beat? c) := by
  have hinstant : c.isInstant := by cases c <;> first | rfl | cases hc
  have hensure : c ≠ .ensureSweeper := by
    rintro rfl
    cases hc
  rw [beat?_of_isInstant hinstant hensure]
  split
  · next huse =>
    have hrunning (hopen : s.cache.isOpen) : (s.perform c).1.cache.dueAt.isSome :=
      s.perform_dueAt hopen (returned_of_uses hc huses) (List.any_eq_true.mp huse)
    rw [(s.perform_attended hinstant).rhythm hrunning, perform_lastTouch hc huse]
    rfl
  · next hunused =>
    rw [perform_of_unused hc (Bool.eq_false_iff.mpr hunused)]
    rfl

/-- A sweeper that is asked for is the beat of that command. -/
theorem ensureSweeper_rhythm : (s.perform .ensureSweeper).1.cache.rhythm = s.cache.rhythm.summon := by
  have hrunning (hopen : s.cache.isOpen) : s.cache.ensureSweeper.dueAt.isSome := by
    rw [dueAt_eq, ensureSweeper_shift _ hopen]
    rfl
  have hstarted := (s.perform_attended (c := .ensureSweeper) rfl).rhythm hrunning
  rw [perform_store] at hstarted
  exact hstarted

/-- What a command does by itself to the rhythm is the beat that it is. -/
theorem perform_rhythm {c : Command V}
    (huses : ∀ o ∈ s.cache.store.history (s.performActions c), o.action.isUse → o.returned) :
    (s.perform c).1.cache.rhythm = goesOn s.cache.rhythm (s.beat? c) := by
  cases hinstant : c.isInstant with
  | false =>
    cases c with
    | advance millis => exact s.cache.advance_rhythm millis
    | skew millis => rfl
    | shutdown => exact s.cache.shutdown_rhythm
    | _ => cases hinstant
  | true =>
    cases hsummons : c.isSummons with
    | false =>
      obtain ⟨hsame, hbeat⟩ := around_rhythm hinstant hsummons
      rw [hsame, hbeat]
      rfl
    | true =>
      by_cases hensure : c = .ensureSweeper
      · rw [hensure]
        exact ensureSweeper_rhythm
      · have hc : c.isUse := by cases c <;> first | rfl | exact absurd rfl hensure | cases hsummons
        exact use_rhythm hc huses

/-- A command leaves the settings. -/
theorem perform_settings (s : Session V) (c : Command V) :
    (s.perform c).1.cache.settings = s.cache.settings := by
  cases hinstant : c.isInstant with
  | true => exact (s.perform_attended hinstant).settings
  | false =>
    cases c with
    | advance millis =>
      exact advance_invariant (P := fun d => d.settings = s.cache.settings) (fun _ _ hd => hd)
        (fun d hd => d.wake_settings.trans hd) millis rfl
    | skew millis => rfl
    | shutdown => exact s.cache.shutdown_spec.2.2
    | _ => cases hinstant

/-- There is nothing left to settle. If the sweeper pauses that is because no wake-up is due. -/
structure AtRest (s : Session V) : Prop where
  settled : s.cache.rhythm.settle = s.cache.rhythm
  ahead : 0 < s.cache.settings.sweepInterval.pause → s.cache.Ahead

theorem AtRest.step (h : s.AtRest) (c : Command V) : (s.step c).1.AtRest := by
  by_cases hpause : 0 < s.cache.settings.sweepInterval.pause
  · have hprompt : s.cache.Prompt s.cache.settings.sweepInterval.pause := ⟨rfl, h.ahead hpause⟩
    have hahead := (perform_prompt hprompt hpause c).ahead
    have hsettled : (s.step c).1.cache = (s.perform c).1.cache := hahead.settle
    refine ⟨?_, fun _ => hsettled ▸ hahead⟩
    rw [hsettled, ← settle_rhythm, hahead.settle]
  · have hsettings : (s.step c).1.cache.settings = s.cache.settings :=
      settle_invariant (P := fun d => d.settings = s.cache.settings)
        (fun d hd => d.wake_settings.trans hd) (s.perform_settings c)
    refine ⟨?_, fun hpositive => absurd (hsettings ▸ hpositive) hpause⟩
    have hnone : (s.perform c).1.cache.rhythm.pause = 0 :=
      (congrArg (fun x => x.sweepInterval.pause) (s.perform_settings c)).trans
        (Nat.eq_zero_of_not_pos hpause)
    change (s.perform c).1.cache.settle.rhythm.settle = (s.perform c).1.cache.settle.rhythm
    rw [settle_rhythm, Rhythm.settle_settle hnone]

/-- A command moves the rhythm on by the beat that it is, and leaves it otherwise. -/
theorem step_rhythm (h : s.AtRest) {c : Command V}
    (huses : ∀ o ∈ s.cache.store.history (s.performActions c), o.action.isUse → o.returned) :
    (s.step c).1.cache.rhythm = s.cache.rhythm.follow (s.beat? c).toList := by
  change (s.perform c).1.cache.settle.rhythm = _
  rw [settle_rhythm, perform_rhythm huses]
  cases s.beat? c with
  | none => exact h.settled
  | some b => rfl

/-- The rhythm after a run is what its beats make of the rhythm before. -/
theorem run_rhythm (h : s.AtRest) {commands : List (Command V)}
    (huses : ∀ o ∈ s.history commands, o.action.isUse → o.returned) :
    (s.run commands).cache.rhythm = s.cache.rhythm.follow (s.beats commands) := by
  induction commands generalizing s with
  | nil => rfl
  | cons c rest ih =>
    rw [history, script, actions, Store.history_append, Store.history_append] at huses
    obtain ⟨hfirst, hlater⟩ := List.forall_mem_append.mp huses
    obtain ⟨hperformed, -⟩ := List.forall_mem_append.mp hfirst
    have hrest := ih (s := (s.step c).1) (h.step c) (by rw [history, step_store]; exact hlater)
    rw [beats, Rhythm.follow, List.foldl_append]
    change ((s.step c).1.run rest).cache.rhythm = Rhythm.follow (Rhythm.follow _ _) _
    rw [hrest, step_rhythm h hperformed]

/-- In a new session there is nothing to settle. -/
theorem opened_atRest (settings : Settings) (hosted : Bool) (host : Host) (wall : WallTime) :
    (opened settings hosted host wall : Session V).AtRest :=
  ⟨rfl, fun _ => (opened_prompt settings hosted host wall).ahead⟩

/-- Two sessions with the same settings and the same clock, both of which can run tasks or cannot, agree
on the sweeper and on how long ago the store was used at any two points up to which there were the same
beats: clock movements, calls that ask for a sweeper or close the cache, and uses that return. No other
command is a beat, as long as it takes no time. -/
theorem only_beats_move_sweeper (settings : Settings) (hosted : Bool) (host host' : Host)
    (wall : WallTime) {commands commands' : List (Command V)}
    (huses : ∀ o ∈ (opened settings hosted host wall).history commands, o.action.isUse → o.returned)
    (huses' : ∀ o ∈ (opened settings hosted host' wall).history commands', o.action.isUse → o.returned)
    (hbeats : (opened settings hosted host wall).beats commands
      = (opened settings hosted host' wall).beats commands') :
    let s := (opened settings hosted host wall).run commands
    let s' := (opened settings hosted host' wall).run commands'
    s.cache.sweeperRunning = s'.cache.sweeperRunning
      ∧ s.cache.store.stats.lastTouch = s'.cache.store.stats.lastTouch
      ∧ s.cache.store.useAge s.cache.wall = s'.cache.store.useAge s'.cache.wall
      ∧ ∀ c : Command V, c.isInstant → c.isSummons = false → s.beat? c = none := by
  intro s s'
  have hrun := run_rhythm (opened_atRest settings hosted host wall) huses
  have hrun' := run_rhythm (opened_atRest settings hosted host' wall) huses'
  have hsame : s.cache.rhythm = s'.cache.rhythm := by
    rw [hrun, hrun', hbeats]
    rfl
  have hrunning (d : Cache V) : d.sweeperRunning = d.rhythm.due.isSome := Option.isSome_map.symm
  refine ⟨by rw [hrunning, hrunning, hsame], congrArg Rhythm.lastTouch hsame,
    congrArg Rhythm.useAge hsame, fun c hinstant hsummons => (around_rhythm hinstant hsummons).2⟩

/-- An entry is stored, read and removed by a datagram, and what is left is swept and drained. -/
def crowdedRun : List (Command Nat) :=
  [.store "a" 1 (.ofSeconds 9) (some "l"), .listen, .advance 500, .get "a" none,
    .store "b" 2 (.ofSeconds 1) none, .advance 1400, .datagram [97, 10], .uncacheLike "c", .sweep, .drain,
    .useAge, .advance 1200]

/-- The store is used at the same times, and for nothing else. -/
def sparseRun : List (Command Nat) :=
  [.uncache "x", .advance 500, .get "x" none, .uncache "y", .advance 1400, .advance 1200]

/-- The sweeper is running in both sessions until the time that has passed last, and in none of them then,
though a datagram has removed something in one of them just before. -/
theorem only_beats_move_sweeper_datagram :
    ((idleStart.run (crowdedRun.take 6)).step (.datagram [97, 10])).2 = .delivery .applied
      ∧ (idleStart.run (crowdedRun.take 11)).cache.sweeperRunning
      ∧ (idleStart.run (sparseRun.take 5)).cache.sweeperRunning
      ∧ (idleStart.run crowdedRun).cache.sweeperRunning = false
      ∧ (idleStart.run sparseRun).cache.sweeperRunning = false := by
  have huses : ∀ o ∈ idleStart.history crowdedRun, o.action.isUse → o.returned := by decide +kernel
  have huses' : ∀ o ∈ idleStart.history sparseRun, o.action.isUse → o.returned := by decide +kernel
  have hbeats : idleStart.beats crowdedRun = idleStart.beats sparseRun := by decide +kernel
  obtain ⟨hsame, -⟩ := only_beats_move_sweeper { sweepInterval := .ofSeconds 1, idleTimeout := .ofSeconds 2 }
    true { link := .connected } { link := .connected } 0 huses huses' hbeats
  have hretired : (idleStart.run sparseRun).cache.sweeperRunning = false := by decide +kernel
  exact ⟨rfl, by decide +kernel, by decide +kernel, hsame.trans hretired, hretired⟩

end Session

end TimedCache
