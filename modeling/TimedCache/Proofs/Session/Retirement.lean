import TimedCache.Proofs.Session.Waking
import TimedCache.Proofs.Store.Regardless

/-!
# When a sweeper retires

While nobody sets the clock or closes the cache, the wake-ups of a sweeper lie at its start plus the
multiples of its pause. It retires at the first of them at which the store has been idle for the idle
timeout. So it never retires before that, and when it does is no more than a sweep interval later, or a
sweep interval after its start if it was started when the store had been idle for so long already.
-/

namespace TimedCache

variable {V : Type}

/-- The command neither sets the clock nor closes the cache. -/
def Command.isSteady : Command V → Bool
  | .skew _ | .shutdown => false
  | _ => true

namespace Cache

/-- The time at which a sweeper started, if the clock was not set since. -/
def startTime (c : Cache V) (sw : Sweeper) : WallTime := c.wall - ((c.timer : Int) - sw.startedAt)

/-- The cache is open, its clock has run since it showed the origin when the timer showed nothing, and
the store was used last at the given time. No wake-up is due; the next one is the first of its sweeper,
or follows on one at which the store had not been idle for long enough. -/
structure Punctual (pause idle origin used : Nat) (c : Cache V) : Prop where
  isOpen : c.isOpen
  paused : c.settings.sweepInterval.pause = pause
  timeout : c.settings.idleTimeout.wordMillis = idle
  clock : c.wall = ((origin + c.timer : Nat) : Int)
  noted : c.store.stats.lastTouch = WallTime.stamp (used : Int)
  past : used ≤ origin + c.timer
  next : ∀ start due, c.shift = some (start, due) →
    c.timer < due ∧ (due = start + pause ∨ origin + due < used + idle + pause)

variable {pause idle origin used : Nat} {c : Cache V}

namespace Punctual

theorem ahead (h : c.Punctual pause idle origin used) : c.Ahead := by
  intro due hdue
  rw [dueAt_eq] at hdue
  obtain ⟨⟨start, due⟩, hshift, rfl⟩ := Option.map_eq_some_iff.mp hdue
  exact (h.next start due hshift).1

/-- The wall clock keeps up with the timer. -/
theorem runTo_wall (h : c.Punctual pause idle origin used) (timer : Nat) :
    (c.runTo timer).wall = ((origin + timer : Nat) : Int) := by
  have hpassed : ((origin + c.timer : Nat) : Int) + ((timer : Int) - c.timer)
      = ((origin + timer : Nat) : Int) := by omega
  rw [Cache.runTo, h.clock, hpassed]

/-- The clocks may run on until the sweeper is due. -/
theorem runTo (h : c.Punctual pause idle origin used) {timer : Nat} (hlater : c.timer ≤ timer)
    (hbefore : ∀ due, c.dueAt = some due → timer < due) :
    (c.runTo timer).Punctual pause idle origin used := by
  refine ⟨h.isOpen, h.paused, h.timeout, h.runTo_wall timer, h.noted, ?_, fun start due hshift => ?_⟩
  · exact Nat.le_trans h.past (Nat.add_le_add_left hlater origin)
  · refine ⟨hbefore due ?_, (h.next start due hshift).2⟩
    rw [dueAt_eq]
    exact congrArg (Option.map Prod.snd) hshift

/-- A sweeper that wakes when it is due retires if the store has been idle for long enough, and goes on
otherwise. -/
theorem wake (h : c.Punctual pause idle origin used) (hpause : 0 < pause) {start due : Nat}
    (hshift : c.shift = some (start, due)) (hbound : origin + due < Word.bound) :
    (c.runTo due).wake.Punctual pause idle origin used
      ∧ (used + idle ≤ origin + due ∧ (c.runTo due).wake.sweeper = none
        ∨ origin + due < used + idle ∧ (c.runTo due).wake.shift = some (start, due + pause)) := by
  have hlater := (h.next start due hshift).1
  have hpast := h.past
  have hwall := h.runTo_wall due
  have hmet : (c.runTo due).store.stats.lastTouch = WallTime.stamp (used : Int) := h.noted
  have hage : (c.runTo due).store.useAge (c.runTo due).wall = origin + due - used := by
    rw [Store.useAge, Stats.useAge, hwall, hmet, WallTime.stamp_ofNat hbound,
      WallTime.stamp_ofNat (by omega)]
  have hcases := (c.runTo due).wake_shift hshift
  rw [hage, show (c.runTo due).settings = c.settings from rfl, h.timeout, h.paused] at hcases
  have hnoted : (c.runTo due).wake.store.stats.lastTouch = WallTime.stamp (used : Int) :=
    (wake_lastTouch _).trans hmet
  refine ⟨⟨?_, ?_, ?_, ?_, hnoted, ?_, fun start' due' hnext => ?_⟩, ?_⟩
  · rw [wake_isOpen]
    exact h.isOpen
  · rw [wake_settings]
    exact h.paused
  · rw [wake_settings]
    exact h.timeout
  · rw [wake_wall, wake_timer]
    exact hwall
  · rw [wake_timer]
    change used ≤ origin + due
    omega
  · rw [wake_timer]
    obtain ⟨-, -, hnone⟩ | ⟨hused, -, hsome⟩ := hcases
    · rw [shift, hnone] at hnext
      cases hnext
    · rw [hsome] at hnext
      cases hnext
      change due < _ ∧ _
      omega
  · obtain ⟨hidle, -, hnone⟩ | ⟨hused, -, hsome⟩ := hcases
    · exact .inl ⟨by omega, hnone⟩
    · exact .inr ⟨by omega, hsome⟩

/-- Time passes, with all wake-ups in it. -/
theorem advance (h : c.Punctual pause idle origin used) (hpause : 0 < pause) {millis : Nat}
    (hbound : origin + (c.timer + millis) < Word.bound) :
    (c.advance millis).Punctual pause idle origin used := by
  refine (advance_induction (P := Punctual pause idle origin used) (fun d hd => hd.paused ▸ hpause)
    (fun d due hd hdue _ hreached _ => ?_) (fun d timer hd => hd.runTo) h h.ahead
    (fun _ _ => trivial)).1
  rw [dueAt_eq] at hdue
  obtain ⟨⟨start, due⟩, hshift, rfl⟩ := Option.map_eq_some_iff.mp hdue
  have hbefore : origin + due < Word.bound := by
    change due ≤ _ at hreached
    omega
  exact (hd.wake hpause hshift hbefore).1

/-- A sweeper that is asked for has a whole pause ahead, and one that is running keeps its wake-ups. -/
theorem served {d : Cache V} (h : c.Punctual pause idle origin used) (hpause : 0 < pause)
    (hserved : c.Served d) {used' : Nat} (hnoted : d.store.stats.lastTouch = WallTime.stamp (used' : Int))
    (hused : used ≤ used') (hpast : used' ≤ origin + c.timer) : d.Punctual pause idle origin used' := by
  have hattended := hserved.attended
  refine ⟨?_, hattended.settings ▸ h.paused, hattended.settings ▸ h.timeout, ?_, hnoted, ?_,
    fun start due hshift => ?_⟩
  · rw [Cache.isOpen, hattended.hosted, hattended.closed]
    exact h.isOpen
  · rw [hattended.wall, hattended.timer, h.clock]
  · rwa [hattended.timer]
  · rw [hattended.timer]
    obtain hsame | ⟨-, -, hstarted⟩ := hserved.shift
    · have hnext := h.next start due (hsame ▸ hshift)
      omega
    · rw [hstarted, h.paused] at hshift
      cases hshift
      omega

theorem startTime_eq (h : c.Punctual pause idle origin used) (sw : Sweeper) :
    c.startTime sw = ((origin + sw.startedAt : Nat) : Int) := by
  have hpassed : ((origin + c.timer : Nat) : Int) - ((c.timer : Int) - sw.startedAt)
      = ((origin + sw.startedAt : Nat) : Int) := by omega
  rw [startTime, h.clock, hpassed]

/-- A sweeper is running no longer than a pause after the idle timeout, or after its start. -/
theorem lt_of_sweeper (h : c.Punctual pause idle origin used) {sw : Sweeper}
    (hsweeper : c.sweeper = some sw) :
    origin + c.timer < max (used + idle) (origin + sw.startedAt) + pause := by
  have hshift : c.shift = some (sw.startedAt, sw.wakesAt) := by rw [shift, hsweeper, Option.map_some]
  have hnext := h.next _ _ hshift
  omega

end Punctual

/-- A sweeper is on its way to retire at a timer position, the first of its wake-ups at which the store
has been idle for long enough, or it has retired then. -/
structure Destined (pause idle origin used last : Nat) (c : Cache V) : Prop where
  punctual : c.Punctual pause idle origin used
  course : c.sweeper = none ∧ last ≤ c.timer
    ∨ ∃ start due pauses, c.shift = some (start, due) ∧ last = due + pauses * pause
      ∧ used + idle ≤ origin + last ∧ (0 < pauses → origin + last < used + idle + pause)

namespace Destined

variable {last : Nat}

theorem runTo (h : c.Destined pause idle origin used last) {timer : Nat} (hlater : c.timer ≤ timer)
    (hbefore : ∀ due, c.dueAt = some due → timer < due) :
    (c.runTo timer).Destined pause idle origin used last :=
  ⟨h.punctual.runTo hlater hbefore,
    h.course.imp_left fun ⟨hnone, hpast⟩ => ⟨hnone, Nat.le_trans hpast hlater⟩⟩

/-- When the sweeper is due it retires if that is its last wake-up, and has one less ahead otherwise. -/
theorem wake (h : c.Destined pause idle origin used last) (hpause : 0 < pause) {due : Nat}
    (hdue : c.dueAt = some due) (hbound : origin + due < Word.bound) :
    (c.runTo due).wake.Destined pause idle origin used last := by
  rw [dueAt_eq] at hdue
  obtain ⟨⟨start, due⟩, hshift, rfl⟩ := Option.map_eq_some_iff.mp hdue
  obtain ⟨hpunctual, hcases⟩ := h.punctual.wake hpause hshift hbound
  refine ⟨hpunctual, ?_⟩
  obtain ⟨hnone, -⟩ | ⟨start', due', pauses, hshift', rfl, hover, hearly⟩ := h.course
  · rw [shift, hnone] at hshift
    cases hshift
  · rw [hshift] at hshift'
    cases hshift'
    cases pauses with
    | zero =>
      obtain ⟨hidle, hretired⟩ | ⟨hused, -⟩ := hcases
      · refine .inl ⟨hretired, ?_⟩
        rw [wake_timer]
        change due + 0 * pause ≤ due
        omega
      · omega
    | succ pauses =>
      have hmore : (pauses + 1) * pause = pauses * pause + pause := Nat.succ_mul pauses pause
      have hbefore := hearly (Nat.succ_pos pauses)
      rw [hmore] at hover hbefore ⊢
      obtain ⟨hidle, -⟩ | ⟨hused, hnext⟩ := hcases
      · omega
      · refine .inr ⟨start, due + pause, pauses, hnext, by omega, hover, fun _ => hbefore⟩

theorem advance (h : c.Destined pause idle origin used last) (hpause : 0 < pause) {millis : Nat}
    (hbound : origin + (c.timer + millis) < Word.bound) :
    (c.advance millis).Destined pause idle origin used last := by
  refine (advance_induction (P := Destined pause idle origin used last)
    (fun d hd => hd.punctual.paused ▸ hpause) (fun d due hd hdue _ hreached _ => ?_)
    (fun d timer hd => hd.runTo) h h.punctual.ahead (fun _ _ => trivial)).1
  exact hd.wake hpause hdue (Nat.lt_of_le_of_lt (Nat.add_le_add_left hreached origin) hbound)

/-- The sweeper is running exactly until the timer has reached its last position. -/
theorem sweeperRunning_iff (h : c.Destined pause idle origin used last) :
    c.sweeperRunning ↔ c.timer < last := by
  obtain ⟨hnone, hpast⟩ | ⟨start, due, pauses, hshift, rfl, -⟩ := h.course
  · rw [sweeperRunning, hnone]
    exact iff_of_false Bool.false_ne_true (Nat.not_lt.mpr hpast)
  · have hahead := (h.punctual.next start due hshift).1
    rw [← shift_isSome, hshift]
    exact iff_of_true rfl (Nat.lt_of_lt_of_le hahead (Nat.le_add_right _ _))

end Destined

/-- A punctual sweeper has a last wake-up ahead. -/
theorem Punctual.exists_destined (h : c.Punctual pause idle origin used) (hpause : 0 < pause)
    (hrunning : c.sweeperRunning) :
    ∃ last, used + idle ≤ origin + last ∧ c.Destined pause idle origin used last := by
  obtain ⟨⟨start, due⟩, hshift⟩ := Option.isSome_iff_exists.mp (c.shift_isSome.trans hrunning)
  by_cases hover : used + idle ≤ origin + due
  · refine ⟨due, hover, h, .inr ⟨start, due, 0, hshift, ?_, hover, fun hpos => ?_⟩⟩
    · rw [Nat.zero_mul, Nat.add_zero]
    · exact absurd hpos (Nat.lt_irrefl 0)
  · -- as many pauses as it takes to cover what is left of the idle timeout
    let left := used + idle - (origin + due) - 1
    have hleft := Nat.div_add_mod left pause
    have hrest := Nat.mod_lt left hpause
    have hmore : (left / pause + 1) * pause = pause * (left / pause) + pause := by
      rw [Nat.succ_mul, Nat.mul_comm]
    refine ⟨due + (left / pause + 1) * pause, ?_, h,
      .inr ⟨start, due, left / pause + 1, hshift, rfl, ?_, fun _ => ?_⟩⟩
    all_goals
      rw [hmore]
      omega

/-- A sweeper that is running after some wake-ups has done nothing but sweep. -/
theorem sweeps_of_wakeUntil {target fuel : Nat} (hrunning : (wakeUntil target fuel c).sweeperRunning)
    {a : Action V} (ha : a ∈ wakeUntilActions target fuel c) : ∃ t, a = .sweep t := by
  induction fuel generalizing c with
  | zero => cases ha
  | succ fuel ih =>
    rw [wakeUntil] at hrunning
    rw [wakeUntilActions] at ha
    cases hsweeper : c.sweeper with
    | none =>
      rw [hsweeper] at ha
      cases ha
    | some sw =>
      rw [hsweeper] at ha hrunning
      dsimp only at ha hrunning
      split at ha
      · next hreached =>
        rw [if_pos hreached] at hrunning
        have hshift : (c.runTo (c.nextWake sw)).shift = some (sw.startedAt, sw.wakesAt) := by
          change c.shift = _
          rw [shift, hsweeper, Option.map_some]
        obtain ⟨-, -, hnone⟩ | ⟨-, hactions, -⟩ := (c.runTo (c.nextWake sw)).wake_shift hshift
        · -- a sweeper that has retired does not come back
          have hstill := sweeperRunning_wakeUntil hrunning
          rw [sweeperRunning, hnone] at hstill
          cases hstill
        · rcases List.mem_append.mp ha with ha | ha
          · rw [hactions] at ha
            exact ⟨_, List.mem_singleton.mp ha⟩
          · exact ih hrunning ha
      · cases ha

end Cache

namespace Session

open Cache

variable {s : Session V} {pause idle origin used : Nat}

/-- If a command uses the store, it does so now. -/
theorem usedAt?_of_mem_performActions {c : Command V} {a : Action V} (ha : a ∈ s.performActions c) :
    a.usedAt? = none ∨ a.usedAt? = some s.cache.wall := by
  cases huse : c.isUse with
  | false => exact .inl (Action.usedAt?_of_not_isUse (s.isUse_of_mem_performActions huse ha))
  | true =>
    obtain hnothing | ⟨_, _, _, hput⟩ | ⟨_, _, hget⟩ | ⟨_, huncache⟩ := s.performActions_of_isUse huse
    · rw [hnothing] at ha
      cases ha
    · rw [hput] at ha
      rcases List.mem_pair.mp ha with rfl | rfl
      · exact .inl rfl
      · exact .inr rfl
    · rw [hget] at ha
      rcases List.mem_pair.mp ha with rfl | rfl
      · exact .inr rfl
      · exact .inl rfl
    · rw [huncache] at ha
      exact .inr (List.mem_singleton.mp ha ▸ rfl)

/-- A steady command does not turn the clock back. -/
theorem wall_le_step (s : Session V) {c : Command V} (hc : c.isSteady) :
    s.cache.wall ≤ (s.step c).1.cache.wall := by
  have hsettled : (s.step c).1.cache.wall = (s.perform c).1.cache.wall := settle_wall _
  rw [hsettled]
  cases hinstant : c.isInstant with
  | true => exact Int.le_of_eq (s.perform_attended hinstant).wall.symm
  | false =>
    cases c with
    | advance millis =>
      change s.cache.wall ≤ (s.cache.advance millis).wall
      rw [(advance_clocks s.cache millis).2]
      exact Int.le_add_of_nonneg_right (Int.natCast_nonneg _)
    | skew | shutdown => cases hc
    | _ => cases hinstant

theorem wall_le_run (s : Session V) {commands : List (Command V)}
    (hcommands : ∀ c ∈ commands, c.isSteady) :
    s.cache.wall ≤ (s.run commands).cache.wall := by
  induction commands generalizing s with
  | nil => exact Int.le_refl _
  | cons c rest ih =>
    obtain ⟨hc, hrest⟩ := List.forall_mem_cons.mp hcommands
    exact Int.le_trans (s.wall_le_step hc) (ih _ hrest)

/-- A steady command keeps the sweeper punctual, and the latest use is that of the command, if it is
one. -/
theorem perform_punctual (h : s.cache.Punctual pause idle origin used) (hpause : 0 < pause)
    {c : Command V} (hc : c.isSteady) (hbound : (s.perform c).1.cache.wall < Word.bound) :
    ∃ used' : Nat, Action.lastUse (used : Int) (s.performActions c) = (used' : Int)
      ∧ (s.perform c).1.cache.Punctual pause idle origin used' := by
  cases hinstant : c.isInstant with
  | true =>
    have hnoted := Store.follow_lastTouch _ h.noted (s.performActions c)
    rw [← perform_store] at hnoted
    have hserved := s.perform_served hinstant
    obtain hlast | hlast := Action.lastUse_eq_or (fun _ ha => usedAt?_of_mem_performActions ha)
      (used : Int)
    · rw [hlast] at hnoted
      exact ⟨used, hlast, h.served hpause hserved hnoted (Nat.le_refl _) h.past⟩
    · rw [h.clock] at hlast
      rw [hlast] at hnoted
      exact ⟨_, hlast, h.served hpause hserved hnoted h.past (Nat.le_refl _)⟩
  | false =>
    cases c with
    | advance millis =>
      refine ⟨used, Action.lastUse_of_unused (fun a ha => ?_) _, h.advance hpause ?_⟩
      · exact Action.usedAt?_of_isRemoval (Action.isRemoval_of_isUpkeep (isUpkeep_of_mem_wakeUntilActions ha))
      · change (s.cache.advance millis).wall < Word.bound at hbound
        rw [(advance_clocks s.cache millis).2, h.clock, ← Int.natCast_add] at hbound
        rw [← Nat.add_assoc]
        exact Int.ofNat_lt.mp hbound
    | skew | shutdown => cases hc
    | _ => cases hinstant

/-- The same of the whole step, in which there is nothing to settle. -/
theorem step_punctual (h : s.cache.Punctual pause idle origin used) (hpause : 0 < pause)
    {c : Command V} (hc : c.isSteady) (hbound : (s.step c).1.cache.wall < Word.bound) :
    ∃ used' : Nat, Action.lastUse (used : Int) (s.actions c) = (used' : Int)
      ∧ (s.step c).1.cache.Punctual pause idle origin used' := by
  have hprompt : s.cache.Prompt pause := ⟨h.paused, h.ahead⟩
  have hsettled := (perform_prompt hprompt hpause c).ahead
  rw [step_cache hprompt hpause] at hbound ⊢
  rw [actions, hsettled.settleActions, List.append_nil]
  exact perform_punctual h hpause hc hbound

/-- Steady commands keep the sweeper punctual. -/
theorem run_punctual (h : s.cache.Punctual pause idle origin used) (hpause : 0 < pause)
    {commands : List (Command V)} (hcommands : ∀ c ∈ commands, c.isSteady)
    (hbound : (s.run commands).cache.wall < Word.bound) :
    ∃ used' : Nat, Action.lastUse (used : Int) (s.script commands) = (used' : Int)
      ∧ (s.run commands).cache.Punctual pause idle origin used' := by
  induction commands generalizing s used with
  | nil => exact ⟨used, rfl, h⟩
  | cons c rest ih =>
    obtain ⟨hc, hrest⟩ := List.forall_mem_cons.mp hcommands
    have hsooner : (s.step c).1.cache.wall < Word.bound :=
      Int.lt_of_le_of_lt (wall_le_run _ hrest) hbound
    obtain ⟨used₁, hlast, hstepped⟩ := step_punctual h hpause hc hsooner
    obtain ⟨used₂, hlast', hpunctual⟩ := ih hstepped hrest hbound
    exact ⟨used₂, by rw [script, Action.lastUse_append, hlast, hlast'], hpunctual⟩

/-- A new cache that can run tasks is punctual. -/
theorem opened_punctual (settings : Settings) (host : Host) (origin : Nat)
    (hidle : settings.idleTimeout.millis < Word.bound) :
    (opened settings true host origin : Session V).cache.Punctual settings.sweepInterval.pause
      settings.idleTimeout.millis origin origin :=
  ⟨rfl, rfl, Word.wrap_of_lt hidle, rfl, rfl, Nat.le_refl _, fun _ _ hshift => nomatch hshift⟩

/-- A sweeper that is left alone runs until its last wake-up, and does nothing but sweep before. -/
theorem advance_retires {last : Nat} (h : s.cache.Destined pause idle origin used last)
    (hpause : 0 < pause) {millis : Nat} (hbound : origin + (s.cache.timer + millis) < Word.bound) :
    ((s.step (.advance millis)).1.cache.sweeperRunning ↔ s.cache.timer + millis < last)
      ∧ ((s.step (.advance millis)).1.cache.sweeperRunning →
        ∀ a ∈ s.actions (.advance millis), ∃ t, a = .sweep t) := by
  have hprompt : s.cache.Prompt pause := ⟨h.punctual.paused, h.punctual.ahead⟩
  have hsettled := (perform_prompt hprompt hpause (.advance millis)).ahead.settleActions
  rw [step_cache hprompt hpause, actions, hsettled, List.append_nil]
  exact ⟨(h.advance hpause hbound).sweeperRunning_iff, fun hrunning a ha =>
    sweeps_of_wakeUntil hrunning ha⟩

/-- While a sweeper is running in a session that steady commands have led to, the store has not been idle
for the idle timeout and a sweep interval, unless the sweeper was started less than a sweep interval ago.
No command that takes no time ends it. If the store is left alone it retires at a moment when the idle
timeout is over, and until then does nothing but sweep; all this whatever hooks panic. -/
theorem retirement_window (settings : Settings) (host : Host) (wall : WallTime)
    (hwhole : settings.sweepInterval.nanos % 1000000 = 0)
    (hpositive : 0 < settings.sweepInterval.millis)
    (hidle : settings.idleTimeout.millis < Word.bound) (hwall : 0 ≤ wall)
    (commands : List (Command V)) (hcommands : ∀ c ∈ commands, c.isSteady) :
    let start : Session V := opened settings true host wall
    let s := start.run commands
    let limit : WallTime := Action.lastUse wall (start.script commands) + settings.idleTimeout.millis
    s.cache.wall < Word.bound → ∀ sw, s.cache.sweeper = some sw →
      s.cache.wall < max limit (s.cache.startTime sw) + settings.sweepInterval.millis
      ∧ (∀ c : Command V, c.isInstant → (s.step c).1.cache.sweeperRunning)
      ∧ ∃ retirement : WallTime, limit ≤ retirement
        ∧ ∀ millis : Nat, s.cache.wall + millis < Word.bound →
          let later := (s.step (.advance millis)).1
          (later.cache.sweeperRunning ↔ s.cache.wall + millis < retirement)
            ∧ (later.cache.sweeperRunning →
              ∀ a ∈ s.actions (.advance millis), ∃ t, a = .sweep t) := by
  intro start s limit hbound sw hsweeper
  obtain ⟨origin, rfl⟩ := Int.eq_ofNat_of_zero_le hwall
  have hpause := Duration.pause_pos hpositive
  obtain ⟨used, hused, hrun⟩ :=
    run_punctual (opened_punctual settings host origin hidle) hpause hcommands hbound
  have hpunctual : s.cache.Punctual settings.sweepInterval.pause settings.idleTimeout.millis origin used :=
    hrun
  have hlimit : limit = ((used + settings.idleTimeout.millis : Nat) : Int) :=
    congrArg (· + (settings.idleTimeout.millis : Int)) hused
  have hrunning : s.cache.sweeperRunning := by rw [sweeperRunning, hsweeper]; rfl
  rw [hlimit, hpunctual.startTime_eq, hpunctual.clock]
  refine ⟨?_, fun c hc => ?_, ?_⟩
  · have hbefore := hpunctual.lt_of_sweeper hsweeper
    have hinterval := Duration.pause_le_millis hwhole
    have hwindow : ((origin + s.cache.timer : Nat) : Int)
        < max ((used + settings.idleTimeout.millis : Nat) : Int) ((origin + sw.startedAt : Nat) : Int)
          + settings.sweepInterval.millis := by omega
    exact hwindow
  · rw [step_cache ⟨hpunctual.paused, hpunctual.ahead⟩ hpause]
    exact (s.perform_served hc).sweeperRunning hrunning
  · obtain ⟨last, hlast, hdestined⟩ := hpunctual.exists_destined hpause hrunning
    refine ⟨((origin + last : Nat) : Int), Int.ofNat_le.mpr hlast, fun millis hlater => ?_⟩
    have hfits : origin + (s.cache.timer + millis) < Word.bound := by
      rw [← Nat.add_assoc]
      exact Int.ofNat_lt.mp hlater
    obtain ⟨hretires, hsweeps⟩ := advance_retires hdestined hpause hfits
    have hclock : s.cache.timer + millis < last
        ↔ ((origin + s.cache.timer : Nat) : Int) + millis < ((origin + last : Nat) : Int) := by omega
    exact ⟨hretires.trans hclock, hsweeps⟩

/-- A sweeper retires, and a later use starts another one. A hook panics during its first sweep, and it
is asked for once more in between. -/
def retiringRun : List (Command Nat) :=
  [.store "a" 1 (.ofSeconds 0) none, .advance 4000, .store "b" 2 (.ofSeconds 1) (some "l"),
    .arm ⟨"l", .uncached, none⟩, .advance 600, .get "a" none, .ensureSweeper, .advance 1000]

/-- The settings for that: the sweeper wakes every second and a half. -/
def retiringSettings : Settings := { sweepInterval := ⟨1, 500000000⟩, idleTimeout := .ofSeconds 2 }

/-- The session that this leads to. -/
def retiring : Session Nat := (opened retiringSettings true { link := .connected } 0).run retiringRun

/-- The second sweeper has run for 1600 milliseconds, the last one of them after the latest use. It
retires at some time from 6600 on: left alone it is running still at 6999, and has retired at 7000. -/
theorem retirement_window_restart : retiring.cache.wall = 5600
    ∧ Action.lastUse 0 ((opened retiringSettings true { link := .connected } 0).script retiringRun) = 4600
    ∧ (retiring.step (.advance 1399)).1.cache.sweeperRunning = true
    ∧ (retiring.step (.advance 1400)).1.cache.sweeperRunning = false
    ∧ ∃ sw, retiring.cache.sweeper = some sw ∧ retiring.cache.startTime sw = 4000
      ∧ retiring.cache.wall < max (4600 + 2000) (retiring.cache.startTime sw) + 1500
      ∧ ∃ retirement : WallTime, 4600 + 2000 ≤ retirement
        ∧ ∀ millis : Nat, retiring.cache.wall + millis < Word.bound →
          ((retiring.step (.advance millis)).1.cache.sweeperRunning
            ↔ retiring.cache.wall + millis < retirement) := by
  have hused : Action.lastUse 0
      ((opened retiringSettings true { link := .connected } 0).script retiringRun) = 4600 := by
    decide +kernel
  have hrunning : retiring.cache.sweeper
      = some { startedAt := 4000, wakesAt := 7000, passes := 1, wanted := false } := by decide +kernel
  have hcommands : ∀ c ∈ retiringRun, c.isSteady := by decide
  have hbound : retiring.cache.wall < Word.bound := by decide +kernel
  obtain ⟨hbefore, -, retirement, hlimit, hretires⟩ := retirement_window retiringSettings
    { link := .connected } 0 rfl (by decide) (by decide) (Int.le_refl 0) retiringRun hcommands hbound _
    hrunning
  rw [hused] at hbefore hlimit
  refine ⟨by decide +kernel, hused, by decide +kernel, by decide +kernel, _, hrunning, by decide +kernel,
    hbefore, retirement, hlimit, fun millis hlater => (hretires millis hlater).1⟩

end Session

end TimedCache
