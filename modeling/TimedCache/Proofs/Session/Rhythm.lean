import TimedCache.Proofs.Session.LifeCycle

/-!
# The rhythm of a sweeper

Whether a sweeper runs, and when it wakes, depends on little: the settings, the clocks, the time of the
last use and the next wake-up. All this is read off a cache, and goes its way by rules of its own, in
which no entry, no hook and no listener has a part.
-/

namespace TimedCache

variable {V : Type}

/-- What the life of a sweeper depends on. -/
@[ext] structure Rhythm where
  /-- How long a sweeper waits between its wake-ups. -/
  pause : Nat
  /-- For how long the store has to be idle before a sweeper retires. -/
  idle : Nat
  isOpen : Bool
  wall : WallTime
  timer : Nat
  lastTouch : Timestamp
  /-- The timer position of the next wake-up, if a sweeper is running. -/
  due : Option Nat
deriving DecidableEq, Repr

/-- Something that the life of a sweeper depends on. -/
inductive Beat where
  | advance (millis : Nat)
  | skew (millis : Int)
  | ensureSweeper
  | shutdown
  /-- A put, a look-up or a removal by key. -/
  | touch
deriving DecidableEq, Repr

namespace Rhythm

/-- Milliseconds since the last use. -/
def useAge (r : Rhythm) : Nat := r.wall.stamp - r.lastTouch

/-- A sweeper that wakes retires after a long enough idle time, and waits for another pause otherwise. -/
def wake (r : Rhythm) : Rhythm :=
  { r with due := if r.idle ≤ r.useAge then none else r.due.map (· + r.pause) }

/-- Runs the wake-up that is due, if there is one. -/
def settle (r : Rhythm) : Rhythm :=
  match r.due with
  | none => r
  | some due => if due ≤ r.timer then r.wake else r

/-- Lets both clocks run up to a timer position. -/
def runTo (r : Rhythm) (timer : Nat) : Rhythm :=
  { r with timer, wall := r.wall + ((timer : Int) - r.timer) }

/-- Runs the wake-ups up to a timer position, at most as many as `fuel`. -/
def wakeUntil (target : Nat) : Nat → Rhythm → Rhythm
  | 0, r => r
  | fuel + 1, r =>
    match r.due with
    | none => r
    | some due =>
      let next := max due (r.timer + 1)
      if next ≤ target then wakeUntil target fuel (r.runTo next).wake else r

/-- Lets time pass. -/
def advance (r : Rhythm) (millis : Nat) : Rhythm :=
  (wakeUntil (r.timer + millis) millis r).runTo (r.timer + millis)

/-- Starts a sweeper where none is running and one can be. -/
def summon (r : Rhythm) : Rhythm :=
  { r with due := if r.isOpen then some (r.due.getD (r.timer + r.pause)) else r.due }

/-- What happens by itself at a beat. -/
def beat (r : Rhythm) : Beat → Rhythm
  | .advance millis => r.advance millis
  | .skew millis => { r with wall := r.wall + millis }
  | .ensureSweeper => r.summon
  | .shutdown => { r with isOpen := false, due := none }
  | .touch => { r with lastTouch := r.wall.stamp }.summon

/-- A beat, and the wake-up that is due after it. -/
def step (r : Rhythm) (b : Beat) : Rhythm := (r.beat b).settle

/-- Beats one after the other. -/
def follow (r : Rhythm) (beats : List Beat) : Rhythm := beats.foldl step r

/-- Where no sweeper is running there is nothing to settle. -/
theorem settle_of_due_eq_none {r : Rhythm} (h : r.due = none) : r.settle = r := by rw [settle, h]

/-- Without a pause a wake-up is the last one, or changes nothing. -/
theorem settle_settle {r : Rhythm} (hpause : r.pause = 0) : r.settle.settle = r.settle := by
  have hwake : r.wake.due = none ∨ r.wake = r := by
    by_cases hidle : r.idle ≤ r.useAge
    · exact .inl (if_pos hidle)
    · refine .inr (Rhythm.ext rfl rfl rfl rfl rfl rfl ?_)
      simp [wake, hidle, hpause]
  have hsettled : r.settle = r.wake ∨ r.settle = r := by
    rw [settle]
    split
    · exact .inr rfl
    · split
      · exact .inl rfl
      · exact .inr rfl
  obtain hsettled | hsettled := hsettled
  · obtain hnone | hsame := hwake
    · rw [hsettled, settle_of_due_eq_none hnone]
    · rw [hsame] at hsettled
      rw [hsettled, hsettled]
  · rw [hsettled, hsettled]

end Rhythm

namespace Cache

/-- What the life of the sweeper of a cache depends on. -/
def rhythm (c : Cache V) : Rhythm where
  pause := c.settings.sweepInterval.pause
  idle := c.settings.idleTimeout.wordMillis
  isOpen := c.isOpen
  wall := c.wall
  timer := c.timer
  lastTouch := c.store.stats.lastTouch
  due := c.dueAt

variable (c : Cache V)

/-- Whether a sweeper that wakes retires depends on its rhythm alone. -/
theorem wake_rhythm : c.wake.rhythm = c.rhythm.wake := by
  have hdue : c.wake.dueAt = if c.rhythm.idle ≤ c.rhythm.useAge then none
      else c.dueAt.map (· + c.rhythm.pause) := by
    cases hnext : c.dueAt with
    | none =>
      have hnone : c.sweeper = none := Option.map_eq_none_iff.mp hnext
      rw [wake_of_sweeper_eq_none hnone, hnext]
      split <;> rfl
    | some due =>
      obtain ⟨hidle, -, hretired⟩ | ⟨hused, -, hlater⟩ := c.wake_dueAt hnext
      · exact hretired.trans (if_pos hidle).symm
      · exact hlater.trans (if_neg (Nat.not_le.mpr hused)).symm
  ext1
  · exact congrArg (fun s => s.sweepInterval.pause) c.wake_settings
  · exact congrArg (fun s => s.idleTimeout.wordMillis) c.wake_settings
  · exact c.wake_isOpen
  · exact c.wake_wall
  · exact c.wake_timer
  · exact c.wake_lastTouch
  · exact hdue

theorem settle_rhythm : c.settle.rhythm = c.rhythm.settle := by
  have hdue : c.rhythm.due = c.sweeper.map Sweeper.wakesAt := rfl
  rw [settle, Rhythm.settle, hdue, ← wake_rhythm]
  cases c.sweeper with
  | none => rfl
  | some sw =>
    dsimp only [Option.map_some]
    exact apply_ite rhythm _ _ _

/-- The wake-ups up to a timer position follow the rhythm. -/
theorem wakeUntil_rhythm (target fuel : Nat) :
    (wakeUntil target fuel c).rhythm = Rhythm.wakeUntil target fuel c.rhythm := by
  induction fuel generalizing c with
  | zero => rfl
  | succ fuel ih =>
    have hdue : c.rhythm.due = c.sweeper.map Sweeper.wakesAt := rfl
    rw [wakeUntil, Rhythm.wakeUntil, hdue]
    cases c.sweeper with
    | none => rfl
    | some sw =>
      have hwoken := ih (c.runTo (c.nextWake sw)).wake
      rw [wake_rhythm] at hwoken
      dsimp only [Option.map_some]
      split
      · next hreached => exact hwoken.trans (if_pos hreached).symm
      · next hreached => exact (if_neg hreached).symm

theorem advance_rhythm (millis : Nat) : (c.advance millis).rhythm = c.rhythm.advance millis :=
  congrArg (Rhythm.runTo · (c.timer + millis)) (c.wakeUntil_rhythm (c.timer + millis) millis)

/-- What is left of a cache by whoever asks for a sweeper fits its rhythm, if there is a sweeper then. -/
theorem Attended.rhythm {c d : Cache V} (h : c.Attended d) (hrunning : c.isOpen → d.dueAt.isSome) :
    d.rhythm = { c.rhythm with lastTouch := d.store.stats.lastTouch }.summon := by
  have hisOpen : d.isOpen = c.isOpen := by rw [isOpen, h.hosted, h.closed]; rfl
  have hdue : d.dueAt
      = if c.isOpen then some (c.dueAt.getD (c.timer + c.settings.sweepInterval.pause)) else c.dueAt := by
    obtain hsame | ⟨hopen, hnone, hstarted⟩ := h.dueAt
    · by_cases hopen : c.isOpen
      · obtain ⟨due, hdue⟩ := Option.isSome_iff_exists.mp (hrunning hopen)
        rw [if_pos hopen, ← hsame, hdue, Option.getD_some]
      · rw [if_neg hopen, hsame]
    · rw [if_pos hopen, hstarted, hnone, Option.getD_none]
  ext1
  · exact congrArg (fun s => s.sweepInterval.pause) h.settings
  · exact congrArg (fun s => s.idleTimeout.wordMillis) h.settings
  · exact hisOpen
  · exact h.wall
  · exact h.timer
  · rfl
  · exact hdue

/-- Closing a cache leaves its clocks. -/
theorem shutdown_clocks : c.shutdown.state.wall = c.wall ∧ c.shutdown.state.timer = c.timer := by
  have hretired (d : Cache V) (sw : Sweeper) : (d.retire sw).timer = d.timer := by
    rw [retire]
    split <;> rfl
  rw [shutdown_state]
  cases c.sweeper with
  | none => exact ⟨rfl, rfl⟩
  | some sw => exact ⟨retire_wall _ sw, hretired _ sw⟩

/-- Closing a cache is no use of the store. -/
theorem shutdown_rhythm : c.shutdown.state.rhythm = c.rhythm.beat .shutdown := by
  have hunused : ∀ a ∈ c.shutdownActions, a.usedAt? = none := fun a ha =>
    Action.usedAt?_of_isRemoval (Action.isRemoval_of_isUpkeep (isUpkeep_of_mem_shutdownActions ha))
  obtain ⟨hisOpen, hnone, hsettings⟩ := c.shutdown_spec
  ext1
  · exact congrArg (fun s => s.sweepInterval.pause) hsettings
  · exact congrArg (fun s => s.idleTimeout.wordMillis) hsettings
  · exact hisOpen
  · exact c.shutdown_clocks.1
  · exact c.shutdown_clocks.2
  · change c.shutdown.state.store.stats.lastTouch = _
    rw [shutdown_store, Store.follow_lastTouch_of_unused _ hunused]
    rfl
  · change c.shutdown.state.dueAt = none
    rw [dueAt, hnone, Option.map_none]

end Cache

end TimedCache
