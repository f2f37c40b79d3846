import TimedCache.Proofs.Session.Watch

/-!
# Wake-ups while time passes

While time passes a sweeper goes through its wake-ups, and while a cache settles through one of them at
most. What a wake-up keeps, and the clock running on keeps, holds after any time; and if the sweeper
pauses at all, no wake-up that is due is left undone, and there is nothing left to settle.
-/

namespace TimedCache

variable {V : Type}

namespace Cache

variable {c : Cache V} {P : Cache V → Prop} {R : Occasion V → Prop}

/-- A cache without a sweeper has no wake-up. -/
theorem wake_of_sweeper_eq_none (h : c.sweeper = none) : c.wake = c := by
  rw [wake, h]

/-- What every wake-up keeps holds of a cache that has settled. -/
theorem settle_invariant (hwake : ∀ c, P c → P c.wake) (h : P c) : P c.settle := by
  rw [settle]
  split
  · exact h
  · split
    · exact hwake c h
    · exact h

/-- Settling takes no time. -/
theorem settle_wall (c : Cache V) : c.settle.wall = c.wall :=
  settle_invariant (P := fun d => d.wall = c.wall) (fun d hd => d.wake_wall.trans hd) rfl

/-- What a wake-up and the clocks running on keep holds after the wake-ups up to a timer position. -/
theorem wakeUntil_invariant (hrun : ∀ c timer, P c → P (c.runTo timer)) (hwake : ∀ c, P c → P c.wake)
    (target fuel : Nat) (h : P c) : P (wakeUntil target fuel c) := by
  induction fuel generalizing c with
  | zero => exact h
  | succ fuel ih =>
    rw [wakeUntil]
    split
    · exact h
    · dsimp only
      split
      · exact ih (hwake _ (hrun _ _ h))
      · exact h

/-- What a wake-up and the clocks running on keep holds after some time. -/
theorem advance_invariant (hrun : ∀ c timer, P c → P (c.runTo timer)) (hwake : ∀ c, P c → P c.wake)
    (millis : Nat) (h : P c) : P (c.advance millis) :=
  hrun _ _ (wakeUntil_invariant hrun hwake _ millis h)

/-- A sweeper that is running after some wake-ups was running before them. -/
theorem sweeperRunning_wakeUntil {target fuel : Nat} (h : (wakeUntil target fuel c).sweeperRunning) :
    c.sweeperRunning := by
  cases hsweeper : c.sweeper with
  | some sw => rw [sweeperRunning, hsweeper]; rfl
  | none =>
    have hgone := wakeUntil_invariant (P := fun d => d.sweeper = none) (fun _ _ hd => hd)
      (fun d hd => by rwa [wake_of_sweeper_eq_none hd]) target fuel hsweeper
    rw [sweeperRunning, hgone] at h
    cases h

/-- A sweeper that is running after a cache has settled was running before. -/
theorem sweeperRunning_settle (h : c.settle.sweeperRunning) : c.sweeperRunning := by
  cases hsweeper : c.sweeper with
  | some sw => rw [sweeperRunning, hsweeper]; rfl
  | none =>
    rw [settle, hsweeper] at h
    exact h

/-- No wake-up is due. -/
def Ahead (c : Cache V) : Prop := ∀ due, c.dueAt = some due → c.timer < due

/-- Where no wake-up is due there is nothing to settle. -/
theorem Ahead.settle (h : c.Ahead) : c.settle = c := by
  rw [Cache.settle]
  cases hsweeper : c.sweeper with
  | none => rfl
  | some sw => exact if_neg (Nat.not_le.mpr (h sw.wakesAt (by rw [dueAt, hsweeper, Option.map_some])))

/-- Where no wake-up is due, nothing happens to the store while the cache settles. -/
theorem Ahead.settleActions (h : c.Ahead) : c.settleActions = [] := by
  rw [Cache.settleActions]
  cases hsweeper : c.sweeper with
  | none => rfl
  | some sw => exact if_neg (Nat.not_le.mpr (h sw.wakesAt (by rw [dueAt, hsweeper, Option.map_some])))

/-- A command that takes no time leaves no wake-up due, if the sweeper pauses. -/
theorem Served.ahead {d : Cache V} (h : c.Ahead) (hpause : 0 < c.settings.sweepInterval.pause)
    (hserved : c.Served d) : d.Ahead := by
  have hattended := hserved.attended
  intro due hdue
  rw [hattended.timer]
  obtain hsame | ⟨-, -, hstarted⟩ := hattended.dueAt
  · exact h due (hsame ▸ hdue)
  · have hnext : c.timer + c.settings.sweepInterval.pause = due :=
      Option.some.inj (hstarted.symm.trans hdue)
    omega

/-- A running sweeper is still there after a command that takes no time. -/
theorem Served.sweeperRunning {d : Cache V} (hserved : c.Served d) (h : c.sweeperRunning) : d.sweeperRunning := by
  rw [← shift_isSome] at h ⊢
  obtain hsame | ⟨-, hnone, -⟩ := hserved.shift
  · rwa [hsame]
  · rw [hnone] at h
    cases h

/-- What every wake-up keeps that happens when it is due holds after the wake-ups up to a timer
position, and none of them is left undone. It may rest on what holds of everything that happens. -/
theorem wakeUntil_induction {target : Nat} (hpause : ∀ c, P c → 0 < c.settings.sweepInterval.pause)
    (hwake : ∀ c due, P c → c.dueAt = some due → c.timer < due → due ≤ target →
      (∀ o ∈ c.store.history (c.runTo due).wakeActions, R o) → P (c.runTo due).wake)
    {fuel : Nat} (h : P c) (hahead : c.Ahead) (hfrom : c.timer ≤ target)
    (hfuel : target ≤ c.timer + fuel)
    (hhistory : ∀ o ∈ c.store.history (wakeUntilActions target fuel c), R o) :
    P (wakeUntil target fuel c) ∧ (wakeUntil target fuel c).timer ≤ target
      ∧ ∀ due, (wakeUntil target fuel c).dueAt = some due → target < due := by
  -- every wake-up moves the timer on, so the fuel lasts as long as there are milliseconds left
  induction fuel generalizing c with
  | zero =>
    refine ⟨h, hfrom, fun due hdue => ?_⟩
    have hnext := hahead due hdue
    omega
  | succ fuel ih =>
    rw [wakeUntilActions] at hhistory
    rw [wakeUntil]
    cases hsweeper : c.sweeper with
    | none =>
      refine ⟨h, hfrom, fun due hdue => ?_⟩
      rw [dueAt, hsweeper] at hdue
      cases hdue
    | some sw =>
      have hdue : c.dueAt = some sw.wakesAt := by rw [dueAt, hsweeper, Option.map_some]
      have hlater := hahead _ hdue
      have hnext : c.nextWake sw = sw.wakesAt := Nat.max_eq_left hlater
      rw [hsweeper] at hhistory
      simp only [hnext] at hhistory ⊢
      split at hhistory
      · next hreached =>
        rw [if_pos hreached]
        rw [Store.history_append] at hhistory
        obtain ⟨hnow, hafter⟩ := List.forall_mem_append.mp hhistory
        have htimer : (c.runTo sw.wakesAt).wake.timer = sw.wakesAt := wake_timer _
        apply ih (hwake c _ h hdue hlater hreached hnow)
        · intro due hagain
          have hpositive := hpause c h
          obtain ⟨-, -, hnone⟩ | ⟨-, -, hsome⟩ := (c.runTo sw.wakesAt).wake_dueAt hdue
          · rw [hnone] at hagain
            cases hagain
          · rw [hsome] at hagain
            rw [htimer, ← Option.some.inj hagain]
            exact Nat.lt_add_of_pos_right hpositive
        · omega
        · omega
        · rw [wake_store]
          exact hafter
      · next hreached =>
        rw [if_neg hreached]
        refine ⟨h, hfrom, fun due hsome => ?_⟩
        rw [hdue] at hsome
        rw [← Option.some.inj hsome]
        exact Nat.lt_of_not_le hreached

/-- What every wake-up keeps that happens when it is due, and the clocks running on before the next
one keep, holds after some time, and no wake-up is due then. -/
theorem advance_induction {millis : Nat} (hpause : ∀ c, P c → 0 < c.settings.sweepInterval.pause)
    (hwake : ∀ d due, P d → d.dueAt = some due → d.timer < due → due ≤ c.timer + millis →
      (∀ o ∈ d.store.history (d.runTo due).wakeActions, R o) → P (d.runTo due).wake)
    (hrun : ∀ d timer, P d → d.timer ≤ timer → (∀ due, d.dueAt = some due → timer < due) →
      P (d.runTo timer))
    (h : P c) (hahead : c.Ahead) (hhistory : ∀ o ∈ c.store.history (c.advanceActions millis), R o) :
    P (c.advance millis) ∧ (c.advance millis).Ahead := by
  obtain ⟨hwoken, hreached, hbeyond⟩ := wakeUntil_induction hpause hwake h hahead
    (Nat.le_add_right c.timer millis) (Nat.le_refl _) hhistory
  exact ⟨hrun _ _ hwoken hreached hbeyond, hbeyond⟩

/-- The sweeper pauses for that long between its wake-ups, and none of them is due. -/
structure Prompt (pause : Nat) (c : Cache V) : Prop where
  paused : c.settings.sweepInterval.pause = pause
  ahead : c.Ahead

/-- Closing a cache leaves it closed and without a sweeper, however it ends. -/
theorem shutdown_spec (c : Cache V) : c.shutdown.state.isOpen = false
    ∧ c.shutdown.state.sweeper = none ∧ c.shutdown.state.settings = c.settings := by
  rw [shutdown_state]
  cases hsweeper : c.sweeper with
  | none => exact ⟨Bool.and_false _, rfl, rfl⟩
  | some sw =>
    refine ⟨?_, retire_sweeper _ _, ?_⟩
    · change (Cache.retire _ sw).isOpen = false
      rw [retire]
      split <;> exact Bool.and_false _
    · change (Cache.retire _ sw).settings = c.settings
      rw [retire]
      split <;> rfl

/-- Closing a cache takes no time. -/
theorem shutdown_wall (c : Cache V) : c.shutdown.state.wall = c.wall := by
  rw [shutdown_state]
  cases c.sweeper with
  | none => rfl
  | some sw => exact retire_wall _ sw

/-- Time moves both clocks on by as much as has passed. -/
theorem advance_clocks (c : Cache V) (millis : Nat) :
    (c.advance millis).timer = c.timer + millis ∧ (c.advance millis).wall = c.wall + millis := by
  have hsum (wall first second third : Int) :
      wall + (second - first) + (third - second) = wall + (third - first) := by omega
  have hwoken : (wakeUntil (c.timer + millis) millis c).wall
      = c.wall + (((wakeUntil (c.timer + millis) millis c).timer : Int) - c.timer) := by
    apply wakeUntil_invariant (P := fun d => d.wall = c.wall + ((d.timer : Int) - c.timer))
    · intro d timer hd
      rw [runTo, hd]
      exact hsum _ _ _ _
    · intro d hd
      rwa [wake_wall, wake_timer]
    · exact ((congrArg _ (Int.sub_self _)).trans (Int.add_zero _)).symm
  refine ⟨rfl, ?_⟩
  change (wakeUntil (c.timer + millis) millis c).wall + (((c.timer + millis : Nat) : Int) - _) = _
  have hpassed : ((c.timer + millis : Nat) : Int) - c.timer = millis := by omega
  rw [hwoken, hsum, hpassed]

end Cache

namespace Session

open Cache

variable {s : Session V} {pause : Nat}

/-- A command leaves no wake-up due, if the sweeper pauses. -/
theorem perform_prompt (h : s.cache.Prompt pause) (hpause : 0 < pause) (c : Command V) :
    (s.perform c).1.cache.Prompt pause := by
  cases hinstant : c.isInstant with
  | true =>
    have hserved := s.perform_served hinstant
    refine ⟨hserved.attended.settings ▸ h.paused, hserved.ahead h.ahead ?_⟩
    rwa [h.paused]
  | false =>
    cases c with
    | advance millis =>
      change (s.cache.advance millis).Prompt pause
      obtain ⟨hpaused, hahead⟩ := advance_induction (c := s.cache)
        (P := fun d => d.settings.sweepInterval.pause = pause) (fun d hd => hd ▸ hpause)
        (fun d due hd _ _ _ _ => by rw [wake_settings]; exact hd)
        (fun _ _ hd _ _ => hd) h.paused h.ahead (fun _ _ => trivial)
      exact ⟨hpaused, hahead⟩
    | skew millis => exact ⟨h.paused, h.ahead⟩
    | shutdown =>
      obtain ⟨-, hnone, hsettings⟩ := s.cache.shutdown_spec
      change s.cache.shutdown.state.Prompt pause
      refine ⟨by rw [hsettings, h.paused], fun due hdue => ?_⟩
      rw [dueAt, hnone] at hdue
      cases hdue
    | _ => cases hinstant

/-- If the sweeper pauses, nothing is left to settle after a command. -/
theorem step_cache (h : s.cache.Prompt pause) (hpause : 0 < pause) (c : Command V) :
    (s.step c).1.cache = (s.perform c).1.cache := (perform_prompt h hpause c).ahead.settle

/-- Commands leave no wake-up due, if the sweeper pauses. -/
theorem run_prompt (h : s.cache.Prompt pause) (hpause : 0 < pause) (commands : List (Command V)) :
    (s.run commands).cache.Prompt pause := by
  induction commands generalizing s with
  | nil => exact h
  | cons c rest ih =>
    refine ih (s := (s.step c).1) ?_
    rw [step_cache h hpause]
    exact perform_prompt h hpause c

/-- In a new session no wake-up is due. -/
theorem opened_prompt (settings : Settings) (hosted : Bool) (host : Host) (wall : WallTime) :
    (opened settings hosted host wall : Session V).cache.Prompt settings.sweepInterval.pause :=
  ⟨rfl, fun _ hdue => nomatch hdue⟩

end Session

end TimedCache
