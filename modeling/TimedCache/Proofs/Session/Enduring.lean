import TimedCache.Proofs.Session.Lookup
import TimedCache.Proofs.Session.Waking

/-!
# Entries that endure

An entry that owns its value and whose time is not over yet is left alone by look-ups and sweeps. So of
all that a sweeper does only its retirement takes such an entry away, and whether that has happened can
be told by the sweeper, which is gone then.
-/

namespace TimedCache

variable {V : Type}

/-- The entry can be served at every time until then, whatever becomes of other references. -/
def TimedEntry.Endures (last : WallTime) (e : TimedEntry V) : Prop :=
  ∀ (m : Moment V) (t : WallTime), 0 ≤ t → t ≤ last → ¬ e.IsOver m t.stamp

/-- The action takes away what is under the key, even if that could still be served. -/
def Action.Clears (key : String) : Action V → Prop
  | .put _ k _ | .uncache _ k => k = key
  | .uncacheLike _ pattern => pattern.toList <+: key.toList
  | .drain _ => True
  | _ => False

variable {last : WallTime} {key : String} {e : TimedEntry V}

/-- After an action an entry that endures is under the key if that put it there, or if it was there
before and the action does not clear the key. -/
theorem Store.Calm.holds_act_iff_of_endures {s : Store V} (hs : s.Calm) (hendures : e.Endures last)
    {a : Action V} (ha : a.isPlain) (htime : ∀ t, a.time? = some t → 0 ≤ t ∧ t ≤ last) :
    (s.act a).Holds key e ↔ (∃ accessedAt, (Occasion.mk s a).Puts key { e with accessedAt })
      ∨ (s.Holds key e ∧ ¬ a.Clears key) := by
  have hserved {t : WallTime} (ht : a.time? = some t) : ¬ e.IsOver (s.moment []) t.stamp :=
    hendures _ t (htime t ht).1 (htime t ht).2
  have hends : (Occasion.mk s a).Ends key e ↔ a.Clears key := by
    cases a with
    | get t k => exact iff_of_false (fun hover => hserved rfl hover.2) not_false
    | sweep t => exact iff_of_false (hserved rfl) not_false
    | _ => exact Iff.rfl
  rw [hs.holds_act_iff ha, hends]

/-- As long as a word can count it, the clock is read exactly from 1970 on. -/
theorem WallTime.stamp_eq_toNat {t : Int} (h : t < Word.bound) : WallTime.stamp t = t.toNat := by
  have hpositive : 0 < Word.bound := by decide
  have hbound : t.toNat < Word.bound := by omega
  exact Word.wrap_of_lt hbound

/-- An entry that owns its value endures exactly as long as its time is not over. -/
theorem TimedEntry.endures_iff {cell : Cell V} (hown : e.holder = .strong cell) (hfrom : 0 ≤ last)
    (hlast : last < Word.bound) :
    e.Endures last ↔ ∀ limit, e.expiresAt = some limit → last.stamp ≤ limit := by
  constructor
  · intro h
    exact (Session.not_isOver_iff.mp (h ⟨[], []⟩ last hfrom (Int.le_refl _))).1
  · intro h m t _ hto
    refine Session.not_isOver_iff.mpr ⟨fun limit hlimit => ?_, cell, by rw [hown]; rfl⟩
    rw [WallTime.stamp_eq_toNat (Int.lt_of_le_of_lt hto hlast)]
    refine Nat.le_trans (Int.toNat_le_toNat hto) ?_
    exact WallTime.stamp_eq_toNat hlast ▸ h limit hlimit

/-- A lifetime in seconds that starts now is not over at a time if it is unlimited, or if its
milliseconds have not passed by then. -/
theorem le_expiryOf_iff {now ttl : Nat} (httl : 1000 * ttl < Word.bound) {t : Int} (hfrom : 0 ≤ t)
    (hbound : t < Word.bound) :
    (∀ limit, expiryOf now (.ofSeconds ttl) = some limit → WallTime.stamp t ≤ limit)
      ↔ ttl = 0 ∨ t ≤ now + 1000 * ttl := by
  by_cases hzero : ttl = 0
  · subst hzero
    exact iff_of_true (fun _ h => nomatch h) (.inl rfl)
  · have hlimited : expiryOf now (.ofSeconds ttl) = some (Word.addCapped now (1000 * ttl)) := by
      have hmillis : (Duration.ofSeconds ttl).wordMillis = 1000 * ttl := by
        rw [Duration.wordMillis, Duration.millis, Duration.ofSeconds, Nat.zero_div, Nat.add_zero,
          Nat.mul_comm, Word.wrap_of_lt httl]
      rw [expiryOf, if_neg (by simp [Duration.isZero, Duration.ofSeconds, hzero]), hmillis]
    have hcapped : t.toNat ≤ Word.addCapped now (1000 * ttl) ↔ t ≤ now + 1000 * ttl := by
      rw [Word.addCapped, Word.largest]
      omega
    rw [hlimited, WallTime.stamp_eq_toNat hbound, or_iff_right hzero]
    simpa only [Option.some.injEq, forall_eq'] using hcapped

/-- A put puts this entry under its key, whenever that is accessed later. -/
theorem Occasion.exists_puts_iff {s : Store V} {t : WallTime} {k : String} {y : TimedEntry V} :
    (∃ accessedAt, (Occasion.mk s (.put t k (.timed y))).Puts key { e with accessedAt })
      ↔ k = key ∧ (Entry.timed y).Is e := by
  constructor
  · rintro ⟨accessedAt, _, hput⟩
    rw [Action.put.injEq] at hput
    exact ⟨hput.2.1, accessedAt, hput.2.2⟩
  · rintro ⟨rfl, accessedAt, his⟩
    exact ⟨accessedAt, t, congrArg (Action.put t k) his⟩

namespace Cache

variable {c : Cache V} (key)

/-- A wake-up leaves a calm store calm. -/
theorem wake_calm (hs : c.store.Calm) : c.wake.store.Calm := by
  rw [wake_store]
  exact hs.follow fun _ ha => Action.isPlain_of_isRemoval (isRemoval_of_mem_wakeActions ha)

/-- A wake-up leaves what endures, unless the sweeper retires. -/
theorem wake_holds_iff (hs : c.store.Calm) (hendures : e.Endures last) (hfrom : 0 ≤ c.wall)
    (hto : c.wall ≤ last) : c.wake.store.Holds key e
      ↔ c.store.Holds key e ∧ (c.sweeperRunning → c.wake.sweeperRunning) := by
  cases hsweeper : c.sweeper with
  | none =>
    rw [wake_of_sweeper_eq_none hsweeper]
    exact (and_iff_left id).symm
  | some sw =>
    have hshift : c.shift = some (sw.startedAt, sw.wakesAt) := by rw [shift, hsweeper, Option.map_some]
    have hrunning : c.sweeperRunning := by rw [sweeperRunning, hsweeper]; rfl
    rw [wake_store]
    obtain ⟨-, hactions, hnone⟩ | ⟨-, hactions, hnext⟩ := c.wake_shift hshift
    · rw [hactions]
      refine iff_of_false ?_ fun h => ?_
      · rintro ⟨x, hfind, -⟩
        cases (hs.find?_drain c.wall key).symm.trans hfind
      · have hstill := h.2 hrunning
        rw [sweeperRunning, hnone] at hstill
        cases hstill
    · have hswept : (c.store.act (.sweep c.wall)).Holds key e ↔ _ :=
        hs.holds_act_iff_of_endures hendures rfl fun t ht => Option.some.inj ht ▸ ⟨hfrom, hto⟩
      have hnothing : ¬ ∃ accessedAt,
          (Occasion.mk c.store (.sweep c.wall)).Puts key { e with accessedAt } := by
        rintro ⟨_, _, h⟩
        cases h
      have hstill : c.wake.sweeperRunning := by
        rw [← shift_isSome, hnext]
        rfl
      rw [hactions]
      change (c.store.act (.sweep c.wall)).Holds key e ↔ _
      rw [hswept, or_iff_right hnothing]
      exact and_congr_right fun _ => iff_of_true not_false fun _ => hstill

/-- On the way from one timer position to another the wall clock goes no further than at the end. -/
theorem wall_between {wall last : Int} {start met target : Nat} (hfrom : 0 ≤ wall) (hlater : start ≤ met)
    (hreached : met ≤ target) (hto : wall + ((target : Int) - start) ≤ last) :
    0 ≤ wall + ((met : Int) - start) ∧ wall + ((met : Int) - start) ≤ last
      ∧ wall + ((met : Int) - start) + ((target : Int) - met) ≤ last := by
  omega

/-- The wake-ups up to a timer position leave what endures, unless the sweeper retires. -/
theorem wakeUntil_holds_iff {target fuel : Nat} (hs : c.store.Calm) (hendures : e.Endures last)
    (hfrom : 0 ≤ c.wall) (hreached : c.timer ≤ target) (hto : c.wall + ((target : Int) - c.timer) ≤ last) :
    (wakeUntil target fuel c).store.Holds key e
      ↔ c.store.Holds key e ∧ (c.sweeperRunning → (wakeUntil target fuel c).sweeperRunning) := by
  induction fuel generalizing c with
  | zero => exact (and_iff_left id).symm
  | succ fuel ih =>
    rw [wakeUntil]
    cases hsweeper : c.sweeper with
    | none => exact (and_iff_left id).symm
    | some sw =>
      dsimp only
      split
      · next hnext =>
        have hrunning : c.sweeperRunning := by rw [sweeperRunning, hsweeper]; rfl
        have hlater : c.timer ≤ c.nextWake sw :=
          Nat.le_trans (Nat.le_succ _) (Nat.le_max_right _ _)
        obtain ⟨hmet, hsoon, hrest⟩ := wall_between hfrom hlater hnext hto
        have hcalm : (c.runTo (c.nextWake sw)).wake.store.Calm := wake_calm (c := c.runTo _) hs
        have hwoken := wake_holds_iff key (c := c.runTo (c.nextWake sw)) hs hendures hmet hsoon
        rw [ih hcalm, hwoken, and_assoc]
        · refine and_congr_right fun _ => ⟨fun h hrun => h.2 (h.1 hrun), fun h => ?_⟩
          exact ⟨fun _ => sweeperRunning_wakeUntil (h hrunning), fun _ => h hrunning⟩
        · rw [wake_wall]
          exact hmet
        · rw [wake_timer]
          exact hnext
        · rw [wake_wall, wake_timer]
          exact hrest
      · exact (and_iff_left id).symm

/-- Time passing leaves what endures, unless the sweeper retires. -/
theorem advance_holds_iff {millis : Nat} (hs : c.store.Calm) (hendures : e.Endures last)
    (hfrom : 0 ≤ c.wall) (hto : c.wall + millis ≤ last) : (c.advance millis).store.Holds key e
      ↔ c.store.Holds key e ∧ (c.sweeperRunning → (c.advance millis).sweeperRunning) := by
  have hpassed : ((c.timer + millis : Nat) : Int) - c.timer = millis := by omega
  exact wakeUntil_holds_iff key hs hendures hfrom (Nat.le_add_right _ _) (hpassed ▸ hto)

/-- Settling leaves what endures, unless the sweeper retires. -/
theorem settle_holds_iff (hs : c.store.Calm) (hendures : e.Endures last) (hfrom : 0 ≤ c.wall)
    (hto : c.wall ≤ last) : c.settle.store.Holds key e
      ↔ c.store.Holds key e ∧ (c.sweeperRunning → c.settle.sweeperRunning) := by
  rw [settle]
  split
  · exact (and_iff_left id).symm
  · split
    · exact wake_holds_iff key hs hendures hfrom hto
    · exact (and_iff_left id).symm

end Cache

end TimedCache
