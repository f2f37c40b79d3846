import Mathlib.Data.List.ReduceOption
import TimedCache.Proofs.Session.Abreast
import TimedCache.Proofs.Session.Independence
import TimedCache.Proofs.Session.Lookup

/-!
# Sweeping cannot be observed by readers

A session is compared with one that carries out the same commands with sweeps of its own in between.
As long as the clock does not go back and no entry refers to a value that lives by the store alone,
every look-up is answered alike, the counters of use agree, and so do the entries that are not
expired. The session that sweeps more often never holds more entries and never counts fewer
expirations.
-/

namespace TimedCache

variable {V : Type}

/-- Two new stores are one. -/
theorem Store.createdAt_trails (t : WallTime) :
    Trails 0 0 (createdAt t : Store V) (createdAt t : Store V) where
  plain_calm := createdAt_calm t
  swept_calm := createdAt_calm t
  owners := rfl
  part := .refl _
  gone _ hp := nomatch hp
  use := ⟨rfl, rfl, rfl, rfl⟩
  watermark := Nat.le_refl _
  tally := ⟨0, 0, rfl, rfl, Nat.le_refl _, Nat.le_refl _⟩

/-- Removing entries puts none. -/
theorem Action.countP_isPut_of_isRemoval {script : List (Action V)} (h : ∀ a ∈ script, a.isRemoval) :
    script.countP isPut = 0 := by
  refine List.countP_eq_zero.mpr fun a ha hput => ?_
  have hremoval := h a ha
  cases a with
  | put t key e => exact nomatch hremoval
  | _ => exact nomatch hput

namespace Session

/-- A command puts one entry at most. -/
theorem countP_isPut_performActions (s : Session V) (c : Command V) :
    (s.performActions c).countP Action.isPut ≤ 1 := by
  cases c with
  | storeHeld key holding ttl =>
    rw [performActions, putHeldActions]
    split <;> simp [Action.isPut]
  | reviseCustom id expired value =>
    rw [performActions, reviseCustomActions]
    split
    · simp
    · dsimp only
      split <;> simp [Action.isPut]
  | uncacheLike | sweep | drain | advance | shutdown | datagram | groupDatagram | send =>
    rw [Action.countP_isPut_of_isRemoval fun _ => isRemoval_of_mem_performActions rfl]
    exact Nat.zero_le 1
  | _ => simp [performActions, putValueActions, putCustomActions, Action.isPut]

/-- Carries out the next command of a schedule, or a sweep where the schedule has none. -/
def sweptStep (s : Session V) : Option (Command V) → Session V
  | none => (s.perform .sweep).1
  | some c => (s.step c).1

/-- Carries out a schedule: its commands one after the other, and the sweeps in between. -/
def runSwept (s : Session V) (schedule : List (Option (Command V))) : Session V :=
  schedule.foldl sweptStep s

/-- What a schedule does to the store. -/
def sweptScript (s : Session V) : List (Option (Command V)) → List (Action V)
  | [] => []
  | none :: rest => .sweep s.cache.wall :: (s.sweptStep none).sweptScript rest
  | some c :: rest => s.actions c ++ (s.sweptStep (some c)).sweptScript rest

/-- The entries that are not expired. -/
def unexpired (s : Session V) : List (String × Entry V) :=
  s.cache.store.entries.filter fun p => !p.2.isExpired s.moment s.now

/-- A reader cannot tell the sessions apart: every look-up is answered alike, the counters of use
agree and so do the entries that are not expired. What may differ is that the second session holds
fewer entries. -/
structure SameToReaders (s s' : Session V) : Prop where
  get : ∀ key keep, (s'.step (.get key keep)).2 = (s.step (.get key keep)).2
  hits : s'.cache.store.stats.hits = s.cache.store.stats.hits
  misses : s'.cache.store.stats.misses = s.cache.store.stats.misses
  puts : s'.cache.store.stats.puts = s.cache.store.stats.puts
  lastTouch : s'.cache.store.stats.lastTouch = s.cache.store.stats.lastTouch
  unexpired : s'.unexpired = s.unexpired
  size : s'.cache.store.size ≤ s.cache.store.size
  watermark : s'.cache.store.stats.watermark ≤ s.cache.store.stats.watermark

/-- A session trails another if it differs in nothing but what its store holds and what was reported
of that, and its store trails the other's. -/
structure Trails (now : Timestamp) (stored : Nat) (s s' : Session V) : Prop where
  listener : s'.listener = s.listener
  twin : s.cache.Twin s'.cache
  store : Store.Trails now stored s.cache.store s'.cache.store

namespace Trails

variable {now : Timestamp} {stored : Nat} {s s' : Session V}

theorem abreast (h : Trails now stored s s') : s.Abreast s' :=
  ⟨h.listener, ⟨h.twin, h.store.plain_calm, h.store.swept_calm, h.store.use.lastTouch⟩, h.store.owners⟩

theorem now_eq (h : Trails now stored s s') : s'.now = s.now := congrArg WallTime.stamp h.twin.wall

/-- Both sessions come to what the same plain script makes of their stores. -/
theorem follow (h : Trails now stored s s') {p p' : Session V} {script script' : List (Action V)}
    (halike : Alike p p' script script') (hp : p.cache.store = s.cache.store.follow script)
    (hp' : p'.cache.store = s'.cache.store.follow script') (hplain : ∀ a ∈ script, a.isPlain)
    {later : List Timestamp} (hclock : (now :: (Action.readings script ++ later)).Pairwise (· ≤ ·))
    (hindependent : ∀ o ∈ s.cache.store.history script, o.before.isIndependent)
    (hlasting : ∀ o ∈ s.cache.store.history script, o.Lasting) :
    ∃ now', Trails now' (stored + script.countP Action.isPut) p p'
      ∧ (now' :: later).Pairwise (· ≤ ·) := by
  obtain ⟨now', hstore, hlater⟩ := h.store.follow hplain hclock hindependent hlasting
  refine ⟨now', ⟨halike.listener, halike.twin, ?_⟩, hlater⟩
  rw [hp, hp', halike.actions]
  exact hstore

/-- A look-up finds the same in both sessions. -/
theorem get_result (h : Trails now stored s s') (hindependent : s.cache.store.isIndependent)
    (hnow : now ≤ s.now) (key : String) : (s'.cache.store.get s.cache.wall key).result
      = (s.cache.store.get s.cache.wall key).result :=
  h.store.get_result_eq hindependent hnow key

/-- Both sessions carry out a plain command that keeps no value of a copy. -/
theorem step (h : Trails now stored s s') {c : Command V} (hc : c.isPlain)
    (hkeep : c.keepsCopy = false) {later : List Timestamp}
    (hclock : (now :: (Action.readings (s'.actions c) ++ later)).Pairwise (· ≤ ·))
    (hindependent : ∀ o ∈ s.cache.store.history (s.actions c), o.before.isIndependent)
    (hlasting : ∀ o ∈ s.cache.store.history (s.actions c), o.Lasting) :
    ∃ now', Trails now' (stored + 1) (s.step c).1 (s'.step c).1 ∧ (now' :: later).Pairwise (· ≤ ·) := by
  rw [actions, Store.history_append] at hindependent hlasting
  obtain ⟨hindependent, hindependent'⟩ := List.forall_mem_append.mp hindependent
  obtain ⟨hlasting, hlasting'⟩ := List.forall_mem_append.mp hlasting
  rw [actions, Action.readings, List.filterMap_append, List.append_assoc] at hclock
  -- a look-up reads the clock first, before anything can change what it finds
  have hget : ∀ key keep, c = .get key keep → (s'.cache.store.get s.cache.wall key).result
      = (s.cache.store.get s.cache.wall key).result := by
    rintro key keep rfl
    have hnow : now ≤ s'.now := List.rel_of_pairwise_cons hclock (List.mem_cons_self ..)
    exact h.get_result (hindependent _ (List.mem_cons_self ..)) (h.now_eq ▸ hnow) key
  have hperform := h.abreast.perform hc hkeep hget
  rw [hperform.actions] at hclock
  obtain ⟨now₁, hmid, hclock⟩ := h.follow hperform (s.perform_store c) (s'.perform_store c)
    (fun _ => isPlain_of_mem_performActions hc) hclock hindependent hlasting
  have hremoval : ∀ a ∈ (s.perform c).1.cache.settleActions, a.isRemoval :=
    fun _ => Cache.isRemoval_of_mem_settleActions
  obtain ⟨htwin, hactions⟩ := hmid.abreast.cache.settle
  rw [hactions] at hclock
  rw [← perform_store] at hindependent' hlasting'
  have hsettle : Alike (s.step c).1 (s'.step c).1 (s.perform c).1.cache.settleActions
      (s'.perform c).1.cache.settleActions := ⟨hmid.listener, htwin, hactions⟩
  obtain ⟨now₂, hend, hclock⟩ := hmid.follow hsettle (Cache.settle_store _) (Cache.settle_store _)
    (fun a ha => Action.isPlain_of_isRemoval (hremoval a ha)) hclock hindependent' hlasting'
  refine ⟨now₂, ⟨hend.listener, hend.twin, hend.store.mono (Nat.le_refl _) ?_⟩, hclock⟩
  rw [Action.countP_isPut_of_isRemoval hremoval]
  exact Nat.add_le_add_left (countP_isPut_performActions s c) stored

/-- Both sessions go through a schedule, the one with the sweeps in between and the other without. -/
theorem run (h : Trails now stored s s') {schedule : List (Option (Command V))}
    (hplain : ∀ c ∈ schedule.reduceOption, c.isPlain ∧ c.keepsCopy = false) {later : List Timestamp}
    (hclock : (now :: (Action.readings (s'.sweptScript schedule) ++ later)).Pairwise (· ≤ ·))
    (hindependent : ∀ o ∈ s.history schedule.reduceOption, o.before.isIndependent)
    (hlasting : ∀ o ∈ s.history schedule.reduceOption, o.Lasting) :
    ∃ now', Trails now' (stored + schedule.reduceOption.length) (s.run schedule.reduceOption)
      (s'.runSwept schedule) ∧ (now' :: later).Pairwise (· ≤ ·) := by
  induction schedule generalizing now stored s s' with
  | nil => exact ⟨now, h, hclock⟩
  | cons slot rest ih =>
    cases slot with
    | none =>
      obtain ⟨hnow, hclock⟩ := List.pairwise_cons.mp hclock
      have hswept : Trails s'.now stored s (s'.sweptStep none) :=
        ⟨h.listener, h.twin.withStore s.cache.store _,
          (h.store.mono (hnow _ (List.mem_cons_self ..)) (Nat.le_refl _)).sweep_swept⟩
      exact ih hswept hplain hclock hindependent hlasting
    | some c =>
      rw [List.reduceOption_cons_of_some] at hplain hindependent hlasting ⊢
      obtain ⟨⟨hc, hkeep⟩, hrest⟩ := List.forall_mem_cons.mp hplain
      rw [history, script, Store.history_append, ← step_store] at hindependent hlasting
      obtain ⟨hindependent, hindependent'⟩ := List.forall_mem_append.mp hindependent
      obtain ⟨hlasting, hlasting'⟩ := List.forall_mem_append.mp hlasting
      rw [sweptScript, Action.readings, List.filterMap_append, List.append_assoc] at hclock
      obtain ⟨now₁, hstep, hclock⟩ := h.step hc hkeep hclock hindependent hlasting
      obtain ⟨now₂, hrun, hclock⟩ := ih hstep hrest hclock hindependent' hlasting'
      refine ⟨now₂, ?_, hclock⟩
      rw [List.length_cons, Nat.add_comm _ 1, ← Nat.add_assoc]
      exact hrun

/-- The session that trails looks the same to readers. -/
theorem sameToReaders (h : Trails now stored s s') (hindependent : s.cache.store.isIndependent)
    (hnow : now ≤ s.now) : SameToReaders s s' where
  get key keep := by
    obtain ⟨found, hfound⟩ : ∃ found, (s.cache.store.get s.cache.wall key).result = .ok found :=
      ⟨_, h.store.plain_calm.get_result ..⟩
    have hfound' : (s'.cache.store.get s'.cache.wall key).result = .ok found := by
      rw [h.twin.wall, h.get_result hindependent hnow, hfound]
    have hreply := get_answer ((Cache.touching_result _ _).trans hfound) keep
    have hreply' := get_answer ((Cache.touching_result _ _).trans hfound') keep
    exact hreply'.trans hreply.symm
  hits := h.store.use.hits
  misses := h.store.use.misses
  puts := h.store.use.puts
  lastTouch := h.store.use.lastTouch
  unexpired := by
    rw [Session.unexpired, h.now_eq]
    exact h.store.unexpired_eq hindependent hnow
  size := h.store.part.length_le
  watermark := h.store.watermark

/-- The session that trails has counted at least as many expirations, while the counters last. -/
theorem expirations_le (h : Trails now stored s s') (hstored : stored < Word.bound) :
    s.cache.store.stats.expirations ≤ s'.cache.store.stats.expirations := by
  obtain ⟨n, n', hn, hn', hle, hbound⟩ := h.store.tally
  have hsize : s'.cache.store.size ≤ s.cache.store.size := h.store.part.length_le
  rw [hn, hn', Word.wrap_of_lt (by omega), Word.wrap_of_lt (by omega)]
  omega

end Trails

/-- Sweeping more often cannot be observed by readers. A new session carries out plain commands, and
another one the same commands with sweeps in between; the clock does not go back, and no entry that
the first one ever has refers to what lives by the store alone. Then the two look the same to readers
whenever they are compared, and the one that swept more often has counted at least as many
expirations, while the 64-bit counters last. -/
theorem sweeping_unobservable (settings : Settings) (hosted : Bool) (host : Host) (wall : WallTime)
    {schedule : List (Option (Command V))}
    (hplain : ∀ c ∈ schedule.reduceOption, c.isPlain ∧ c.keepsCopy = false) :
    let start : Session V := opened settings hosted host wall
    let s := start.run schedule.reduceOption
    let s' := start.runSwept schedule
    (Action.readings (start.sweptScript schedule) ++ [s'.now]).Pairwise (· ≤ ·) →
    (∀ o ∈ start.history schedule.reduceOption, o.before.isIndependent) →
    s.cache.store.isIndependent →
    SameToReaders s s' ∧ (schedule.reduceOption.length < Word.bound →
      s.cache.store.stats.expirations ≤ s'.cache.store.stats.expirations) := by
  intro start s s' hclock hindependent hend
  have hstart : Trails 0 0 start start := ⟨rfl, ⟨_, _, rfl⟩, Store.createdAt_trails wall⟩
  have hlasting : ∀ o ∈ start.history schedule.reduceOption, o.Lasting :=
    history_lasting (Store.createdAt_grounded wall) (Store.createdAt_calm wall)
      fun c hc => (hplain c hc).1
  have hfirst : (0 :: (Action.readings (start.sweptScript schedule) ++ [s'.now])).Pairwise (· ≤ ·) :=
    List.pairwise_cons.mpr ⟨fun t _ => Nat.zero_le t, hclock⟩
  obtain ⟨now, htrails, hnow⟩ := hstart.run hplain hfirst hindependent hlasting
  rw [Nat.zero_add] at htrails
  have hlast : now ≤ s'.now := List.rel_of_pairwise_cons hnow (List.mem_singleton_self _)
  exact ⟨htrails.sameToReaders hend (htrails.now_eq ▸ hlast), htrails.expirations_le⟩

/-- An entry holds a value that has an owner outside, another entry expires, and a sweep removes that. -/
def lingering (holding : Holding Nat) : List (Option (Command Nat)) :=
  [some (.own "o" 7), some (.store "k" 1 (.ofSeconds 1) none), some (.storeHeld "w" holding (.ofSeconds 9)),
    some (.advance 2000), none, some (.get "w" none)]

/-- The session in which that happens. -/
def lingeringStart : Session Nat := opened {} true { link := .connected } 5000

/-- An entry that expired lingers where no sweep removes it, and readers do not see it, whether the
other entry holds its value weakly or owns it with the one outside. -/
theorem sweeping_unobservable_lingering :
    let weak := lingering (.weakOf "o")
    let firm := lingering (.strongOf "o")
    (lingeringStart.run weak.reduceOption).cache.store.keys = ["k", "w"]
      ∧ (lingeringStart.runSwept weak).cache.store.keys = ["w"]
      ∧ SameToReaders (lingeringStart.run weak.reduceOption) (lingeringStart.runSwept weak)
      ∧ (lingeringStart.run weak.reduceOption).cache.store.stats.expirations
        ≤ (lingeringStart.runSwept weak).cache.store.stats.expirations
      ∧ SameToReaders (lingeringStart.run firm.reduceOption) (lingeringStart.runSwept firm) := by
  intro weak firm
  have hplain : (∀ c ∈ weak.reduceOption, c.isPlain ∧ c.keepsCopy = false)
      ∧ ∀ c ∈ firm.reduceOption, c.isPlain ∧ c.keepsCopy = false := by decide
  have hclock : (Action.readings (lingeringStart.sweptScript weak)
        ++ [(lingeringStart.runSwept weak).now]).Pairwise (· ≤ ·)
      ∧ (Action.readings (lingeringStart.sweptScript firm)
        ++ [(lingeringStart.runSwept firm).now]).Pairwise (· ≤ ·) := by decide
  have hindependent : ∀ o ∈ lingeringStart.history weak.reduceOption, o.before.isIndependent := by
    decide
  have hend : (lingeringStart.run weak.reduceOption).cache.store.isIndependent := by decide
  obtain ⟨hsame, hexpirations⟩ := sweeping_unobservable {} true { link := .connected } 5000 hplain.1
    hclock.1 hindependent hend
  refine ⟨by decide, by decide, hsame, hexpirations (by decide), ?_⟩
  -- commands that store nothing weakly need not be looked at one by one
  have hfirm : ∀ c ∈ firm.reduceOption, c.isPlain ∧ c.isFirm := by decide
  obtain ⟨hindependent, hend⟩ := opened_independent {} true { link := .connected } 5000 hfirm
  exact (sweeping_unobservable {} true { link := .connected } 5000 hplain.2 hclock.2 hindependent hend).1

end Session

end TimedCache
