import TimedCache.Proofs.Session.Exchanges

/-!
# Conservation in a session

While no hook panics, an application that keeps account of what it asked for and was answered, and
of what sweepers reported, knows the counters of the cache and how many entries it has: every entry
that was put is in the store, or it was replaced or removed by one of the operations, by a sweeper as
it retired or by closing the cache, or it expired. The same holds at every point within a command, by
what happened to the store so far.
-/

namespace TimedCache.Session

open Store

variable {V : Type}

/-- What a session says of itself agrees with the exchanges that led to it and with what its sweepers
reported. -/
structure Reconciled (past : List (Exchange V)) (s : Session V) : Prop where
  stats : (s.step .stats).2 = .stats s.cache.store.stats
  size : (s.step .size).2 = .size s.cache.store.stats.totalEntries
  lookups : s.cache.store.stats.hits + s.cache.store.stats.misses = past.countP Exchange.isGet
  hits : s.cache.store.stats.hits = past.countP Exchange.isHit
  puts : s.cache.store.stats.puts = past.countP Exchange.isPut
  entries : s.cache.store.stats.puts = s.cache.store.size + past.countP Exchange.isReplacement
    + past.countP Exchange.isUncached + (past.map Exchange.removedLike).sum
    + ((past.map Exchange.drained).sum + s.cache.drainedReports) + s.cache.store.stats.expirations
  expirations : s.cache.store.stats.expirations
    = (past.map Exchange.swept).sum + s.cache.sweptReports + past.countP Exchange.isExpiry
  watermark : s.cache.store.stats.watermark
    = ((past.flatMap Exchange.occasions).map fun o => o.after.size).foldl max 0

/-- Where the history and the store agree, so do exchanges and reports that tell of that history. -/
theorem Reconciled.of_conserved {past : List (Exchange V)} {s : Session V}
    (hconserved : Conserved (past.flatMap Exchange.occasions) s.cache.store)
    (htells : ∀ x ∈ past, x.Tells x.occasions)
    (hswept : ((past.flatMap Exchange.occasions).map Occasion.swept).sum
      = (past.map Exchange.swept).sum + s.cache.sweptReports)
    (hdrained : ((past.flatMap Exchange.occasions).map Occasion.drained).sum
      = (past.map Exchange.drained).sum + s.cache.drainedReports) : Reconciled past s where
  stats := congrArg Reply.stats hconserved.total.1
  size := congrArg Reply.size hconserved.total.2.symm
  lookups := hconserved.lookups.trans (Exchange.countP_occasions htells fun _ h => h.gets)
  hits := hconserved.hits.trans (Exchange.countP_occasions htells fun _ h => h.hits)
  puts := hconserved.puts.trans (Exchange.countP_occasions htells fun _ h => h.puts)
  entries := by
    rw [hconserved.entries, Exchange.countP_occasions htells fun _ h => h.replacements,
      Exchange.countP_occasions htells fun _ h => h.uncached, Exchange.sum_removedLike htells, hdrained]
  expirations := by
    rw [hconserved.expirations, hswept, Exchange.countP_occasions htells fun _ h => h.expiries]
  watermark := hconserved.watermark

/-- While no hook panics and words can count the look-ups and the puts, a run leaves a session whose
counters and size are those that its replies and reports lead to: hits, misses, puts, expirations and
watermark are what was answered, and the puts are the entries in the store and those that were replaced,
removed by key, removed by prefix, drained or expired. At every point within a command this is so of what
happened to the store so far. -/
theorem entries_conserved (settings : Settings) (hosted : Bool) (host : Host) (wall : WallTime)
    (commands : List (Command V)) :
    let start : Session V := opened settings hosted host wall
    let first : Store V := createdAt wall
    let past := start.exchanges commands
    (∀ o ∈ start.history commands, o.returned) →
    past.countP Exchange.isGet < Word.bound → past.countP Exchange.isPut < Word.bound →
    Reconciled past (start.run commands)
      ∧ ∀ script, script <+: start.script commands →
        Conserved (first.history script) (first.follow script) := by
  intro start first past hreturned hgets hputs
  have htells : ∀ x ∈ past, x.Tells x.occasions := fun x hx =>
    x.tells (start.returned_of_mem_exchanges hreturned x hx)
  have hhistory : start.history commands = past.flatMap Exchange.occasions :=
    start.history_eq_flatMap commands
  have hwithin : ∀ script, script <+: start.script commands →
      Conserved (first.history script) (first.follow script) := by
    intro script hscript
    have hinitial : first.history script <+: past.flatMap Exchange.occasions :=
      hhistory ▸ first.history_initial hscript
    apply Tally.conserved
    · apply (createdAt_tally wall).follow
      exact fun o ho => hreturned o (hhistory ▸ hinitial.subset ho)
    · apply Nat.lt_of_le_of_lt hinitial.sublist.countP_le
      rwa [Exchange.countP_occasions htells fun _ h => h.gets]
    · apply Nat.lt_of_le_of_lt hinitial.sublist.countP_le
      rwa [Exchange.countP_occasions htells fun _ h => h.puts]
  refine ⟨?_, hwithin⟩
  have hend := hwithin _ (List.prefix_refl _)
  have hreports : Cache.Reports start.cache (start.run commands).cache (past.flatMap Exchange.occasions)
      (past.map Exchange.swept).sum (past.map Exchange.drained).sum :=
    hhistory ▸ start.run_reports hreturned
  have hstore : (start.run commands).cache.store = first.follow (start.script commands) :=
    start.run_store commands
  -- a new session has no reports yet
  have hsilent : start.cache.sweptReports = 0 ∧ start.cache.drainedReports = 0 := ⟨rfl, rfl⟩
  apply Reconciled.of_conserved (hstore ▸ hhistory ▸ hend) htells
  · have hswept := hreports.swept
    omega
  · have hdrained := hreports.drained
    omega

/-- Entries are replaced, removed by key and by prefix, found dead, swept and drained, by command and by
the sweeper, which retires; another one is there when the cache is closed, and none when that is done
again. -/
def busyRun : List (Command Nat) :=
  [.store "a" 1 (.ofSeconds 1) none, .store "a" 2 (.ofSeconds 1) none,
    .store "b" 3 (.ofSeconds 2) none, .get "a" none, .get "x" none, .uncache "b", .uncache "b",
    .store "p1" 4 (.ofSeconds 0) none, .store "p2" 5 (.ofSeconds 0) none, .uncacheLike "p",
    .store "c" 6 (.ofSeconds 1) none, .advance 2000, .get "c" none, .sweep,
    .store "d" 7 (.ofSeconds 0) none, .store "e" 8 (.ofSeconds 0) none, .drain,
    .store "f" 9 (.ofSeconds 1) none, .advance 6000, .store "g" 10 (.ofSeconds 0) none,
    .advance 60000, .store "h" 11 (.ofSeconds 0) none, .shutdown,
    .store "i" 12 (.ofSeconds 0) none, .shutdown, .store "j" 13 (.ofSeconds 0) none]

/-- The session in which that happens. -/
def busyStart : Session Nat :=
  opened { sweepInterval := .ofSeconds 5, idleTimeout := .ofSeconds 30 } true { link := .connected } 0

/-- Thirteen puts of a session are accounted for: one entry is left, one was replaced, one removed by
key and two by prefix, one swept when asked for and one by the sweeper, one found dead, two drained when
asked for and one when the cache was closed, and two by sweepers as they retired. -/
theorem entries_conserved_closing :
    let past := busyStart.exchanges busyRun
    let s := busyStart.run busyRun
    Reconciled past s
      ∧ (s.cache.store.stats.puts, s.cache.store.size, s.cache.store.stats.expirations,
        s.cache.store.stats.watermark) = (13, 1, 3, 3)
      ∧ ((past.map Exchange.removedLike).sum, (past.map Exchange.swept).sum, s.cache.sweptReports,
        (past.map Exchange.drained).sum, s.cache.drainedReports) = (2, 1, 1, 3, 2) := by
  intro past s
  have hreturned : ∀ o ∈ busyStart.history busyRun, o.returned := by decide +kernel
  have hgets : past.countP Exchange.isGet < Word.bound := by decide +kernel
  have hputs : past.countP Exchange.isPut < Word.bound := by decide +kernel
  refine ⟨?_, by decide +kernel, by decide +kernel⟩
  exact (entries_conserved { sweepInterval := .ofSeconds 5, idleTimeout := .ofSeconds 30 } true
    { link := .connected } 0 busyRun hreturned hgets hputs).1

end TimedCache.Session
