import TimedCache.Proofs.Session.Plain
import TimedCache.Proofs.Store.Outcomes
import TimedCache.Proofs.Store.Patterns

/-!
# Two verdicts on an entry

A sweep takes an entry out if it is expired when the sweep begins; a look-up takes it out unless it can
be served, which needs a value besides. On the usual entries the two agree, whatever holds the value: a
reference that does not resolve counts as expired, and one that does has a value. Entries that lose their
values to a sweep, because what it takes out owned them, are left to the next one.
-/

namespace TimedCache

variable {V : Type}

/-- So many expirations change nothing but their counter. -/
theorem Stats.iterate_recordExpiration {st : Stats} (h : st.expirations < Word.bound) (k : Nat) :
    recordExpiration^[k] st = { st with expirations := Word.wrap (st.expirations + k) } := by
  induction k with
  | zero =>
    rw [Nat.add_zero, Word.wrap_of_lt h]
    rfl
  | succ k ih =>
    have hnext : Word.wrap (Word.wrap (st.expirations + k) + 1) = Word.wrap (st.expirations + (k + 1)) :=
      Nat.mod_add_mod _ _ _
    rw [Function.iterate_succ_apply', ih, recordExpiration, hnext]

namespace Store

variable {s : Store V} {t : WallTime} {key : String}

/-- The keys that a sweep removes are those of expired entries. -/
theorem mem_expiredKeys (hnodup : s.keys.Nodup) (now : Timestamp) :
    key ∈ s.expiredKeys now ↔ ∃ e, s.find? key = some e ∧ e.isExpired (s.moment []) now := by
  rw [expiredKeys, List.mem_map]
  constructor
  · rintro ⟨p, hp, rfl⟩
    obtain ⟨hmem, hexpired⟩ := List.mem_filter.mp hp
    exact ⟨p.2, (lookup_eq_some_iff_mem hnodup).mpr hmem, hexpired⟩
  · rintro ⟨e, hfind, hexpired⟩
    exact ⟨(key, e), List.mem_filter.mpr ⟨mem_of_lookup hfind, hexpired⟩, rfl⟩

/-- An entry under a key is expired, or it can be served, and not both. -/
theorem AllTimed.isLive_eq (htimed : s.AllTimed) {e : Entry V} (hfind : s.find? key = some e)
    (m : Moment V) (now : Timestamp) : e.isLive m now = !e.isExpired m now := by
  obtain ⟨entry, his⟩ := htimed key e hfind
  rw [Bool.eq_iff_iff, his.isLive_iff, Bool.not_eq_true', ← Bool.not_eq_true, his.isExpired_iff]

/-- In a calm store of usual entries, a look-up finds nothing under a key that is there exactly if a sweep
at the same time would remove the key. -/
theorem Calm.get_eq_none_iff (hs : s.Calm) (htimed : s.AllTimed) (t : WallTime) (key : String) :
    key ∈ s.expiredKeys t.stamp ↔ key ∈ s.keys ∧ (s.get t key).result = .ok none := by
  rw [mem_expiredKeys hs.nodup]
  constructor
  · rintro ⟨e, hfind, hexpired⟩
    have hdead : e.isLive (s.moment []) t.stamp = false := by
      rw [htimed.isLive_eq hfind, hexpired, Bool.not_true]
    obtain ⟨log, hget⟩ := hs.get_eq_of_dead t hfind hdead
    exact ⟨List.mem_map_of_mem (mem_of_lookup hfind), congrArg Ran.result hget⟩
  · rintro ⟨hkey, hnone⟩
    obtain ⟨cell, hfound, -⟩ | ⟨-, hmissed⟩ := hs.get_cases t key
    · cases hnone.symm.trans hfound
    · cases hmissed with
      | absent hfind => exact absurd hkey (lookup_eq_none_iff_not_mem.mp hfind)
      | dead e hfind hdead =>
        refine ⟨e, hfind, hdead.resolve_right ?_⟩
        rintro ⟨c, rfl, -⟩
        obtain ⟨entry, accessedAt, hcustom⟩ := htimed key _ hfind
        cases hcustom

/-- A sweep that returns has met no alarm for an expired entry. -/
theorem unalarmed_of_sweep (h : (s.sweep t).returned) (hkey : key ∈ s.expiredKeys t.stamp) {e : Entry V}
    (hfind : s.find? key = some e) : s.Unalarmed key e :=
  (removeEach_returned_iff t Stats.recordExpiration (s.expiredKeys t.stamp)).1.mp
    (Ran.returned_of_andThen h) key hkey e hfind

/-- If a sweep of usual entries returns, so would every look-up instead of it. -/
theorem get_returned_of_sweep (hnodup : s.keys.Nodup) (htimed : s.AllTimed) (h : (s.sweep t).returned)
    (key : String) : (s.get t key).returned := by
  rw [get]
  cases hfind : (s.count (Stats.touch t.stamp)).find? key with
  | none => rfl
  | some e =>
    dsimp only
    split
    · cases e with
      | timed entry => rfl
      | custom c =>
        obtain ⟨entry, accessedAt, hcustom⟩ := htimed key _ hfind
        cases hcustom
    · next hdead =>
      have hexpired : e.isExpired (s.moment []) t.stamp := by
        have hlive := htimed.isLive_eq hfind (s.moment []) t.stamp
        change ¬ e.isLive (s.moment []) t.stamp = true at hdead
        rw [hlive, Bool.not_eq_true', Bool.not_eq_false] at hdead
        exact hdead
      have hquiet : s.Unalarmed key e :=
        unalarmed_of_sweep h ((mem_expiredKeys hnodup t.stamp).mpr ⟨e, hfind, hexpired⟩) hfind
      have htold : ((((s.count (Stats.touch t.stamp)).erase key).count Stats.recordExpiration).discard
          t key e []).returned := (discard_returned_iff t []).mpr hquiet
      obtain ⟨a, ha⟩ := Ran.exists_of_returned htold
      exact Ran.returned_andThen_iff.mpr ⟨a, ha, rfl⟩

/-- If a sweep of usual entries returns, a look-up instead of it finds nothing under a key that is there
exactly if the sweep removes the key. -/
theorem get_eq_none_iff_of_sweep (hs : s.muted.Calm) (htimed : s.AllTimed) (h : (s.sweep t).returned)
    (key : String) : key ∈ s.expiredKeys t.stamp ↔ key ∈ s.keys ∧ (s.get t key).result = .ok none := by
  have hnodup : s.keys.Nodup := hs.nodup
  rw [(s.get_echoes t key).result_eq (get_returned_of_sweep hnodup htimed h key)]
  exact hs.get_eq_none_iff htimed t key

/-- What a sweep that returns leaves: the entries under other keys than those that it removes, which it
counts as expirations and returns the number of, and all other counters but the present size. -/
theorem sweep_of_returned (hs : s.muted.Calm) (hcounted : s.stats.expirations < Word.bound)
    (h : (s.sweep t).returned) :
    (s.sweep t).result = .ok (s.expiredKeys t.stamp).length
    ∧ (s.sweep t).state.entries = s.entries.filter (fun p => !(s.expiredKeys t.stamp).contains p.1)
    ∧ (s.sweep t).state.stats = { s.stats with
        expirations := Word.wrap (s.stats.expirations + (s.expiredKeys t.stamp).length)
        totalEntries := (s.sweep t).state.size } := by
  have hechoes : Echoes (s.sweep t) (s.muted.sweep t) := s.removeAll_echoes t Stats.recordExpiration _
  have hstate := hechoes.state_eq h
  have hresult := hechoes.result_eq h
  obtain ⟨log, hsweep⟩ := hs.sweep_eq t
  rw [hsweep] at hstate hresult
  obtain ⟨hstats, hsize⟩ := stats_of_muted hstate
  refine ⟨hresult, ?_, ?_⟩
  · -- a key is removed with its only entry
    refine (congrArg entries hstate).trans (List.filter_congr fun p hp => congrArg not ?_)
    have hnodup : s.keys.Nodup := hs.nodup
    have hfind : s.find? p.1 = some p.2 := (lookup_eq_some_iff_mem hnodup).mpr hp
    rw [Bool.eq_iff_iff, List.contains_iff_mem, mem_expiredKeys hnodup, hfind]
    simp [muted, moment]
  · have hmax : max s.stats.watermark (s.sweep t).state.size = s.stats.watermark :=
      Nat.max_eq_left (hsize ▸ Nat.le_trans (List.length_filter_le _ _) hs.bounded)
    have hcounter : s.muted.stats.expirations < Word.bound := hcounted
    rw [hstats, Stats.iterate_recordExpiration hcounter, Stats.observeSize]
    dsimp only [muted]
    rw [hmax]
    rfl

/-- A look-up that returns and finds nothing under a key that is there removes that key alone, and counts
one expiration. -/
theorem get_of_none (hs : s.muted.Calm) (hkey : key ∈ s.keys) (hnone : (s.get t key).result = .ok none) :
    (s.get t key).state.entries = s.entries.filter (fun p => p.1 != key)
      ∧ (s.get t key).state.stats.expirations = Word.wrap (s.stats.expirations + 1) := by
  have hreturned := Ran.returned_of_ok hnone
  have hstate := (s.get_echoes t key).state_eq hreturned
  rw [(s.get_echoes t key).result_eq hreturned] at hnone
  obtain ⟨cell, hfound, -⟩ | ⟨-, hmissed⟩ := hs.get_cases t key
  · cases hnone.symm.trans hfound
  · cases hmissed with
    | absent hfind => exact absurd hkey (lookup_eq_none_iff_not_mem.mp hfind)
    | dead e hfind hdead hentries hstats =>
      exact ⟨(congrArg entries hstate).trans hentries,
        (congrArg (fun s => s.stats.expirations) hstate).trans (congrArg Stats.expirations hstats)⟩

end Store

namespace Session

open Store

/-- In any state that a cache of usual entries comes to while no hook panics, whatever holds the values,
and at any clock reading: if a sweep returns, so would every look-up instead of it. The sweep then removes
exactly the keys that are there and under which a look-up would find nothing. It returns their number and
adds it to the expirations, leaves every other entry as it is, and of the other counters changes the
present size alone. Each of the look-ups would remove its key and nothing else, and add one expiration. -/
theorem sweep_agrees_with_get (settings : Settings) (hosted : Bool) (host : Host) (wall : WallTime)
    {commands : List (Command V)}
    (hreturned : ∀ o ∈ (opened settings hosted host wall : Session V).history commands, o.returned)
    (htimed : ((opened settings hosted host wall).run commands).cache.store.AllTimed) {t : WallTime}
    (hsweep : (((opened settings hosted host wall).run commands).cache.store.sweep t).returned) :
    let s := ((opened settings hosted host wall).run commands).cache.store
    let swept := (s.sweep t).state
    (∀ key, (s.get t key).returned)
    ∧ ∃ gone : List String, gone.Nodup
      ∧ (∀ key, key ∈ gone ↔ key ∈ s.keys ∧ (s.get t key).result = .ok none)
      ∧ (s.sweep t).result = .ok gone.length
      ∧ swept.entries = s.entries.filter (fun p => !gone.contains p.1)
      ∧ swept.stats = { s.stats with
          expirations := Word.wrap (s.stats.expirations + gone.length), totalEntries := swept.size }
      ∧ ∀ key ∈ gone, (s.get t key).state.entries = s.entries.filter (fun p => p.1 != key)
        ∧ (s.get t key).state.stats.expirations = Word.wrap (s.stats.expirations + 1) := by
  intro s swept
  have hstore : s = (createdAt wall).follow ((opened settings hosted host wall).script commands) :=
    run_store _ commands
  have htally : Tally _ s := hstore ▸ (createdAt_tally wall).follow hreturned
  have hcounted : s.stats.expirations < Word.bound := htally.expirations ▸ Word.wrap_lt _
  have hdead := get_eq_none_iff_of_sweep htally.calm htimed hsweep
  obtain ⟨hresult, hentries, hstats⟩ := sweep_of_returned htally.calm hcounted hsweep
  refine ⟨get_returned_of_sweep htally.calm.nodup htimed hsweep, s.expiredKeys t.stamp, ?_, hdead, hresult,
    hentries, hstats, fun key hgone => ?_⟩
  · exact nodup_keys_filter htally.calm.nodup _
  · obtain ⟨hkey, hnone⟩ := (hdead key).mp hgone
    exact get_of_none htally.calm hkey hnone

/-- A value is held by an entry that lasts a second, and weakly by another one, and by nobody else. -/
def ownedByEntry : List (Command Nat) :=
  [.own "o" 7, .storeHeld "owner" (.strongOf "o") (.ofSeconds 1), .storeHeld "weak" (.weakOf "o") ⟨0, 0⟩,
    .drop (.owner "o")]

/-- The session in which that happens. -/
def ownedStart : Session Nat := opened {} false { link := .connected } 0

/-- After two seconds the entry that owns the value is expired, and the other one is not, as the value is
still there when the sweep begins. -/
theorem sweep_agrees_with_get_owned :
    let s := (ownedStart.run ownedByEntry).cache.store
    (∀ o ∈ ownedStart.history ownedByEntry, o.returned) ∧ s.AllTimed ∧ (s.sweep 2000).returned
      ∧ ∃ gone : List String, "owner" ∈ gone ∧ "weak" ∉ gone ∧ (s.sweep 2000).result = .ok gone.length := by
  intro s
  have hreturned : ∀ o ∈ ownedStart.history ownedByEntry, o.returned := by decide
  have hplain : ∀ c ∈ ownedByEntry, c.isPlain := by decide
  have htimed : s.AllTimed := by
    have hstore : s = (createdAt 0).follow (ownedStart.script ownedByEntry) :=
      ownedStart.run_store ownedByEntry
    rw [hstore]
    refine (createdAt_calm 0).follow_allTimed ?_ fun _ => isPlain_of_mem_script (s := ownedStart) hplain
    intro _ _ hfind
    cases hfind
  have hsweep : (s.sweep 2000).returned := by decide
  obtain ⟨-, gone, -, hdead, hresult, -⟩ :=
    sweep_agrees_with_get {} false { link := .connected } 0 hreturned htimed hsweep
  refine ⟨hreturned, htimed, hsweep, gone, (hdead _).mpr (by decide), ?_, hresult⟩
  exact fun hweak => absurd ((hdead _).mp hweak).2 (by decide)

end Session

end TimedCache
