import Mathlib.Algebra.GroupWithZero.Nat
import TimedCache.Proofs.Store.Muted

/-!
# What the counters count

While no hook panics, the counters of a store can be read off its history: how many look-ups found
something, how many puts were made, how many entries expired, and how large the store ever was. And
the entries balance: each one that was put is in the store, or was replaced, or was removed by one of
the operations that say how many they removed, or expired.
-/

namespace TimedCache

open Stats

variable {V : Type}

/-- The number that an operation returned. -/
def Ran.number {K σ : Type} (r : Ran K σ Nat) : Nat :=
  match r.result with
  | .ok n => n
  | .error _ => 0

theorem Ran.number_of_ok {K σ : Type} {r : Ran K σ Nat} {n : Nat} (h : r.result = .ok n) :
    r.number = n := by
  rw [number, h]

namespace Occasion

/-- A look-up was made. -/
def isGet (o : Occasion V) : Bool :=
  match o.action with
  | .get .. => true
  | _ => false

/-- A look-up found a value. -/
def isHit (o : Occasion V) : Bool :=
  match o.action with
  | .get t key =>
    match (o.before.get t key).result with
    | .ok found => found.isSome
    | .error _ => false
  | _ => false

/-- A look-up found an entry and returned nothing. -/
def isExpiry (o : Occasion V) : Bool :=
  match o.action with
  | .get _ key => (o.before.find? key).isSome && !o.isHit
  | _ => false

/-- A put was made. -/
def isPut (o : Occasion V) : Bool :=
  match o.action with
  | .put .. => true
  | _ => false

/-- A put replaced an entry. -/
def isReplacement (o : Occasion V) : Bool :=
  match o.action with
  | .put _ key _ => (o.before.find? key).isSome
  | _ => false

/-- A removal by key found the key. -/
def isUncached (o : Occasion V) : Bool :=
  match o.action with
  | .uncache _ key => (o.before.find? key).isSome
  | _ => false

/-- The result of a removal by prefix. -/
def removedLike (o : Occasion V) : Nat :=
  match o.action with
  | .uncacheLike t pattern => (o.before.uncacheLike t pattern).number
  | _ => 0

/-- The result of a sweep. -/
def swept (o : Occasion V) : Nat :=
  match o.action with
  | .sweep t => (o.before.sweep t).number
  | _ => 0

/-- The result of a drain. -/
def drained (o : Occasion V) : Nat :=
  match o.action with
  | .drain t => (o.before.drain t).number
  | _ => 0

/-- The number of entries that expired. -/
def expired (o : Occasion V) : Nat := o.swept + o.isExpiry.toNat

/-- The number of entries that went out. -/
def departed (o : Occasion V) : Nat :=
  o.isReplacement.toNat + o.isUncached.toNat + o.removedLike + o.drained + o.expired

/-- An action counts what it did, notes the size, and what went out and what came in are the
difference that it made. -/
structure Tallied (o : Occasion V) (adjust : Stats → Stats) : Prop where
  stats : o.after.stats = (adjust o.before.stats).observeSize o.after.size
  counts : Counts o.isHit.toNat (o.isGet && !o.isHit).toNat o.isPut.toNat o.expired adjust
  balance : o.after.size + o.departed = o.before.size + o.isPut.toNat

end Occasion

namespace Store

variable {s : Store V}

/-- A store that turned into this one without its alarms has these counters and this size. -/
theorem stats_of_muted {s' : Store V} {entries : List (String × Entry V)} {adjust : Stats → Stats}
    {log : List (Event V)} (h : s'.muted = s.turned entries adjust log) :
    s'.stats = (adjust s.stats).observeSize s'.size ∧ s'.size = entries.length := by
  have hsize : s'.size = entries.length := congrArg size h
  exact ⟨hsize ▸ congrArg stats h, hsize⟩

/-- A put that returns is counted, and so is the entry that it replaces. -/
theorem put_tallied (hs : s.muted.Calm) {t : WallTime} {key : String} {e : Entry V}
    (h : (s.put t key e).returned) :
    (Occasion.mk s (.put t key e)).Tallied (recordPut ∘ touch t.stamp) := by
  obtain ⟨log, hput⟩ := hs.put_eq t key e
  have hafter := (s.put_echoes t key e).state_eq h
  rw [hput] at hafter
  obtain ⟨hstats, hsize⟩ := stats_of_muted hafter
  refine ⟨hstats, (counts_touch _).comp counts_recordPut, ?_⟩
  have herase : (s.erase key).entries.length + (s.find? key).isSome.toNat = s.size :=
    hs.erase_length key
  have hlength : ((s.muted.erase key).append key e).entries.length
      = (s.erase key).entries.length + 1 := List.length_append
  change (s.put t key e).state.size + ((s.find? key).isSome.toNat + 0) = s.size + 1
  omega

/-- A look-up is tallied by its closed form: it is a hit if it found a value, and an expiration if it
found an entry and no value. -/
theorem tallied_of_get {t : WallTime} {key : String} (h : (s.get t key).returned)
    {entries : List (String × Entry V)} {adjust : Stats → Stats} {log : List (Event V)}
    {found : Option (Cell V)} (hget : s.muted.get t key = .done (s.muted.turned entries adjust log) found)
    (expiry : Bool) (hexpiry : ((s.find? key).isSome && !found.isSome) = expiry)
    (hcounts : Counts found.isSome.toNat (!found.isSome).toNat 0 expiry.toNat adjust)
    (hlength : entries.length + expiry.toNat = s.size) :
    (Occasion.mk s (.get t key)).Tallied adjust := by
  have hafter := (s.get_echoes t key).state_eq h
  have hresult := (s.get_echoes t key).result_eq h
  rw [hget] at hafter hresult
  obtain ⟨hstats, hsize⟩ := stats_of_muted hafter
  have hhit : (Occasion.mk s (.get t key)).isHit = found.isSome := by
    simp only [Occasion.isHit, hresult, Ran.done]
  have hexpired : (Occasion.mk s (.get t key)).expired = expiry.toNat := by
    simp only [Occasion.expired, Occasion.isExpiry, Occasion.swept, hhit, hexpiry, Nat.zero_add]
  refine ⟨hstats, ?_, ?_⟩
  · rw [hhit, hexpired]
    exact hcounts
  · rw [Occasion.departed, hexpired]
    change (s.get t key).state.size + (0 + 0 + 0 + 0 + expiry.toNat) = s.size + 0
    omega

/-- A look-up that returns is counted as a hit or as a miss, and the entry that it takes out as an
expiration. -/
theorem get_tallied (hs : s.muted.Calm) {t : WallTime} {key : String} (h : (s.get t key).returned) :
    ∃ adjust, (Occasion.mk s (.get t key)).Tallied adjust := by
  cases hfind : s.find? key with
  | none =>
    have hget := hs.get_eq_of_absent t hfind
    have hcounts : Counts 0 1 0 0 (recordMiss ∘ touch t.stamp) :=
      (counts_touch _).comp counts_recordMiss
    exact ⟨_, tallied_of_get h hget false (by rw [hfind]; rfl) hcounts rfl⟩
  | some e =>
    cases hlive : e.isLive (s.muted.moment []) t.stamp with
    | true =>
      obtain ⟨log, hget⟩ := hs.get_eq_of_live t hfind hlive
      have hfound : (e.cell (s.muted.moment [])).isSome = true := by
        rw [Entry.isLive, Bool.and_eq_true, Entry.object, Option.isSome_map] at hlive
        exact hlive.2
      refine ⟨_, tallied_of_get h hget false (by rw [hfind, hfound]; rfl) ?_ (List.length_map _)⟩
      rw [hfound]
      exact (counts_touch _).comp counts_recordHit
    | false =>
      obtain ⟨log, hget⟩ := hs.get_eq_of_dead t hfind hlive
      have herase : (s.erase key).entries.length + (s.find? key).isSome.toNat = s.size :=
        hs.erase_length key
      rw [hfind] at herase
      exact ⟨_, tallied_of_get h hget true (by rw [hfind]; rfl) (counts_expire _) herase⟩

/-- A removal by key that returns counts nothing. -/
theorem uncache_tallied (hs : s.muted.Calm) {t : WallTime} {key : String}
    (h : (s.uncache t key).returned) : (Occasion.mk s (.uncache t key)).Tallied (touch t.stamp) := by
  have hafter := (s.uncache_echoes t key).state_eq h
  obtain ⟨log, huncache⟩ := hs.uncache_eq t key
  rw [huncache] at hafter
  obtain ⟨hstats, hsize⟩ := stats_of_muted hafter
  have herase : (s.erase key).entries.length + (s.find? key).isSome.toNat = s.size := hs.erase_length key
  refine ⟨hstats, counts_touch _, ?_⟩
  change (s.uncache t key).state.size + (0 + (s.find? key).isSome.toNat + 0) = s.size
  change _ = (s.erase key).entries.length at hsize
  omega

/-- A removal by prefix that returns counts nothing, and returns how many entries it took out. -/
theorem uncacheLike_tallied (hs : s.muted.Calm) {t : WallTime} {pattern : String}
    (h : (s.uncacheLike t pattern).returned) :
    (Occasion.mk s (.uncacheLike t pattern)).Tallied id := by
  have hechoes : Echoes (s.uncacheLike t pattern) (s.muted.uncacheLike t pattern) :=
    s.removeAll_echoes t id _
  have hafter := hechoes.state_eq h
  have hresult := hechoes.result_eq h
  obtain ⟨log, hlike⟩ := hs.uncacheLike_eq t pattern
  rw [hlike] at hafter hresult
  obtain ⟨hstats, hsize⟩ := stats_of_muted hafter
  refine ⟨hstats, counts_id, ?_⟩
  have hnumber : (s.uncacheLike t pattern).number = (s.keysLike pattern).length :=
    Ran.number_of_ok hresult
  have hlength : (s.keysLike pattern).length
      = (s.entries.filter fun p => startsWith pattern p.1).length := by
    rw [keysLike, keys, List.filter_map, List.length_map]
    rfl
  have hsplit := List.length_eq_length_filter_add (fun p => startsWith pattern p.1) (l := s.entries)
  change (s.uncacheLike t pattern).state.size
    + (0 + 0 + (s.uncacheLike t pattern).number + 0 + 0) = s.entries.length
  change _ = (s.entries.filter fun p => !startsWith pattern p.1).length at hsize
  omega

/-- A sweep that returns counts the entries that it took out, and returns their number. -/
theorem sweep_tallied (hs : s.muted.Calm) {t : WallTime} (h : (s.sweep t).returned) :
    ∃ adjust, (Occasion.mk s (.sweep t)).Tallied adjust := by
  have hechoes : Echoes (s.sweep t) (s.muted.sweep t) := s.removeAll_echoes t recordExpiration _
  have hafter := hechoes.state_eq h
  have hresult := hechoes.result_eq h
  obtain ⟨log, hsweep⟩ := hs.sweep_eq t
  rw [hsweep] at hafter hresult
  obtain ⟨hstats, hsize⟩ := stats_of_muted hafter
  have hnumber : (s.sweep t).number = (s.expiredKeys t.stamp).length := Ran.number_of_ok hresult
  refine ⟨recordExpiration^[(s.expiredKeys t.stamp).length], hstats, ?_, ?_⟩
  · rw [← hnumber]
    exact counts_iterate _
  · have hsplit := s.length_expiredKeys_add t.stamp
    change (s.sweep t).state.size + (0 + 0 + 0 + 0 + ((s.sweep t).number + 0)) = s.size
    change _ = (s.entries.filter fun p => !p.2.isExpired (s.moment []) t.stamp).length at hsize
    omega

/-- A drain that returns counts nothing, and returns how many entries there were. -/
theorem drain_tallied (hs : s.muted.Calm) {t : WallTime} (h : (s.drain t).returned) :
    (Occasion.mk s (.drain t)).Tallied id := by
  have hafter := (s.drain_echoes t).state_eq h
  have hresult := (s.drain_echoes t).result_eq h
  obtain ⟨log, hdrain⟩ := hs.drain_eq t
  rw [hdrain] at hafter hresult
  obtain ⟨hstats, hsize⟩ := stats_of_muted hafter
  refine ⟨hstats, counts_id, ?_⟩
  have hnumber : (s.drain t).number = s.size := Ran.number_of_ok hresult
  change (s.drain t).state.size + (0 + 0 + 0 + (s.drain t).number + 0) = s.size
  change _ = 0 at hsize
  omega

end Store

namespace Occasion

/-- While no hook panics, every action is tallied. -/
theorem tallied {o : Occasion V} (hs : o.before.muted.Calm) (hreturned : o.returned) :
    ∃ adjust, o.Tallied adjust := by
  obtain ⟨s, a⟩ := o
  -- a change of what surrounds the store counts nothing, and the size is known already
  have hcounted : s.stats = s.stats.observeSize s.size := congrArg Store.stats hs.observe_eq.symm
  cases a with
  | put t key e => exact ⟨_, Store.put_tallied hs hreturned⟩
  | get t key => exact Store.get_tallied hs hreturned
  | uncache t key => exact ⟨_, Store.uncache_tallied hs hreturned⟩
  | uncacheLike t pattern => exact ⟨_, Store.uncacheLike_tallied hs hreturned⟩
  | sweep t => exact Store.sweep_tallied hs hreturned
  | drain t => exact ⟨_, Store.drain_tallied hs hreturned⟩
  | refer | delegateTo | arm => exact ⟨id, hcounted, counts_id, rfl⟩
  | revise later =>
    have hsize : (s.reviseCustom later).size = s.size := List.length_map _
    refine ⟨id, ?_, counts_id, hsize⟩
    exact hcounted.trans (congrArg (observeSize · s.stats) hsize.symm)

end Occasion

namespace Store

/-- What the counters and the size of a store say of its history. -/
structure Tally (past : List (Occasion V)) (s : Store V) : Prop where
  calm : s.muted.Calm
  hits : s.stats.hits = Word.wrap (past.countP Occasion.isHit)
  misses : s.stats.misses = Word.wrap (past.countP fun o => o.isGet && !o.isHit)
  puts : s.stats.puts = Word.wrap (past.countP Occasion.isPut)
  expirations : s.stats.expirations = Word.wrap (past.map Occasion.expired).sum
  balance : past.countP Occasion.isPut = s.size + (past.map Occasion.departed).sum
  watermark : s.stats.watermark = (past.map fun o => o.after.size).foldl max 0

/-- A new store has counted nothing. -/
theorem createdAt_tally (t : WallTime) : Tally [] (createdAt t : Store V) :=
  ⟨createdAt_calm t, rfl, rfl, rfl, rfl, rfl, rfl⟩

namespace Tally

variable {past : List (Occasion V)}

/-- One more occurrence counts one more if it is one. -/
theorem countP_concat (p : Occasion V → Bool) (o : Occasion V) :
    (past ++ [o]).countP p = past.countP p + (p o).toNat := by
  rw [List.countP_append, List.countP_singleton]
  cases p o <;> rfl

/-- An action that returns keeps the tally. -/
theorem act {o : Occasion V} (h : Tally past o.before) (hreturned : o.returned) :
    Tally (past ++ [o]) o.after := by
  obtain ⟨adjust, hstats, hcounts, hbalance⟩ := Occasion.tallied h.calm hreturned
  have hpast := h.balance
  refine ⟨Occasion.calm_after h.calm hreturned, ?_, ?_, ?_, ?_, ?_, ?_⟩
  · rw [countP_concat, hstats]
    exact hcounts.hits _ _ h.hits
  · rw [countP_concat, hstats]
    exact hcounts.misses _ _ h.misses
  · rw [countP_concat, hstats]
    exact hcounts.puts _ _ h.puts
  · rw [List.map_append, List.sum_append, hstats]
    exact hcounts.expirations _ _ h.expirations
  · rw [countP_concat, List.map_append, List.sum_append, List.map_singleton, List.sum_singleton]
    omega
  · have hwatermark : o.after.stats.watermark = max o.before.stats.watermark o.after.size := by
      rw [hstats]
      exact congrArg (max · _) (hcounts.watermark _)
    rw [hwatermark, h.watermark, List.map_append, List.foldl_append]
    rfl

/-- What went out, by the way it went. -/
theorem sum_departed (past : List (Occasion V)) : (past.map Occasion.departed).sum
    = past.countP Occasion.isReplacement + past.countP Occasion.isUncached
      + (past.map Occasion.removedLike).sum + (past.map Occasion.drained).sum
      + (past.map Occasion.expired).sum := by
  induction past with
  | nil => rfl
  | cons o rest ih =>
    simp only [List.map_cons, List.sum_cons, ih, Occasion.departed, List.countP_cons]
    cases o.isReplacement <;> cases o.isUncached <;> simp <;> omega

/-- What expired, by the way it was found. -/
theorem sum_expired (past : List (Occasion V)) : (past.map Occasion.expired).sum
    = (past.map Occasion.swept).sum + past.countP Occasion.isExpiry := by
  induction past with
  | nil => rfl
  | cons o rest ih =>
    simp only [List.map_cons, List.sum_cons, ih, Occasion.expired, List.countP_cons]
    cases o.isExpiry <;> simp <;> omega

/-- Look-ups are hits and misses. -/
theorem countP_isGet (past : List (Occasion V)) : past.countP Occasion.isGet
    = past.countP Occasion.isHit + past.countP fun o => o.isGet && !o.isHit := by
  induction past with
  | nil => rfl
  | cons o rest ih =>
    have hget : o.isHit = true → o.isGet = true := by
      obtain ⟨s, a⟩ := o
      cases a <;> simp [Occasion.isHit, Occasion.isGet]
    rw [List.countP_cons, List.countP_cons, List.countP_cons, ih]
    cases hhit : o.isHit with
    | true =>
      simp [hget hhit]
      omega
    | false => simp; omega

end Tally

/-- The counters of a store, the number of its entries and its history agree. -/
structure Conserved (past : List (Occasion V)) (s : Store V) : Prop where
  lookups : s.stats.hits + s.stats.misses = past.countP Occasion.isGet
  hits : s.stats.hits = past.countP Occasion.isHit
  puts : s.stats.puts = past.countP Occasion.isPut
  entries : s.stats.puts = s.size + past.countP Occasion.isReplacement
    + past.countP Occasion.isUncached + (past.map Occasion.removedLike).sum
    + (past.map Occasion.drained).sum + s.stats.expirations
  expirations : s.stats.expirations
    = (past.map Occasion.swept).sum + past.countP Occasion.isExpiry
  watermark : s.stats.watermark = (past.map fun o => o.after.size).foldl max 0
  total : s.report = s.stats ∧ s.stats.totalEntries = s.size

/-- While words can count the look-ups and the puts, the counters are exact. -/
theorem Tally.conserved {past : List (Occasion V)} {s : Store V} (h : Tally past s)
    (hgets : past.countP Occasion.isGet < Word.bound) (hwrites : past.countP Occasion.isPut < Word.bound) :
    Conserved past s := by
  have hlookups := countP_isGet past
  have hbalance := h.balance
  have hdeparted := sum_departed past
  have hexpired := sum_expired past
  have hhits := h.hits
  have hmisses := h.misses
  have hputs := h.puts
  have hexpirations := h.expirations
  rw [Word.wrap_of_lt (by omega)] at hhits hmisses hputs hexpirations
  have hcounted : s.stats.totalEntries = s.size := h.calm.counted
  refine ⟨by omega, hhits, hputs, by omega, by omega, h.watermark, ?_, hcounted⟩
  rw [report, ← hcounted]

/-- While no hook panics, everything that happens to a store is tallied. -/
theorem Tally.follow {s : Store V} (h : Tally [] s) {script : List (Action V)}
    (hreturned : ∀ o ∈ s.history script, o.returned) : Tally (s.history script) (s.follow script) := by
  refine history_induction (C := fun o => o.returned) h ?_ hreturned
  intro past met a hpast hreturned
  exact hpast.act (o := ⟨met, a⟩) hreturned

end Store

end TimedCache
