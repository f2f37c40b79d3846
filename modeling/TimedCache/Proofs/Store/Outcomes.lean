import TimedCache.Proofs.Store.Standing

/-!
# Outcomes of the operations

What the operations of a calm store do to the entries and the counters, told apart by what they return.
A put and a removal by key change one key and count as a use, a look-up that finds a value changes no
key, one that finds none removes at most a dead entry, and a removal by prefix counts as nothing.
-/

namespace TimedCache

namespace Store

open Stats

variable {V : Type} {s : Store V}

/-- Where a calm change leaves no more entries and the watermark as it was, the counters are the adjusted
ones with the new number of entries. -/
theorem Calm.turned_stats (hs : s.Calm) {entries : List (String × Entry V)}
    (hlength : entries.length ≤ s.size) {adjust : Stats → Stats}
    (hadjust : ∀ st, (adjust st).watermark = st.watermark) (log : List (Event V)) :
    (s.turned entries adjust log).stats
      = { adjust s.stats with totalEntries := (s.turned entries adjust log).size } := by
  have hmax : max (adjust s.stats).watermark entries.length = (adjust s.stats).watermark := by
    rw [hadjust]
    exact Nat.max_eq_left (Nat.le_trans hlength hs.bounded)
  rw [Store.turned, observeSize, hmax]
  rfl

/-- The effect of a put: it is counted as one and as a use, and changes nothing under other keys. -/
structure Stored (now : Timestamp) (key : String) (before after : Store V) : Prop where
  others : ∀ other, other ≠ key → after.find? other = before.find? other
  stats : after.stats = { before.stats with
    puts := Word.wrap (before.stats.puts + 1), lastTouch := now }.observeSize after.size

/-- The effect of a look-up that finds a value: it is counted as a hit and as a use, and is noted in the
entry. -/
structure Hit (now : Timestamp) (key : String) (before after : Store V) : Prop where
  entries : after.entries = (before.alter key (Entry.accessed now)).entries
  keys : after.keys = before.keys
  stats : after.stats = { before.stats with
    hits := Word.wrap (before.stats.hits + 1), lastTouch := now, totalEntries := after.size }

/-- The effect of a look-up that finds no value: it is counted as a miss and as a use. An entry is there
only if it is expired, which a reclaimed one always counts as; a custom one is reclaimed if it has no
value to serve, whatever it says of being expired. It is removed then, and the expiration is counted. -/
inductive Missed (now : Timestamp) (key : String) (before after : Store V) : Prop
  | absent (hfind : before.find? key = none) (hentries : after.entries = before.entries)
      (hstats : after.stats = { before.stats with
        misses := Word.wrap (before.stats.misses + 1), lastTouch := now, totalEntries := after.size })
  | dead (e : Entry V) (hfind : before.find? key = some e)
      (hdead : e.isExpired (before.moment []) now = true ∨ ∃ c, e = .custom c ∧ c.value = none)
      (hentries : after.entries = before.entries.filter fun p => p.1 != key)
      (hstats : after.stats = { before.stats with
        misses := Word.wrap (before.stats.misses + 1)
        expirations := Word.wrap (before.stats.expirations + 1)
        lastTouch := now, totalEntries := after.size })

/-- The effect of a removal by key: it is counted as a use and nothing else, and changes nothing under
other keys. -/
structure Uncached (now : Timestamp) (key : String) (before after : Store V) : Prop where
  gone : after.find? key = none
  others : ∀ other, other ≠ key → after.find? other = before.find? other
  stats : after.stats = { before.stats with lastTouch := now, totalEntries := after.size }

/-- The effect of a removal by prefix: exactly the entries with the prefix are gone, so many of them, and
it is not even counted as a use. -/
structure UncachedLike (pattern : String) (count : Nat) (before after : Store V) : Prop where
  count : count = (before.entries.filter fun p => startsWith pattern p.1).length
  entries : after.entries = before.entries.filter fun p => !startsWith pattern p.1
  stats : after.stats = { before.stats with totalEntries := after.size }

theorem Calm.put_stored (hs : s.Calm) (t : WallTime) (key : String) (e : Entry V) :
    (s.put t key e).result = .ok () ∧ Stored t.stamp key s (s.put t key e).state := by
  obtain ⟨log, h⟩ := hs.put_eq t key e
  have hother : ∀ other, other ≠ key → (s.put t key e).state.find? other = s.find? other :=
    fun other hne => (hs.find?_put t key other e).trans (if_neg hne)
  exact ⟨congrArg Ran.result h, hother, by rw [h]; rfl⟩

theorem Calm.uncache_uncached (hs : s.Calm) (t : WallTime) (key : String) :
    (s.uncache t key).result = .ok () ∧ Uncached t.stamp key s (s.uncache t key).state := by
  obtain ⟨log, h⟩ := hs.uncache_eq t key
  have hfind (other : String) : (s.uncache t key).state.find? other
      = if other = key then none else s.find? other := hs.find?_uncache t key other
  refine ⟨congrArg Ran.result h, (hfind key).trans (if_pos rfl),
    fun other hne => (hfind other).trans (if_neg hne), ?_⟩
  rw [h]
  exact hs.turned_stats (erase_entries_length_le s key) (counts_touch t.stamp).watermark log

theorem Calm.uncacheLike_uncachedLike (hs : s.Calm) (t : WallTime) (pattern : String) :
    ∃ count, (s.uncacheLike t pattern).result = .ok count
      ∧ UncachedLike pattern count s (s.uncacheLike t pattern).state := by
  obtain ⟨log, h⟩ := hs.uncacheLike_eq t pattern
  refine ⟨_, congrArg Ran.result h, ?_, ?_, ?_⟩
  · rw [keysLike, keys, List.filter_map, List.length_map]
    rfl
  · rw [h]
    rfl
  · rw [h]
    exact hs.turned_stats (List.length_filter_le _ _) counts_id.watermark log

/-- A look-up in a calm store has found a value or missed. -/
theorem Calm.get_cases (hs : s.Calm) (t : WallTime) (key : String) :
    (∃ cell, (s.get t key).result = .ok (some cell) ∧ Hit t.stamp key s (s.get t key).state)
      ∨ (s.get t key).result = .ok none ∧ Missed t.stamp key s (s.get t key).state := by
  cases hfind : s.find? key with
  | none =>
    right
    rw [hs.get_eq_of_absent t hfind]
    have hkept := ((counts_touch t.stamp).comp counts_recordMiss).watermark
    exact ⟨rfl, .absent hfind rfl (hs.turned_stats (Nat.le_refl _) hkept _)⟩
  | some e =>
    cases hlive : e.isLive (s.moment []) t.stamp with
    | true =>
      left
      obtain ⟨log, h⟩ := hs.get_eq_of_live t hfind hlive
      have hvalue : (e.cell (s.moment [])).isSome := by
        rw [← Option.isSome_map]
        exact (Bool.and_eq_true_iff.mp hlive).2
      obtain ⟨cell, hcell⟩ := Option.isSome_iff_exists.mp hvalue
      have hlength : (s.alter key (Entry.accessed t.stamp)).entries.length ≤ s.size :=
        Nat.le_of_eq (List.length_map _)
      refine ⟨cell, ?_, ?_, ?_, ?_⟩
      · rw [h, hcell]
        rfl
      · rw [h]
        rfl
      · rw [h]
        exact alter_keys s key _
      · rw [h]
        exact hs.turned_stats hlength ((counts_touch t.stamp).comp counts_recordHit).watermark log
    | false =>
      right
      obtain ⟨log, h⟩ := hs.get_eq_of_dead t hfind hlive
      rw [h]
      exact ⟨rfl, .dead e hfind (Entry.isExpired_of_isLive_eq_false hlive) rfl
        (hs.turned_stats (erase_entries_length_le s key) (counts_expire t.stamp).watermark log)⟩

end Store

end TimedCache
