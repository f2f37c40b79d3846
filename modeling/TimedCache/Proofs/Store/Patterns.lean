import TimedCache.Proofs.Store.Limits
import TimedCache.Proofs.Store.Tally

/-!
# Removing by prefix

A removal by prefix takes out the entries whose keys start with the prefix, and tells each of them.
So what several such removals leave, how many entries they take out and whether a hook panics in
their course depends on the set of prefixes alone: neither on their order nor on repetitions.
-/

namespace TimedCache

variable {V : Type}

namespace Store

/-- No alarm waits for what is told when the entry leaves. -/
def Unalarmed (s : Store V) (key : String) (e : Entry V) : Prop :=
  Alarm.trip? ⟨e.listener, .uncached, key⟩ s.alarms = none
    ∧ Alarm.trip? ⟨s.delegate, .uncached, key⟩ s.alarms = none

section Returns

variable {s : Store V} {t : WallTime} {key : String} {e : Entry V}

/-- A hook returns exactly if no alarm waits for its call, which then is recorded. -/
theorem notify_returned_iff (x : Event V) :
    (s.notify x).returned ↔ Alarm.trip? x.call s.alarms = none := by
  rw [notify]
  cases Alarm.trip? x.call s.alarms <;> simp [Ran.returned, Except.isOk, Except.toBool]

theorem notify_of_trip?_eq_none {x : Event V} (h : Alarm.trip? x.call s.alarms = none) :
    s.notify x = .done { s with log := s.log ++ [x] } () := by
  simp [notify, h, Ran.done]

/-- An entry that no alarm waits for costs no more than a note of the size when it has left. -/
theorem discard_of_unalarmed (h : s.Unalarmed key e) (t : WallTime) (inFlight : List (Holder V)) :
    ∃ log, s.discard t key e inFlight
      = .done { s with stats := s.stats.observeSize s.size, log } () := by
  rw [discard, announce, notify_of_trip?_eq_none h.1, Ran.done_andThen, notify_of_trip?_eq_none h.2]
  exact ⟨_, rfl⟩

/-- The hooks of an entry that has left return exactly if no alarm waits for them. -/
theorem discard_returned_iff (t : WallTime) (inFlight : List (Holder V)) :
    (s.discard t key e inFlight).returned ↔ s.Unalarmed key e := by
  constructor
  · intro h
    have hannounced := Ran.returned_of_andThen h
    obtain ⟨_, hfirst, hsecond⟩ := Ran.returned_andThen_iff.mp hannounced
    have hquiet := (notify_returned_iff (entryEvent t .uncached key e)).mp (Ran.returned_of_ok hfirst)
    rw [notify_of_trip?_eq_none hquiet] at hsecond
    exact ⟨hquiet, (notify_returned_iff _).mp hsecond⟩
  · intro h
    obtain ⟨log, hdone⟩ := discard_of_unalarmed h t inFlight
    rw [hdone]
    rfl

/-- Removing keys returns exactly if no alarm waits for any of their entries, and then leaves the
alarms as they are. -/
theorem removeEach_returned_iff (t : WallTime) (adjust : Stats → Stats) (keys : List String) :
    ∀ {s : Store V}, ((removeEach t adjust keys s).returned
        ↔ ∀ key ∈ keys, ∀ e, s.find? key = some e → s.Unalarmed key e)
      ∧ ((removeEach t adjust keys s).returned →
        (removeEach t adjust keys s).state.alarms = s.alarms) := by
  induction keys with
  | nil => simp [removeEach, Ran.done, Ran.returned, Except.isOk, Except.toBool]
  | cons key rest ih =>
    intro s
    rw [removeEach]
    cases hfind : s.find? key with
    | none => simpa [hfind] using ih (s := s)
    | some e =>
      dsimp only
      let gone := (s.erase key).count adjust
      by_cases hquiet : s.Unalarmed key e
      · obtain ⟨log, hdone⟩ := discard_of_unalarmed (s := gone) hquiet t []
        rw [show (gone.discard t key e []) = _ from hdone, Ran.done_andThen]
        obtain ⟨hiff, halarms⟩ := ih (s := { gone with stats := gone.stats.observeSize gone.size, log })
        refine ⟨hiff.trans ?_, halarms⟩
        -- the entry under the first key is gone, and no alarm waited for it
        have hother : ∀ other, (s.erase key).find? other = if other = key then none else s.find? other :=
          s.find?_erase key
        constructor
        · intro h other hmem x hx
          by_cases hkey : other = key
          · subst hkey
            rw [hfind] at hx
            exact Option.some.inj hx ▸ hquiet
          · have hrest := (List.mem_cons.mp hmem).resolve_left hkey
            exact h other hrest x ((hother other).trans ((if_neg hkey).trans hx))
        · intro h other hmem x hx
          have hfound := (hother other).symm.trans hx
          split at hfound
          · cases hfound
          · exact h other (List.mem_cons_of_mem _ hmem) x hfound
      · have hpanics : ¬(gone.discard t key e []).returned := fun h =>
          hquiet ((discard_returned_iff (s := gone) t []).mp h)
        have hstops : ¬((gone.discard t key e []).andThen fun s _ =>
            removeEach t adjust rest s).returned := fun h => hpanics (Ran.returned_of_andThen h)
        refine ⟨iff_of_false hstops fun h => hquiet ?_, fun h => absurd h hstops⟩
        exact h key (List.mem_cons_self ..) e hfind

/-- A removal by prefix returns exactly if no alarm waits for an entry whose key starts with it, and
then leaves the alarms as they are. -/
theorem uncacheLike_returned_iff (hnodup : s.keys.Nodup) (t : WallTime) (pattern : String) :
    ((s.uncacheLike t pattern).returned
        ↔ ∀ p ∈ s.entries, startsWith pattern p.1 → s.Unalarmed p.1 p.2)
      ∧ ((s.uncacheLike t pattern).returned → (s.uncacheLike t pattern).state.alarms = s.alarms) := by
  obtain ⟨hiff, halarms⟩ := removeEach_returned_iff t id (s.keysLike pattern) (s := s)
  have hsame : (s.uncacheLike t pattern).returned ↔ (removeEach t id (s.keysLike pattern) s).returned := by
    rw [uncacheLike, removeAll, Ran.returned_andThen_iff]
    constructor
    · rintro ⟨_, hok, -⟩
      exact Ran.returned_of_ok hok
    · intro h
      obtain ⟨a, ha⟩ := Ran.exists_of_returned h
      exact ⟨a, ha, rfl⟩
  rw [hsame]
  constructor
  · rw [hiff]
    constructor
    · intro h p hp hstarts
      have hkey : p.1 ∈ s.keysLike pattern := List.mem_filter.mpr ⟨List.mem_map_of_mem hp, hstarts⟩
      exact h p.1 hkey p.2 ((lookup_eq_some_iff_mem hnodup).mpr hp)
    · intro h key hkey e hfind
      exact h (key, e) (mem_of_lookup hfind) (List.mem_filter.mp hkey).2
  · intro h
    obtain ⟨a, ha⟩ := Ran.exists_of_returned h
    rw [uncacheLike, removeAll, Ran.andThen_of_ok ha]
    exact halarms h

end Returns

/-- The key starts with one of the patterns. -/
def startsWithAny (patterns : List String) (key : String) : Bool := patterns.any (startsWith · key)

section Patterns

variable {s : Store V} {t : WallTime}

/-- A removal by prefix that returns leaves the entries under other keys, and of the rest of the store
changes only the size that was noted. -/
theorem uncacheLike_state (hs : s.muted.Calm) {pattern : String}
    (h : (s.uncacheLike t pattern).returned) : ∃ log, (s.uncacheLike t pattern).state
      = s.turned (s.entries.filter fun p => !startsWith pattern p.1) id log := by
  obtain ⟨log, hlike⟩ := hs.uncacheLike_eq t pattern
  have hmuted : (s.uncacheLike t pattern).state.muted = (s.muted.uncacheLike t pattern).state :=
    Occasion.after_muted (o := ⟨s, .uncacheLike t pattern⟩) rfl h
  have hnodup : s.keys.Nodup := hs.nodup
  have halarms := (uncacheLike_returned_iff hnodup t pattern).2 h
  refine ⟨log, ?_⟩
  calc (s.uncacheLike t pattern).state
      = { (s.uncacheLike t pattern).state.muted with
          alarms := (s.uncacheLike t pattern).state.alarms } := rfl
    _ = s.turned (s.entries.filter fun p => !startsWith pattern p.1) id log := by
        rw [halarms, hmuted, hlike]
        rfl

/-- A removal by prefix that returns leaves a store that is calm but for alarms. -/
theorem uncacheLike_calm (hs : s.muted.Calm) {pattern : String}
    (h : (s.uncacheLike t pattern).returned) : (s.uncacheLike t pattern).state.muted.Calm :=
  Occasion.calm_after (o := ⟨s, .uncacheLike t pattern⟩) hs h

/-- Keys that start with none of some patterns start neither with the first nor with another one. -/
theorem filter_startsWithAny_cons (entries : List (String × Entry V)) (pattern : String)
    (rest : List String) :
    ((entries.filter fun p => !startsWith pattern p.1).filter fun p => !startsWithAny rest p.1)
      = entries.filter fun p => !startsWithAny (pattern :: rest) p.1 := by
  rw [List.filter_filter]
  refine List.filter_congr fun p _ => ?_
  simp [startsWithAny, Bool.and_comm]

/-- Removals by several prefixes leave the entries whose keys start with none of them. -/
theorem follow_uncacheLike (hs : s.muted.Calm) {patterns : List String}
    (hreturned : ∀ o ∈ s.history (patterns.map (.uncacheLike t)), o.returned) :
    ∃ log, s.follow (patterns.map (.uncacheLike t))
      = s.turned (s.entries.filter fun p => !startsWithAny patterns p.1) id log := by
  induction patterns generalizing s with
  | nil =>
    have hall : (s.entries.filter fun p => !startsWithAny [] p.1) = s.entries :=
      List.filter_eq_self.mpr fun _ _ => rfl
    have hcounted : s.stats.observeSize s.entries.length = s.stats := congrArg stats hs.observe_eq
    refine ⟨s.log, ?_⟩
    rw [hall, turned, id_eq, hcounted]
    rfl
  | cons pattern rest ih =>
    obtain ⟨hfirst, hrest⟩ := List.forall_mem_cons.mp hreturned
    obtain ⟨log, hstate⟩ := uncacheLike_state hs hfirst
    obtain ⟨log', hfollow⟩ := ih (uncacheLike_calm hs hfirst) hrest
    -- the size that was noted in between is forgotten
    have hbound : (s.entries.filter fun p => !startsWith pattern p.1).length ≤ s.stats.watermark :=
      Nat.le_trans (List.length_filter_le _ _) hs.bounded
    refine ⟨log', hfollow.trans ?_⟩
    rw [hstate, turned_entries, filter_startsWithAny_cons]
    simp only [turned, id_eq, Stats.observeSize_observeSize hbound]

/-- Removals by several prefixes return exactly if no alarm waits for an entry whose key starts with
one of them. -/
theorem history_uncacheLike_returned_iff (hs : s.muted.Calm) (t : WallTime) (patterns : List String) :
    (∀ o ∈ s.history (patterns.map (.uncacheLike t)), o.returned)
      ↔ ∀ p ∈ s.entries, startsWithAny patterns p.1 → s.Unalarmed p.1 p.2 := by
  induction patterns generalizing s with
  | nil => simp [history, startsWithAny]
  | cons pattern rest ih =>
    have hnodup : s.keys.Nodup := hs.nodup
    have hfirst : (s.uncacheLike t pattern).returned ↔ _ :=
      (uncacheLike_returned_iff hnodup t pattern).1
    -- the entries that the first removal leaves, and the alarms for them, are those from before
    have hrest (hreturned : (s.uncacheLike t pattern).returned) :
        (∀ o ∈ (s.uncacheLike t pattern).state.history (rest.map (.uncacheLike t)), o.returned)
          ↔ ∀ p ∈ s.entries, !startsWith pattern p.1 → startsWithAny rest p.1 →
            s.Unalarmed p.1 p.2 := by
      obtain ⟨log, hstate⟩ := uncacheLike_state hs hreturned
      rw [ih (uncacheLike_calm hs hreturned), hstate, turned_entries]
      simp only [List.mem_filter, and_imp]
      rfl
    have hany (key : String) : startsWithAny (pattern :: rest) key
        = (startsWith pattern key || startsWithAny rest key) := List.any_cons
    rw [List.map_cons, history, List.forall_mem_cons]
    constructor
    · rintro ⟨hreturned, hothers⟩ p hp hstarts
      rw [hany, Bool.or_eq_true] at hstarts
      by_cases hpattern : startsWith pattern p.1
      · exact hfirst.mp hreturned p hp hpattern
      · exact (hrest hreturned).mp hothers p hp (by simp [hpattern]) (hstarts.resolve_left hpattern)
    · intro h
      have hreturned := hfirst.mpr fun p hp hpattern => h p hp (by simp [hany, hpattern])
      exact ⟨hreturned, (hrest hreturned).mpr fun p hp _ hstarts => h p hp (by simp [hany, hstarts])⟩

/-- What removals by several prefixes say that they took out and what they leave make up the store. -/
theorem sum_removedLike_add_size (hs : s.muted.Calm) {patterns : List String}
    (hreturned : ∀ o ∈ s.history (patterns.map (.uncacheLike t)), o.returned) :
    ((s.history (patterns.map (.uncacheLike t))).map Occasion.removedLike).sum
      + (s.follow (patterns.map (.uncacheLike t))).size = s.size := by
  induction patterns generalizing s with
  | nil => exact Nat.zero_add _
  | cons pattern rest ih =>
    obtain ⟨hfirst, hrest⟩ := List.forall_mem_cons.mp hreturned
    have hlater := ih (uncacheLike_calm hs hfirst) hrest
    have hnow : (s.uncacheLike t pattern).state.size
        + (0 + 0 + (s.uncacheLike t pattern).number + 0 + 0) = s.size :=
      (uncacheLike_tallied hs hfirst).balance
    rw [List.map_cons, history, List.map_cons, List.sum_cons]
    change (s.uncacheLike t pattern).number + _
      + ((s.uncacheLike t pattern).state.follow (rest.map (.uncacheLike t))).size = s.size
    change _ = (s.uncacheLike t pattern).state.size at hlater
    rw [← hnow, ← hlater]
    simp only [Store.act]
    omega

/-- Removals by several prefixes that return say between them how many entries they took out. -/
theorem sum_removedLike (hs : s.muted.Calm) {patterns : List String}
    (hreturned : ∀ o ∈ s.history (patterns.map (.uncacheLike t)), o.returned) :
    ((s.history (patterns.map (.uncacheLike t))).map Occasion.removedLike).sum
      = (s.entries.filter fun p => startsWithAny patterns p.1).length := by
  obtain ⟨log, hfollow⟩ := follow_uncacheLike hs hreturned
  have htotal := sum_removedLike_add_size hs hreturned
  rw [hfollow] at htotal
  have hsplit := List.length_eq_length_filter_add (fun p => startsWithAny patterns p.1) (l := s.entries)
  change _ + (s.entries.filter fun p => !startsWithAny patterns p.1).length = s.entries.length at htotal
  omega

end Patterns

end Store

end TimedCache
