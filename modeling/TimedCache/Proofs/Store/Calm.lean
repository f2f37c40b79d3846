import TimedCache.Proofs.Counters
import TimedCache.Proofs.KeyedList
import TimedCache.Store.Operations

/-!
# Operations that nothing interrupts

While no alarm is armed every hook returns, and then each operation of the store has a closed
form: it leaves some entries, adjusts the counters and then notes the number of entries. The
forms need two facts of a store besides: no key occurs twice, and the counters know the size.
Each operation keeps them.
-/

namespace TimedCache

variable {V : Type}

namespace Store

variable {s : Store V} {t : WallTime} {key : String} {e : Entry V} {adjust : Stats → Stats}

/-- No hook is about to panic, no key occurs twice, and the counters know the size. -/
structure Calm (s : Store V) : Prop where
  quiet : s.alarms = []
  nodup : s.keys.Nodup
  counted : s.stats.totalEntries = s.size
  bounded : s.size ≤ s.stats.watermark

/-- A new store is calm. -/
theorem createdAt_calm (t : WallTime) : (createdAt t : Store V).Calm :=
  ⟨rfl, List.nodup_nil, rfl, Nat.le_refl _⟩

/-- The store with other entries, adjusted counters that know their number, and some calls on
record. -/
def turned (s : Store V) (entries : List (String × Entry V)) (adjust : Stats → Stats)
    (log : List (Event V)) : Store V :=
  { s with entries, stats := (adjust s.stats).observeSize entries.length, log }

section Turned

variable (s : Store V) (entries : List (String × Entry V)) (adjust : Stats → Stats)
  (log : List (Event V))

@[simp] theorem turned_entries : (s.turned entries adjust log).entries = entries := rfl

@[simp] theorem turned_owners : (s.turned entries adjust log).owners = s.owners := rfl

theorem count_turned (before : Stats → Stats) :
    (s.count before).turned entries adjust log = s.turned entries (adjust ∘ before) log := rfl

/-- Counting after a change is part of the change. -/
theorem turned_count {after : Stats → Stats} (hafter : Stats.Sizeless after) :
    (s.turned entries adjust log).count after = s.turned entries (after ∘ adjust) log := by
  simp only [count, turned, Function.comp_apply, (hafter entries.length).eq]

end Turned

/-- A store that has changed calmly is calm again. -/
theorem Calm.turned (hs : s.Calm) {entries : List (String × Entry V)}
    (hentries : (entries.map Prod.fst).Nodup) (adjust : Stats → Stats) (log : List (Event V)) :
    (s.turned entries adjust log).Calm :=
  ⟨hs.quiet, hentries, rfl, Nat.le_max_right _ _⟩

/-- Two calm changes in a row are one. -/
theorem Calm.turned_turned (hs : s.Calm) {first second : Stats → Stats}
    (hfirst : Stats.Sizeless first) (hsecond : Stats.Sizeless second)
    {entries : List (String × Entry V)} (hlength : entries.length ≤ s.size) (log : List (Event V))
    (entries' : List (String × Entry V)) (log' : List (Event V)) :
    (s.turned entries first log).turned entries' second log'
      = s.turned entries' (second ∘ first) log' := by
  have hbound : entries.length ≤ s.stats.watermark := Nat.le_trans hlength hs.bounded
  have hstats := Stats.Sizeless.note_between hfirst hsecond hbound entries'.length
  simp only [Store.turned, Function.comp_apply, hstats]

/-- A calm store has noted its size already. -/
theorem Calm.observe_eq (hs : s.Calm) : s.observe = s := by
  have hcounted : s.stats.totalEntries ≤ s.stats.watermark := hs.counted ▸ hs.bounded
  have hself := Stats.observeSize_self hcounted
  rw [hs.counted] at hself
  simp only [observe, Store.count, hself]

/-- A calm store knows its size, whatever was counted since. -/
theorem Calm.count_eq (hs : s.Calm) (hadjust : Stats.Sizeless adjust) :
    s.count adjust = s.turned s.entries adjust s.log := by
  have hself : s.stats.observeSize s.entries.length = s.stats := congrArg stats hs.observe_eq
  have hnoted : (adjust s.stats).observeSize s.entries.length = adjust s.stats := by
    rw [← (hadjust s.entries.length).eq, hself]
  simp only [Store.count, Store.turned, hnoted]

/-- Counting in a calm store leaves it calm. -/
theorem Calm.count (hs : s.Calm) (hadjust : Stats.Sizeless adjust) : (s.count adjust).Calm := by
  rw [hs.count_eq hadjust]
  exact hs.turned hs.nodup adjust s.log

section Hooks

variable (t key e) (inFlight : List (Holder V))

/-- Without alarms a call is recorded and returns. -/
theorem notify_quiet (hs : s.alarms = []) (call : Event V) :
    s.notify call = .done { s with log := s.log ++ [call] } () := by
  simp [notify, hs, Alarm.trip?, Ran.done]

/-- Without alarms both hooks of a transition return. -/
theorem announce_quiet (hs : s.alarms = []) (phase : Phase) :
    ∃ log, s.announce t phase key e inFlight = .done { s with log } () := by
  rw [announce, notify_quiet hs, Ran.done_andThen, notify_quiet (by exact hs)]
  exact ⟨_, rfl⟩

/-- Without alarms a discarded entry costs no more than a note of the size. -/
theorem discard_quiet (hs : s.alarms = []) :
    ∃ log, s.discard t key e inFlight
      = .done { s with stats := s.stats.observeSize s.size, log } () := by
  obtain ⟨log, hlog⟩ := announce_quiet t key e (e.holders ++ inFlight) hs .uncached
  exact ⟨log, by rw [discard, hlog]; rfl⟩

/-- Taking an entry out of a calm store is a calm change. -/
theorem Calm.erase_discard (hs : s.Calm) (adjust : Stats → Stats) :
    ∃ log, ((s.erase key).count adjust).discard t key e inFlight
      = .done (s.turned (s.erase key).entries adjust log) () :=
  discard_quiet t key e inFlight (s := (s.erase key).count adjust) hs.quiet

end Hooks

end Store

end TimedCache
