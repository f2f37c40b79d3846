import TimedCache.Proofs.Store.Limits

/-!
# What holds however an operation ends

A hook that panics ends the operation that called it, but some things are settled before the first
hook is called. A use of the store has noted its time by then, and nothing else notes one. A drain
has emptied the store. And an entry comes in through a put alone, so a store that is empty stays so
until the next one.
-/

namespace TimedCache

variable {V : Type}

namespace Action

/-- The time at which the action puts an entry, looks a key up or removes one, if it does. -/
def usedAt? : Action V → Option WallTime
  | .put t .. | .get t _ | .uncache t _ => some t
  | _ => none

/-- The time of the latest use in a script; without any it is that of the use before. -/
def lastUse (used : WallTime) (script : List (Action V)) : WallTime :=
  script.foldl (fun used a => a.usedAt?.getD used) used

theorem lastUse_append (used : WallTime) (first second : List (Action V)) :
    lastUse used (first ++ second) = lastUse (lastUse used first) second := List.foldl_append ..

/-- Actions that are no use leave the time of the latest one. -/
theorem lastUse_of_unused {script : List (Action V)} (h : ∀ a ∈ script, a.usedAt? = none)
    (used : WallTime) : lastUse used script = used := by
  induction script with
  | nil => rfl
  | cons a rest ih =>
    obtain ⟨ha, hrest⟩ := List.forall_mem_cons.mp h
    rw [lastUse, List.foldl_cons, ha]
    exact ih hrest

/-- If all uses in a script happen now, the latest one does, or it is the one before. -/
theorem lastUse_eq_or {script : List (Action V)} {now : WallTime}
    (h : ∀ a ∈ script, a.usedAt? = none ∨ a.usedAt? = some now) (used : WallTime) :
    lastUse used script = used ∨ lastUse used script = now := by
  induction script generalizing used with
  | nil => exact .inl rfl
  | cons a rest ih =>
    obtain ⟨ha, hrest⟩ := List.forall_mem_cons.mp h
    change lastUse (a.usedAt?.getD used) rest = used ∨ lastUse (a.usedAt?.getD used) rest = now
    obtain hnone | hsome := ha
    · rw [hnone]
      exact ih hrest used
    · rw [hsome]
      exact .inr ((ih hrest now).elim id id)

end Action

namespace Store

section Touch

variable {α β : Type} {s : Store V}

/-- The operation leaves the noted time of the latest use. -/
def Untouched (s : Store V) (r : Op V α) : Prop := r.state.stats.lastTouch = s.stats.lastTouch

theorem Untouched.andThen {r : Op V α} {next : Store V → α → Op V β} (h : Untouched s r)
    (hnext : ∀ s' a, Untouched s' (next s' a)) : Untouched s (r.andThen next) := by
  rw [Ran.andThen]
  cases r.result with
  | ok a => exact (hnext _ a).trans h
  | error p => exact h

variable (s : Store V) (t : WallTime) (key : String) (e : Entry V) (inFlight : List (Holder V))

theorem announce_untouched (phase : Phase) : s.Untouched (s.announce t phase key e inFlight) := by
  obtain ⟨_, _, hstate, -⟩ := s.announce_told t phase key e inFlight
  rw [Untouched, hstate]

theorem discard_untouched : s.Untouched (s.discard t key e inFlight) :=
  (s.announce_untouched t key e _ _).andThen fun _ _ => rfl

theorem displace_untouched : s.Untouched (s.displace t key inFlight) := by
  rw [displace]
  cases s.find? key with
  | none => rfl
  | some e => exact (s.erase key).discard_untouched t key e inFlight

theorem admitEntry_untouched : s.Untouched (s.admitEntry t key e) :=
  ((s.append key e).announce_untouched t key e [] .cached).andThen fun _ _ => rfl

theorem noteAccess_untouched : s.Untouched (s.noteAccess t key e) := by
  cases e with
  | timed e => rfl
  | custom c =>
    obtain ⟨_, hstate⟩ := s.notify_state ⟨t, ⟨some c.id, .access, c.key⟩, .stamp t.stamp⟩
    rw [Untouched, noteAccess, hstate]

theorem expire_untouched : s.Untouched (s.expire t key e) :=
  (discard_untouched ((s.erase key).count Stats.recordExpiration) t key e []).andThen fun _ _ => rfl

theorem removeEach_untouched {adjust : Stats → Stats}
    (hadjust : ∀ st, (adjust st).lastTouch = st.lastTouch) (keys : List String) :
    s.Untouched (removeEach t adjust keys s) := by
  induction keys generalizing s with
  | nil => rfl
  | cons key rest ih =>
    rw [removeEach]
    cases s.find? key with
    | none => exact ih s
    | some e =>
      have hdiscard := ((s.erase key).count adjust).discard_untouched t key e []
      have hcounted : ((s.erase key).count adjust).stats.lastTouch = s.stats.lastTouch := hadjust _
      exact Untouched.andThen (hdiscard.trans hcounted) fun s _ => ih s

theorem removeAll_untouched {adjust : Stats → Stats}
    (hadjust : ∀ st, (adjust st).lastTouch = st.lastTouch) (keys : List String) :
    s.Untouched (s.removeAll t adjust keys) :=
  (s.removeEach_untouched t hadjust keys).andThen fun _ _ => rfl

theorem discardEach_untouched (gone : List (String × Entry V)) :
    s.Untouched (discardEach t gone s) := by
  induction gone generalizing s with
  | nil => rfl
  | cons p rest ih => exact (s.discard_untouched t p.1 p.2 _).andThen fun s _ => ih s

theorem drain_untouched : s.Untouched (s.drain t) :=
  (discardEach_untouched { s with entries := [] } t s.entries).andThen fun _ _ => rfl

/-- The noted time of the latest use is that of the action if it is a use, and stays otherwise. -/
theorem act_lastTouch (a : Action V) :
    (s.act a).stats.lastTouch = (a.usedAt?.map WallTime.stamp).getD s.stats.lastTouch := by
  cases a with
  | put t key e =>
    exact (displace_untouched (s.count (Stats.touch t.stamp)) t key e.holders).andThen
      fun s _ => s.admitEntry_untouched t key e
  | get t key =>
    rw [Store.act, get]
    dsimp only
    cases (s.count (Stats.touch t.stamp)).find? key with
    | none => rfl
    | some e =>
      dsimp only
      split
      · exact (noteAccess_untouched (s.count (Stats.touch t.stamp)) t key e).andThen fun _ _ => rfl
      · exact expire_untouched (s.count (Stats.touch t.stamp)) t key e
  | uncache t key => exact displace_untouched (s.count (Stats.touch t.stamp)) t key []
  | uncacheLike t pattern => exact s.removeAll_untouched t (fun _ => rfl) _
  | sweep t =>
    have hcounts (st : Stats) : (Stats.recordExpiration st).lastTouch = st.lastTouch := rfl
    exact s.removeAll_untouched t hcounts _
  | drain t => exact s.drain_untouched t
  | refer | revise | delegateTo | arm => rfl

/-- Actions that are no use leave the noted time of the latest one. -/
theorem follow_lastTouch_of_unused {script : List (Action V)} (h : ∀ a ∈ script, a.usedAt? = none) :
    (s.follow script).stats.lastTouch = s.stats.lastTouch := by
  induction script generalizing s with
  | nil => rfl
  | cons a rest ih =>
    obtain ⟨ha, hrest⟩ := List.forall_mem_cons.mp h
    have hkept : (s.act a).stats.lastTouch = s.stats.lastTouch := by
      rw [act_lastTouch, ha]
      rfl
    exact (ih _ hrest).trans hkept

/-- The noted time of the latest use is that of the latest one in the script that was followed. -/
theorem follow_lastTouch {used : WallTime} (h : s.stats.lastTouch = used.stamp)
    (script : List (Action V)) :
    (s.follow script).stats.lastTouch = (Action.lastUse used script).stamp := by
  induction script generalizing s used with
  | nil => exact h
  | cons a rest ih =>
    have hnoted : (s.act a).stats.lastTouch = (a.usedAt?.getD used).stamp := by
      rw [act_lastTouch, h]
      cases a.usedAt? <;> rfl
    exact ih _ hnoted

end Touch

/-- Telling of entries that have left leaves the others. -/
theorem discardEach_entries (t : WallTime) (gone : List (String × Entry V)) (s : Store V) :
    (discardEach t gone s).state.entries = s.entries := by
  induction gone generalizing s with
  | nil => rfl
  | cons p rest ih =>
    obtain ⟨_, _, _, hstate, -⟩ := s.discard_told t p.1 p.2 (rest.flatMap fun p => p.2.holders)
    rw [discardEach, Ran.andThen]
    cases (s.discard t p.1 p.2 (rest.flatMap fun p => p.2.holders)).result with
    | ok _ =>
      dsimp only
      rw [ih, hstate]
    | error p =>
      dsimp only
      rw [hstate]

/-- A drain leaves no entry, whether it returns or not. -/
theorem drain_entries (s : Store V) (t : WallTime) : (s.drain t).state.entries = [] := by
  have hgone : (discardEach t s.entries { s with entries := [] }).state.entries = [] :=
    discardEach_entries t s.entries { s with entries := [] }
  rw [drain, Ran.andThen]
  cases (discardEach t s.entries { s with entries := [] }).result <;> exact hgone

section Put

variable {s : Store V} {t : WallTime} {key : String} {e : Entry V}

/-- A put that returns leaves its entry under its key. -/
theorem find?_of_put (h : (s.put t key e).returned) : (s.put t key e).state.find? key = some e := by
  obtain ⟨_, hroom, hadmitted⟩ := Ran.returned_andThen_iff.mp h
  have hfree := displace_find? (s.count (Stats.touch t.stamp)) t key e.holders
  rw [put, Ran.andThen_of_ok hroom]
  generalize (displace (s.count (Stats.touch t.stamp)) t key e.holders).state = room at hfree hadmitted
  obtain ⟨_, htold, -⟩ := Ran.returned_andThen_iff.mp hadmitted
  obtain ⟨_, _, hstate, -⟩ := (room.append key e).announce_told t .cached key e []
  rw [admitEntry, Ran.andThen_of_ok htold, hstate]
  change (room.append key e).find? key = some e
  rw [find?_append, hfree, Option.none_or, if_pos rfl]

/-- Without alarms a put returns. -/
theorem put_returned_of_quiet (hs : s.alarms = []) : (s.put t key e).returned := by
  have hroom : ∃ room : Store V, room.alarms = []
      ∧ (s.count (Stats.touch t.stamp)).displace t key e.holders = .done room () := by
    rw [displace]
    cases (s.count (Stats.touch t.stamp)).find? key with
    | none => exact ⟨s.count (Stats.touch t.stamp), hs, rfl⟩
    | some previous =>
      let gone := (s.count (Stats.touch t.stamp)).erase key
      obtain ⟨log, hdone⟩ := discard_quiet t key previous e.holders (s := gone) hs
      exact ⟨{ gone with stats := gone.stats.observeSize gone.size, log }, hs, hdone⟩
  obtain ⟨room, hquiet, hdone⟩ := hroom
  obtain ⟨_, htold⟩ := announce_quiet t key e [] (s := room.append key e) hquiet .cached
  rw [put, hdone, Ran.done_andThen, admitEntry, htold]
  rfl

/-- A look-up that finds a usual entry which is live returns what its holder resolves to. -/
theorem get_result_of_timed {e : TimedEntry V} (hfind : s.find? key = some (.timed e))
    (hlive : (Entry.timed e).isLive (s.moment []) t.stamp) :
    (s.get t key).result = .ok (e.holder.resolve (s.moment [])) := by
  have hfound : (s.count (Stats.touch t.stamp)).find? key = some (.timed e) := hfind
  rw [get]
  simp only [hfound]
  change (if (Entry.timed e).isLive (s.moment []) t.stamp then _ else _ : Op V _).result = _
  rw [if_pos hlive]
  rfl

end Put

end Store

/-- An entry with a strong holder is live when it is made. -/
theorem Entry.isLive_create {m : Moment V} {now : Timestamp} (hnow : now < Word.bound) (key : String)
    (cell : Cell V) (ttl : Duration) (listener : Option Name) :
    (Entry.timed { TimedEntry.create now key (.strong cell) ttl with listener }).isLive m now := by
  have htime : TimedEntry.isTimeExpired { TimedEntry.create now key (.strong cell) ttl with listener } now
      = false := by
    rw [TimedEntry.isTimeExpired]
    cases hlimit : expiryOf now ttl with
    | none => simp [TimedEntry.create, hlimit]
    | some limit =>
      have hlater := le_of_expiryOf hnow hlimit
      simpa [TimedEntry.create, hlimit] using hlater
  rw [isLive, isExpired, htime]
  rfl

namespace Occasion

/-- A store that is empty stays so, unless something is put. -/
theorem entries_of_empty {o : Occasion V} (hempty : o.before.entries = [])
    (hstored : o.action.stored = []) : o.after.entries = [] := by
  by_cases hoperation : o.isOperation
  · have hnodup : o.before.keys.Nodup := by simp [Store.keys, hempty]
    refine List.eq_nil_iff_forall_not_mem.mpr fun p hp => ?_
    obtain ⟨e, he | he, -⟩ := o.continues hnodup hoperation p hp
    · obtain ⟨t, haction⟩ := action_of_mem_entered he
      rw [haction] at hstored
      cases hstored
    · rw [hempty] at he
      cases he
  · obtain ⟨s, a⟩ := o
    cases a with
    | revise later => exact congrArg (List.map _) hempty
    | refer | delegateTo | arm => exact hempty
    | put | get | uncache | uncacheLike | sweep | drain => exact absurd rfl hoperation

end Occasion

/-- A script that puts nothing leaves an empty store empty. -/
theorem Store.entries_of_follow {s : Store V} {script : List (Action V)} (hempty : s.entries = [])
    (hstored : ∀ a ∈ script, a.stored = []) : (s.follow script).entries = [] := by
  induction script generalizing s with
  | nil => exact hempty
  | cons a rest ih =>
    obtain ⟨ha, hrest⟩ := List.forall_mem_cons.mp hstored
    exact ih (Occasion.entries_of_empty (o := ⟨s, a⟩) hempty ha) hrest

end TimedCache
