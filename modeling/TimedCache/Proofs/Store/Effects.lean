import Mathlib.Data.List.Perm.Subperm
import TimedCache.Proofs.Store.Calm

/-!
# Effects of the operations

What each operation of a calm store returns, which entries it leaves and how it adjusts the
counters. Every operation returns; a look-up that finds an entry it cannot serve removes it, and
a sweep removes exactly the entries that are expired when it begins.
-/

namespace TimedCache.Store

open Stats

variable {V : Type} {s : Store V}

/-- Taking out an entry leaves no more of them. -/
theorem erase_entries_length_le (s : Store V) (key : String) :
    (s.erase key).entries.length ≤ s.size := List.length_filter_le _ _

/-- Taking out an entry keeps the keys distinct. -/
theorem Calm.erase_nodup (hs : s.Calm) (key : String) :
    ((s.erase key).entries.map Prod.fst).Nodup := nodup_keys_filter hs.nodup _

/-- An entry under a key that was freed keeps the keys distinct. -/
theorem Calm.append_nodup (hs : s.Calm) (key : String) (e : Entry V) :
    (((s.erase key).append key e).entries.map Prod.fst).Nodup := by
  have hfree : key ∉ (s.erase key).entries.map Prod.fst := by simp [erase]
  exact nodup_keys_concat (hs.erase_nodup key) hfree e

/-- Noting an access keeps the keys as they are. -/
theorem alter_keys (s : Store V) (key : String) (f : Entry V → Entry V) :
    (s.alter key f).entries.map Prod.fst = s.keys := by
  rw [alter, List.map_map]
  refine List.map_congr_left fun p _ => ?_
  by_cases hp : p.1 = key <;> simp [hp]

/-- Under a key that was taken out nothing is found. -/
theorem find?_erase (s : Store V) (key other : String) :
    (s.erase key).find? other = if other = key then none else s.find? other :=
  lookup_filter_ne s.entries key other

/-- An entry that was added is found under its key, unless one is there already. -/
theorem find?_append (s : Store V) (key other : String) (e : Entry V) :
    (s.append key e).find? other = (s.find? other).or (if other = key then some e else none) := by
  rw [find?, append, List.lookup_append, find?]
  by_cases hkey : other = key
  · simp [hkey]
  · have hbeq : (other == key) = false := beq_eq_false_iff_ne.mpr hkey
    simp [hkey, hbeq, List.lookup_cons]

/-- A change under a key is found there and nowhere else. -/
theorem find?_alter (s : Store V) (key other : String) (f : Entry V → Entry V) :
    (s.alter key f).find? other = if other = key then (s.find? other).map f else s.find? other :=
  lookup_alter s.entries key f other

/-- Taking out an entry that is there leaves fewer of them. -/
theorem erase_entries_length_lt {key : String} {e : Entry V} (h : s.find? key = some e) :
    (s.erase key).entries.length < s.size := by
  have hmem : (key, e) ∈ s.entries := mem_of_lookup h
  exact List.length_filter_lt_length_iff_exists.mpr ⟨(key, e), hmem, by simp⟩

/-- A key that is not found has no entry to take out. -/
theorem erase_entries_of_find?_eq_none {key : String} (h : s.find? key = none) :
    (s.erase key).entries = s.entries :=
  filter_ne_of_not_mem (lookup_eq_none_iff_not_mem.mp h)

/-- Taking out an entry leaves one less if it was there. -/
theorem Calm.erase_length (hs : s.Calm) (key : String) :
    (s.erase key).entries.length + (s.find? key).isSome.toNat = s.size := by
  cases hfind : s.find? key with
  | none => rw [erase_entries_of_find?_eq_none hfind]; rfl
  | some e => exact length_filter_ne hs.nodup (List.mem_map_of_mem (mem_of_lookup hfind))

/-- Making room under a key takes out what is there, if anything is. -/
theorem Calm.displace_eq (hs : s.Calm) (t : WallTime) (key : String) (incoming : List (Holder V)) :
    ∃ log, s.displace t key incoming = .done (s.turned (s.erase key).entries id log) () := by
  rw [displace]
  cases hfind : s.find? key with
  | none =>
    refine ⟨s.log, ?_⟩
    rw [erase_entries_of_find?_eq_none hfind, ← hs.count_eq sizeless_id]
    rfl
  | some e => exact hs.erase_discard t key e incoming id

/-- Putting an entry replaces what was under its key. -/
theorem Calm.put_eq (hs : s.Calm) (t : WallTime) (key : String) (e : Entry V) :
    ∃ log, s.put t key e = .done (s.turned ((s.erase key).append key e).entries
      (recordPut ∘ touch t.stamp) log) () := by
  have htouched : (s.count (touch t.stamp)).Calm := hs.count (sizeless_touch _)
  obtain ⟨log, hlog⟩ := htouched.displace_eq t key e.holders
  obtain ⟨log', hlog'⟩ := announce_quiet t key e []
    (s := ((s.count (touch t.stamp)).turned (s.erase key).entries id log).append key e)
    hs.quiet .cached
  refine ⟨log', ?_⟩
  rw [put, hlog, Ran.done_andThen, admitEntry]
  change ((((s.count (touch t.stamp)).turned (s.erase key).entries id log).append key e).announce
    t .cached key e []).andThen _ = _
  rw [hlog', Ran.done_andThen]
  have hbetween := hs.turned_turned (sizeless_touch t.stamp) sizeless_recordPut
    (erase_entries_length_le s key) log ((s.erase key).append key e).entries log'
  rw [← hbetween]
  rfl

/-- Removing a key takes out what is under it. -/
theorem Calm.uncache_eq (hs : s.Calm) (t : WallTime) (key : String) :
    ∃ log, s.uncache t key = .done (s.turned (s.erase key).entries (touch t.stamp) log) () := by
  obtain ⟨log, hlog⟩ := (hs.count (sizeless_touch t.stamp)).displace_eq t key []
  exact ⟨log, by rw [uncache, hlog]; rfl⟩

/-- A look-up under a free key only counts the miss. -/
theorem Calm.get_eq_of_absent (hs : s.Calm) (t : WallTime) {key : String}
    (hfind : s.find? key = none) :
    s.get t key = .done (s.turned s.entries (recordMiss ∘ touch t.stamp) s.log) none := by
  have hget : s.get t key = .done ((s.count (touch t.stamp)).count recordMiss) none := by
    rw [get]
    simp only [show (s.count (touch t.stamp)).find? key = none from hfind]
  rw [hget, hs.count_eq (sizeless_touch _), turned_count _ _ _ _ sizeless_recordMiss]

/-- A look-up that finds a dead entry takes it out, and counts an expiration and a miss. -/
theorem Calm.get_eq_of_dead (hs : s.Calm) (t : WallTime) {key : String} {e : Entry V}
    (hfind : s.find? key = some e) (hdead : e.isLive (s.moment []) t.stamp = false) :
    ∃ log, s.get t key = .done (s.turned (s.erase key).entries
      (recordMiss ∘ recordExpiration ∘ touch t.stamp) log) none := by
  have htouched : (s.count (touch t.stamp)).Calm := hs.count (sizeless_touch _)
  obtain ⟨log, hlog⟩ := htouched.erase_discard t key e [] recordExpiration
  have hget : s.get t key = (s.count (touch t.stamp)).expire t key e := by
    rw [get]
    simp only [show (s.count (touch t.stamp)).find? key = some e from hfind]
    exact if_neg (by simp [show e.isLive ((s.count (touch t.stamp)).moment []) t.stamp = false from hdead])
  refine ⟨log, ?_⟩
  rw [hget, expire, hlog, Ran.done_andThen, count_turned, turned_count _ _ _ _ sizeless_recordMiss]
  rfl

/-- The entry under a key is the only one there. -/
theorem Calm.eq_of_mem (hs : s.Calm) {p : String × Entry V} (hp : p ∈ s.entries) {e : Entry V}
    (hfind : s.find? p.1 = some e) : p.2 = e := by
  have hlookup : s.find? p.1 = some p.2 := (lookup_eq_some_iff_mem hs.nodup).mpr hp
  exact Option.some.inj (hlookup.symm.trans hfind)

/-- A custom entry does not note the time of a hit. -/
theorem Calm.alter_custom (hs : s.Calm) {key : String} {c : CustomEntry V}
    (hfind : s.find? key = some (.custom c)) (now : Timestamp) :
    (s.alter key (Entry.accessed now)).entries = s.entries := by
  have hsame : ∀ p ∈ s.entries, (if p.1 = key then (p.1, p.2.accessed now) else p) = id p := by
    intro p hp
    split
    · next hkey =>
      have he : p.2 = .custom c := hs.eq_of_mem hp (hkey ▸ hfind)
      rw [he, id_eq]
      exact Prod.ext rfl he.symm
    · rfl
  exact (List.map_congr_left hsame).trans (List.map_id _)

/-- A look-up that finds a live entry notes the time of the access, counts a hit and returns the
value. -/
theorem Calm.get_eq_of_live (hs : s.Calm) (t : WallTime) {key : String} {e : Entry V}
    (hfind : s.find? key = some e) (hlive : e.isLive (s.moment []) t.stamp = true) :
    ∃ log, s.get t key = .done (s.turned (s.alter key (Entry.accessed t.stamp)).entries
      (recordHit ∘ touch t.stamp) log) (e.cell (s.moment [])) := by
  have hget : s.get t key = ((s.count (touch t.stamp)).noteAccess t key e).andThen
      fun s' _ => .done (s'.count recordHit) (e.cell (s.moment [])) := by
    rw [get]
    simp only [show (s.count (touch t.stamp)).find? key = some e from hfind]
    exact if_pos hlive
  have hcount := hs.count_eq (sizeless_touch t.stamp)
  rw [hget, hcount]
  cases e with
  | timed entry =>
    refine ⟨s.log, ?_⟩
    have halter : (s.turned s.entries (touch t.stamp) s.log).alter key (Entry.accessed t.stamp)
        = s.turned (s.alter key (Entry.accessed t.stamp)).entries (touch t.stamp) s.log := by
      simp only [Store.turned, alter, List.length_map]
    rw [noteAccess, halter, Ran.done_andThen, turned_count _ _ _ _ sizeless_recordHit]
  | custom c =>
    rw [noteAccess, notify_quiet (by exact hs.quiet), Ran.done_andThen, hs.alter_custom hfind]
    exact ⟨_, congrArg (Ran.done · _) (turned_count s s.entries _ _ sizeless_recordHit)⟩

/-- A look-up in a calm store returns what is in the cell of a live entry, and nothing if there is
no live entry under the key. -/
theorem Calm.get_result (hs : s.Calm) (t : WallTime) (key : String) : (s.get t key).result
    = .ok (((s.find? key).filter (Entry.isLive (s.moment []) t.stamp)).bind
        (Entry.cell (s.moment []))) := by
  cases hfind : s.find? key with
  | none =>
    rw [hs.get_eq_of_absent t hfind]
    rfl
  | some x =>
    cases hlive : x.isLive (s.moment []) t.stamp with
    | true =>
      obtain ⟨log, h⟩ := hs.get_eq_of_live t hfind hlive
      rw [h, Option.filter_some_pos hlive]
      rfl
    | false =>
      obtain ⟨log, h⟩ := hs.get_eq_of_dead t hfind hlive
      rw [h, Option.filter_some_neg (by simp [hlive])]
      rfl

/-- Removing keys that are there takes out exactly their entries, and adjusts the counters once
for each. -/
theorem Calm.removeEach_eq {adjust : Stats → Stats} (hadjust : Sizeless adjust) (t : WallTime)
    {keys : List String} (hkeys : keys.Nodup) :
    ∀ {s : Store V}, s.Calm → (∀ key ∈ keys, key ∈ s.keys) →
      ∃ log, removeEach t adjust keys s = .done
        (s.turned (s.entries.filter fun p => !keys.contains p.1) adjust^[keys.length] log) () := by
  induction keys with
  | nil =>
    intro s hs _
    refine ⟨s.log, ?_⟩
    have hall : (s.entries.filter fun p => !([] : List String).contains p.1) = s.entries :=
      List.filter_eq_self.mpr fun _ _ => rfl
    rw [hall, List.length_nil, Function.iterate_zero, ← hs.count_eq sizeless_id]
    rfl
  | cons key rest ih =>
    intro s hs hmem
    obtain ⟨hfresh, hrest⟩ := List.nodup_cons.mp hkeys
    obtain ⟨e, hfind⟩ : ∃ e, s.find? key = some e := by
      cases h : s.find? key with
      | none => exact absurd (hmem key (List.mem_cons_self ..)) (lookup_eq_none_iff_not_mem.mp h)
      | some e => exact ⟨e, rfl⟩
    obtain ⟨log, hlog⟩ := hs.erase_discard t key e [] adjust
    have hcalm := hs.turned (hs.erase_nodup key) adjust log
    have hthere : ∀ other ∈ rest, other ∈ (s.turned (s.erase key).entries adjust log).keys := by
      intro other hother
      obtain ⟨p, hp, rfl⟩ := List.mem_map.mp (hmem other (List.mem_cons_of_mem _ hother))
      have hne : p.1 ≠ key := fun he => hfresh (he ▸ hother)
      exact List.mem_map_of_mem (List.mem_filter.mpr ⟨hp, bne_iff_ne.mpr hne⟩)
    obtain ⟨log', hlog'⟩ := ih hrest hcalm hthere
    refine ⟨log', ?_⟩
    rw [removeEach]
    simp only [hfind]
    rw [hlog, Ran.done_andThen, hlog', hs.turned_turned hadjust (hadjust.iterate _)
      (erase_entries_length_le s key), ← Function.iterate_succ, List.length_cons]
    have hfilter : ((s.erase key).entries.filter fun p => !rest.contains p.1)
        = s.entries.filter fun p => !(key :: rest).contains p.1 := by
      rw [erase, List.filter_filter]
      refine List.filter_congr fun p _ => ?_
      by_cases hp : p.1 = key <;> simp [hp]
    rw [turned_entries, hfilter]

/-- Removing a selection of the entries leaves the others. -/
theorem Calm.removeAll_eq (hs : s.Calm) {adjust : Stats → Stats} (hadjust : Sizeless adjust)
    (t : WallTime) (select : String × Entry V → Bool) :
    ∃ log, s.removeAll t adjust ((s.entries.filter select).map Prod.fst) = .done
      (s.turned (s.entries.filter fun p => !select p) adjust^[(s.entries.filter select).length] log)
      (s.entries.filter select).length := by
  have hkeys : ((s.entries.filter select).map Prod.fst).Nodup := nodup_keys_filter hs.nodup select
  have hmem : ∀ key ∈ (s.entries.filter select).map Prod.fst, key ∈ s.keys := by
    intro key hkey
    exact (List.filter_sublist.map Prod.fst).subset hkey
  obtain ⟨log, hlog⟩ := removeEach_eq hadjust t hkeys hs hmem
  -- a key is selected through its only entry
  have hfilter : (s.entries.filter fun p => !((s.entries.filter select).map Prod.fst).contains p.1)
      = s.entries.filter fun p => !select p := by
    refine List.filter_congr fun p hp => congrArg not (Bool.eq_iff_iff.mpr ?_)
    rw [List.contains_iff_mem, List.mem_map]
    constructor
    · rintro ⟨q, hq, he⟩
      obtain ⟨hq, hselect⟩ := List.mem_filter.mp hq
      have hfind : s.find? q.1 = some p.2 := he ▸ (lookup_eq_some_iff_mem hs.nodup).mpr hp
      have hpq : q = p := Prod.ext he (hs.eq_of_mem hq hfind)
      exact hpq ▸ hselect
    · exact fun hselect => ⟨p, List.mem_filter.mpr ⟨hp, hselect⟩, rfl⟩
  have hcalm := hs.turned (nodup_keys_filter hs.nodup fun p => !select p)
    adjust^[(s.entries.filter select).length] log
  refine ⟨log, ?_⟩
  rw [removeAll, hlog, Ran.done_andThen, hfilter, List.length_map]
  exact congrArg (Ran.done · _) hcalm.observe_eq

/-- A prefix removal leaves exactly the entries under other keys. -/
theorem Calm.uncacheLike_eq (hs : s.Calm) (t : WallTime) (pattern : String) :
    ∃ log, s.uncacheLike t pattern = .done
      (s.turned (s.entries.filter fun p => !startsWith pattern p.1) id log)
      (s.keysLike pattern).length := by
  have hkeys : s.keysLike pattern
      = (s.entries.filter fun p => startsWith pattern p.1).map Prod.fst := List.filter_map
  obtain ⟨log, hlog⟩ := hs.removeAll_eq sizeless_id t fun p => startsWith pattern p.1
  rw [Function.iterate_id] at hlog
  exact ⟨log, by rw [uncacheLike, hkeys, hlog, List.length_map]⟩

/-- A sweep leaves exactly the entries that are not expired, and counts the others. -/
theorem Calm.sweep_eq (hs : s.Calm) (t : WallTime) :
    ∃ log, s.sweep t = .done
      (s.turned (s.entries.filter fun p => !p.2.isExpired (s.moment []) t.stamp)
        recordExpiration^[(s.expiredKeys t.stamp).length] log)
      (s.expiredKeys t.stamp).length := by
  obtain ⟨log, hlog⟩ :=
    hs.removeAll_eq sizeless_recordExpiration t fun p => p.2.isExpired (s.moment []) t.stamp
  exact ⟨log, by rw [sweep, expiredKeys, hlog, List.length_map]⟩

/-- What a sweep removes and what it leaves make up the store. -/
theorem length_expiredKeys_add (s : Store V) (now : Timestamp) : (s.expiredKeys now).length
    + (s.entries.filter fun p => !p.2.isExpired (s.moment []) now).length = s.size := by
  have hsplit := List.length_eq_countP_add_countP
    (fun p : String × Entry V => p.2.isExpired (s.moment []) now) (l := s.entries)
  rw [expiredKeys, List.length_map, ← List.countP_eq_length_filter, ← List.countP_eq_length_filter,
    size, hsplit]
  simp

/-- Without alarms all hooks return for entries that have left the store. -/
theorem discardEach_quiet (t : WallTime) (gone : List (String × Entry V)) :
    ∀ {s : Store V}, s.alarms = [] → s.entries = [] → ∃ log stats, discardEach t gone s
      = .done { s with stats, log } () ∧ stats.observeSize 0 = s.stats.observeSize 0 := by
  induction gone with
  | nil => exact fun _ _ => ⟨_, _, rfl, rfl⟩
  | cons p rest ih =>
    intro s hquiet hempty
    obtain ⟨log, hlog⟩ := discard_quiet t p.1 p.2 (rest.flatMap fun q => q.2.holders) hquiet
    obtain ⟨log', stats, hrest, hstats⟩ :=
      ih (s := { s with stats := s.stats.observeSize s.size, log }) hquiet hempty
    refine ⟨log', stats, ?_, ?_⟩
    · rw [discardEach, hlog, Ran.done_andThen, hrest]
    · have hsize : s.size = 0 := by rw [size, hempty, List.length_nil]
      rw [hstats, hsize, observeSize_observeSize (Nat.zero_le _)]

/-- Draining leaves nothing, and counts nothing but the size. -/
theorem Calm.drain_eq (hs : s.Calm) (t : WallTime) :
    ∃ log, s.drain t = .done (s.turned [] id log) s.size := by
  obtain ⟨log, stats, hgone, hstats⟩ :=
    discardEach_quiet t s.entries (s := { s with entries := [] }) hs.quiet rfl
  refine ⟨log, ?_⟩
  rw [drain, hgone, Ran.done_andThen]
  simp only [Store.count, hstats, Store.turned, id_eq, List.length_nil]

end TimedCache.Store
