import TimedCache.Proofs.Counters
import TimedCache.Proofs.Moments
import TimedCache.Proofs.Store.Ledger

/-!
# Removals that hooks interrupt

A sweep and a removal by prefix take their entries out one at a time, and tell each before they take the
next. A hook that panics ends them in between: what has left was told so, counted and will not come back,
and the rest is as it was. The panic costs an alarm, so whoever repeats the removal comes to its end after
as many panics as there were alarms. On the way an expired entry stays expired, as what left before it
owns no value any more.
-/

namespace TimedCache

variable {V : Type}

/-- An alarm that goes off waited for the phase of the call, and is the only one that is gone then. -/
theorem Alarm.countP_of_trip? {K : Type} [DecidableEq K] {c : Call K} {alarms rest : List (Alarm K)}
    (h : trip? c alarms = some rest) : (rest.countP fun a => a.phase == c.phase) + 1
      = alarms.countP fun a => a.phase == c.phase := by
  induction alarms generalizing rest with
  | nil => cases h
  | cons a others ih =>
    rw [trip?] at h
    split at h
    · next hmatches =>
      have hphase : a.phase = c.phase := by
        simp only [Alarm.matches, Bool.and_eq_true, beq_iff_eq] at hmatches
        exact hmatches.1.2.symm
      rw [← Option.some.inj h, List.countP_cons_of_pos (by simpa using hphase)]
    · obtain ⟨fewer, hfewer, rfl⟩ := Option.map_eq_some_iff.mp h
      have hlater := ih hfewer
      rw [List.countP_cons, List.countP_cons]
      omega

namespace Store

open Event

/-- How many alarms wait for hooks of entries that leave. -/
def armed (s : Store V) : Nat := s.alarms.countP fun a => a.phase == .uncached

/-- An operation costs one of these alarms if it panics, and none if it returns. -/
def Spends {α : Type} (s : Store V) (r : Op V α) : Prop := r.state.armed + (!r.returned).toNat = s.armed

section Spends

variable {s : Store V} {α β : Type}

theorem Spends.andThen {r : Op V α} {next : Store V → α → Op V β} (h : s.Spends r)
    (hnext : ∀ s a, Spends s (next s a)) : s.Spends (r.andThen next) := by
  cases hresult : r.result with
  | error p =>
    rw [Ran.andThen_of_error hresult]
    rw [Spends, Ran.returned_of_error hresult] at h
    exact h
  | ok a =>
    rw [Ran.andThen_of_ok hresult]
    rw [Spends, Ran.returned_of_ok hresult] at h
    exact (hnext r.state a).trans h

theorem notify_spends {x : Event V} (hphase : x.call.phase = .uncached) : s.Spends (s.notify x) := by
  rw [notify]
  dsimp only
  cases htrip : Alarm.trip? x.call s.alarms with
  | none => rfl
  | some rest =>
    have hcount := Alarm.countP_of_trip? htrip
    rw [hphase] at hcount
    exact hcount

variable (t : WallTime) (key : String) (e : Entry V)

theorem discard_spends (inFlight : List (Holder V)) : s.Spends (s.discard t key e inFlight) := by
  have htold : s.Spends (s.announce t .uncached key e (e.holders ++ inFlight)) :=
    (notify_spends rfl).andThen fun s _ => notify_spends rfl
  exact htold.andThen fun _ _ => rfl

theorem removeEach_spends (adjust : Stats → Stats) (keys : List String) :
    s.Spends (removeEach t adjust keys s) := by
  induction keys generalizing s with
  | nil => rfl
  | cons key rest ih =>
    rw [removeEach]
    cases s.find? key with
    | none => exact ih
    | some e =>
      have hfirst : s.Spends (((s.erase key).count adjust).discard t key e []) :=
        discard_spends (s := (s.erase key).count adjust) t key e []
      exact hfirst.andThen fun s _ => ih

theorem removeAll_spends (adjust : Stats → Stats) (keys : List String) :
    s.Spends (s.removeAll t adjust keys) :=
  (removeEach_spends t adjust keys).andThen fun _ _ => rfl

end Spends

/-- Some entries have left, and nothing else has: each was told so once, and no other entry was told
anything. So many expirations were counted for each, and nothing was counted as a use. -/
structure Shed (counted : Nat) (removed : List (String × Entry V)) (s s' : Store V) : Prop where
  entries : (removed ++ s'.entries).Perm s.entries
  told : ∀ p ∈ removed, entryCalls p.1 s'.log = entryCalls p.1 s.log ++ [⟨p.2.listener, .uncached, p.1⟩]
  silent : ∀ key ∉ removed.map Prod.fst, entryCalls key s'.log = entryCalls key s.log
  uses : Stats.SameUse s'.stats s.stats
  expirations : ∀ n, s.stats.expirations = Word.wrap n →
    s'.stats.expirations = Word.wrap (n + counted * removed.length)
  owners : s'.owners = s.owners

namespace Shed

variable {s s' s'' : Store V} {counted : Nat} {removed removed' : List (String × Entry V)}

/-- Nothing has left a store whose entries are walked in another order. -/
theorem walked {entries : List (String × Entry V)} (h : entries.Perm s.entries) :
    Shed counted [] s { s with entries } where
  entries := h
  told := List.forall_mem_nil _
  silent _ _ := rfl
  uses := ⟨rfl, rfl, rfl, rfl⟩
  expirations _ hn := hn
  owners := rfl

/-- What has left or is still there was there before. -/
theorem mem_iff (h : Shed counted removed s s') {p : String × Entry V} :
    p ∈ s.entries ↔ p ∈ removed ∨ p ∈ s'.entries := by
  rw [← h.entries.mem_iff, List.mem_append]

/-- The keys of what has left and of what is still there are distinct. -/
theorem nodup_keys (h : Shed counted removed s s') (hnodup : s.keys.Nodup) :
    (removed.map Prod.fst ++ s'.keys).Nodup := by
  have hkeys : (removed.map Prod.fst ++ s'.keys).Perm s.keys := by
    rw [keys, keys, ← List.map_append]
    exact h.entries.map Prod.fst
  exact hkeys.nodup_iff.mpr hnodup

theorem nodup (h : Shed counted removed s s') (hnodup : s.keys.Nodup) : s'.keys.Nodup :=
  (List.nodup_append.mp (h.nodup_keys hnodup)).2.1

/-- Nothing is found any more under the key of what has left. -/
theorem find?_eq_none (h : Shed counted removed s s') (hnodup : s.keys.Nodup) {p : String × Entry V}
    (hp : p ∈ removed) : s'.find? p.1 = none :=
  lookup_eq_none_iff_not_mem.mpr fun hkey =>
    (List.nodup_append.mp (h.nodup_keys hnodup)).2.2 p.1 (List.mem_map_of_mem hp) p.1 hkey rfl

/-- What leaves later has another key than what has left. -/
theorem key_ne (h : Shed counted removed s s') (h' : Shed counted removed' s' s'') (hnodup : s.keys.Nodup)
    {p q : String × Entry V} (hp : p ∈ removed) (hq : q ∈ removed') : p.1 ≠ q.1 := by
  intro hsame
  have hthere : p.1 ∈ s'.keys := hsame ▸ List.mem_map_of_mem (h'.mem_iff.mpr (.inl hq))
  exact lookup_eq_none_iff_not_mem.mp (h.find?_eq_none hnodup hp) hthere

/-- Some entries leave, and then others. -/
theorem trans (h : Shed counted removed s s') (h' : Shed counted removed' s' s'') (hnodup : s.keys.Nodup) :
    Shed counted (removed ++ removed') s s'' where
  entries := by
    rw [List.append_assoc]
    exact (h'.entries.append_left removed).trans h.entries
  told := by
    intro p hp
    rcases List.mem_append.mp hp with hp | hp
    · have hfirst : p.1 ∉ removed'.map Prod.fst := fun hkey => by
        obtain ⟨q, hq, hsame⟩ := List.mem_map.mp hkey
        exact h.key_ne h' hnodup hp hq hsame.symm
      rw [h'.silent p.1 hfirst, h.told p hp]
    · have hlater : p.1 ∉ removed.map Prod.fst := fun hkey => by
        obtain ⟨q, hq, hsame⟩ := List.mem_map.mp hkey
        exact h.key_ne h' hnodup hq hp hsame
      rw [h'.told p hp, h.silent p.1 hlater]
  silent := by
    intro key hkey
    rw [List.map_append, List.mem_append, not_or] at hkey
    rw [h'.silent key hkey.2, h.silent key hkey.1]
  uses := h'.uses.trans h.uses
  expirations := by
    intro n hn
    rw [List.length_append, Nat.mul_add, ← Nat.add_assoc]
    exact h'.expirations _ (h.expirations n hn)
  owners := h'.owners.trans h.owners

/-- Noting the size changes nothing of this. -/
theorem observe (h : Shed counted removed s s') : Shed counted removed s s'.observe :=
  ⟨h.entries, h.told, h.silent, ⟨h.uses.puts, h.uses.hits, h.uses.misses, h.uses.lastTouch⟩, h.expirations,
    h.owners⟩

/-- Fewer references are left. -/
theorem within (h : Shed counted removed s s') : (s'.moment []).Within (s.moment []) := by
  refine ⟨congrArg Owners.slots h.owners, ?_⟩
  rw [moment, moment, List.append_nil, List.append_nil, h.owners]
  refine List.append_subset.mpr ⟨List.subset_append_left _ _, ?_⟩
  intro holder hheld
  obtain ⟨p, hp, hholder⟩ := List.mem_flatMap.mp hheld
  exact List.mem_append_right _ (List.mem_flatMap.mpr ⟨p, h.mem_iff.mpr (.inr hp), hholder⟩)

end Shed

section Removals

variable {s : Store V} {t : WallTime} {adjust : Stats → Stats} {counted : Nat}

/-- Telling of an entry that has left counts nothing but the size. -/
theorem discard_uses (s : Store V) (t : WallTime) (key : String) (e : Entry V) (inFlight : List (Holder V)) :
    Stats.SameUse (s.discard t key e inFlight).state.stats s.stats
      ∧ (s.discard t key e inFlight).state.stats.expirations = s.stats.expirations := by
  obtain ⟨told, alarms, hstate, -⟩ := s.announce_told t .uncached key e (e.holders ++ inFlight)
  rw [discard]
  cases hresult : (s.announce t .uncached key e (e.holders ++ inFlight)).result with
  | error p =>
    rw [Ran.andThen_of_error hresult, hstate]
    exact ⟨⟨rfl, rfl, rfl, rfl⟩, rfl⟩
  | ok a =>
    rw [Ran.andThen_of_ok hresult, hstate]
    exact ⟨⟨rfl, rfl, rfl, rfl⟩, rfl⟩

/-- Whether the hooks of an entry on its way out panic or not, that entry has left and no other. -/
theorem discard_sheds (hnodup : s.keys.Nodup) (huses : ∀ st, Stats.SameUse (adjust st) st)
    (hcounts : Stats.Adds Stats.expirations counted adjust) (t : WallTime) {p : String × Entry V}
    (hp : p ∈ s.entries) :
    Shed counted [p] s (((s.erase p.1).count adjust).discard t p.1 p.2 []).state := by
  obtain ⟨told, stats, alarms, hstate, htold⟩ := ((s.erase p.1).count adjust).discard_told t p.1 p.2 []
  obtain ⟨hsame, hexpirations⟩ := ((s.erase p.1).count adjust).discard_uses t p.1 p.2 []
  rw [hstate] at hsame hexpirations ⊢
  refine ⟨cons_filter_ne_perm hnodup hp, ?_, ?_, hsame.trans (huses s.stats), ?_, rfl⟩
  · refine List.forall_mem_singleton.mpr ?_
    rw [entryCalls_append, htold.entryCalls, if_pos rfl]
    rfl
  · intro key hkey
    have hother : p.1 ≠ key := fun hsame => hkey (List.mem_singleton.mpr hsame.symm)
    rw [entryCalls_append, htold.entryCalls, if_neg hother, List.append_nil]
    rfl
  · intro n hn
    rw [hexpirations, List.length_singleton, Nat.mul_one]
    exact hcounts s.stats n hn

/-- Entries leave in the order in which they are to be removed, up to the first one whose hooks panic. -/
theorem removeEach_sheds (huses : ∀ st, Stats.SameUse (adjust st) st)
    (hcounts : Stats.Adds Stats.expirations counted adjust) {targets : List (String × Entry V)}
    (hnodup : s.keys.Nodup) (hdistinct : (targets.map Prod.fst).Nodup) (hmem : ∀ p ∈ targets, p ∈ s.entries) :
    ∃ removed left, removed ++ left = targets
      ∧ Shed counted removed s (removeEach t adjust (targets.map Prod.fst) s).state
      ∧ ((removeEach t adjust (targets.map Prod.fst) s).returned → left = [])
      ∧ ((removeEach t adjust (targets.map Prod.fst) s).returned = false → removed ≠ []) := by
  induction targets generalizing s with
  | nil => exact ⟨[], [], rfl, .walked (.refl _), fun _ => rfl, fun h => by cases h⟩
  | cons p rest ih =>
    obtain ⟨hp, hothers⟩ := List.forall_mem_cons.mp hmem
    obtain ⟨hfresh, hrest⟩ := List.nodup_cons.mp hdistinct
    have hfind : s.find? p.1 = some p.2 := (lookup_eq_some_iff_mem hnodup).mpr hp
    have hfirst := discard_sheds hnodup huses hcounts t hp
    rw [List.map_cons, removeEach, hfind]
    dsimp only
    cases hresult : (((s.erase p.1).count adjust).discard t p.1 p.2 []).result with
    | error panic =>
      rw [Ran.andThen_of_error hresult]
      exact ⟨[p], rest, rfl, hfirst, fun h => (by cases h), fun _ => List.cons_ne_nil _ _⟩
    | ok a =>
      rw [Ran.andThen_of_ok hresult]
      generalize (((s.erase p.1).count adjust).discard t p.1 p.2 []).state = next at hfirst
      have hstill : ∀ q ∈ rest, q ∈ next.entries := by
        intro q hq
        refine (hfirst.mem_iff.mp (hothers q hq)).resolve_left fun hsame => hfresh ?_
        exact List.mem_singleton.mp hsame ▸ List.mem_map_of_mem hq
      obtain ⟨removed, left, hsplit, hlater, hwhole, -⟩ := ih (hfirst.nodup hnodup) hrest hstill
      exact ⟨p :: removed, left, congrArg (p :: ·) hsplit, hfirst.trans hlater hnodup, hwhole,
        fun _ => List.cons_ne_nil _ _⟩

/-- The same, with the size noted if no hook panics. -/
theorem removeAll_sheds (huses : ∀ st, Stats.SameUse (adjust st) st)
    (hcounts : Stats.Adds Stats.expirations counted adjust) {targets : List (String × Entry V)}
    (hnodup : s.keys.Nodup) (hdistinct : (targets.map Prod.fst).Nodup) (hmem : ∀ p ∈ targets, p ∈ s.entries) :
    ∃ removed left, removed ++ left = targets
      ∧ Shed counted removed s (s.removeAll t adjust (targets.map Prod.fst)).state
      ∧ ((s.removeAll t adjust (targets.map Prod.fst)).returned → left = [])
      ∧ ((s.removeAll t adjust (targets.map Prod.fst)).returned = false → removed ≠ []) := by
  obtain ⟨removed, left, hsplit, hshed, hwhole, hsome⟩ :=
    removeEach_sheds huses hcounts (t := t) hnodup hdistinct hmem
  refine ⟨removed, left, hsplit, ?_⟩
  rw [removeAll]
  cases hresult : (removeEach t adjust (targets.map Prod.fst) s).result with
  | error panic =>
    rw [Ran.andThen_of_error hresult]
    exact ⟨hshed, fun h => (by cases h), fun _ => hsome (Ran.returned_of_error hresult)⟩
  | ok a =>
    rw [Ran.andThen_of_ok hresult]
    exact ⟨hshed.observe, fun _ => hwhole (Ran.returned_of_ok hresult), fun h => by cases h⟩

end Removals

end Store

open Store

/-- A removal of many entries at once. -/
inductive BulkRemoval where
  /-- A sweep. -/
  | expired
  /-- A removal by prefix. -/
  | like (pattern : String)
deriving DecidableEq, Repr

namespace BulkRemoval

variable (b : BulkRemoval) {s s' : Store V} {t : WallTime}

/-- The operation of the store. -/
def perform (s : Store V) (t : WallTime) : Op V Nat :=
  match b with
  | .expired => s.sweep t
  | .like pattern => s.uncacheLike t pattern

/-- The entry is to be removed. -/
def selects (s : Store V) (t : WallTime) (p : String × Entry V) : Bool :=
  match b with
  | .expired => p.2.isExpired (s.moment []) t.stamp
  | .like pattern => startsWith pattern p.1

/-- How an entry that is removed is counted. -/
def adjust : Stats → Stats :=
  match b with
  | .expired => Stats.recordExpiration
  | .like _ => id

/-- The expirations that each removed entry is counted as. -/
def counted : Nat :=
  match b with
  | .expired => 1
  | .like _ => 0

theorem perform_eq (s : Store V) (t : WallTime) :
    b.perform s t = s.removeAll t b.adjust ((s.entries.filter (b.selects s t)).map Prod.fst) := by
  cases b with
  | expired => rfl
  | like pattern => exact congrArg (s.removeAll t id) List.filter_map

theorem adjust_sameUse (st : Stats) : Stats.SameUse (b.adjust st) st := by
  cases b <;> exact ⟨rfl, rfl, rfl, rfl⟩

theorem adjust_expirations : Stats.Adds Stats.expirations b.counted b.adjust := by
  cases b with
  | expired => exact .one fun _ => rfl
  | like pattern => exact .zero fun _ => rfl

/-- What is to be removed is still to be removed after other entries have left. -/
theorem selects_of_shed {counted : Nat} {removed : List (String × Entry V)} (h : Shed counted removed s s')
    {p : String × Entry V} (hp : b.selects s t p) : b.selects s' t p := by
  cases b with
  | expired =>
    exact Entry.isExpired_mono (Nat.le_refl _) (fun _ _ => Holder.isReclaimed_anti h.within) hp
  | like pattern => exact hp

/-- A call, in whatever order it comes to the entries, removes some of those that are to be removed: all of
them if it returns, and one at least if a hook panics. -/
theorem perform_sheds (hnodup : s.keys.Nodup) {entries : List (String × Entry V)}
    (hentries : entries.Perm s.entries) : ∃ removed,
      Shed b.counted removed s (b.perform { s with entries } t).state
      ∧ (∀ p ∈ removed, b.selects s t p)
      ∧ ((b.perform { s with entries } t).returned → ∀ p ∈ s.entries, b.selects s t p → p ∈ removed)
      ∧ ((b.perform { s with entries } t).returned = false → removed ≠ []) := by
  have hwalked : Shed b.counted [] s { s with entries } := .walked hentries
  have hback : Shed b.counted [] { s with entries } s := .walked hentries.symm
  obtain ⟨removed, left, hsplit, hshed, hwhole, hsome⟩ :=
    removeAll_sheds (t := t) b.adjust_sameUse b.adjust_expirations (hwalked.nodup hnodup)
      (nodup_keys_filter (hwalked.nodup hnodup) (b.selects { s with entries } t))
      fun p hp => (List.mem_filter.mp hp).1
  rw [← perform_eq] at hshed hwhole hsome
  refine ⟨removed, hwalked.trans hshed hnodup, fun p hp => ?_, fun hreturned p hp hselected => ?_, hsome⟩
  · have htarget := hsplit ▸ List.mem_append_left left hp
    exact b.selects_of_shed hback (List.mem_filter.mp htarget).2
  · rw [hwhole hreturned, List.append_nil] at hsplit
    rw [hsplit]
    exact List.mem_filter.mpr ⟨hentries.mem_iff.mpr hp, b.selects_of_shed hwalked hselected⟩

/-- A call in which a hook panics leaves one alarm less. -/
theorem armed_of_panicked {entries : List (String × Entry V)}
    (h : (b.perform { s with entries } t).returned = false) :
    (b.perform { s with entries } t).state.armed + 1 = s.armed := by
  have hspends : Spends { s with entries } (b.perform { s with entries } t) := by
    rw [perform_eq]
    exact removeAll_spends t _ _
  rw [Spends, h] at hspends
  exact hspends

/-- Calls the operation again at the same clock reading while a hook panics, so many times more at most.
Each call comes to the entries in an order of its own. -/
def persist (t : WallTime) (order : Nat → List (String × Entry V) → List (String × Entry V)) :
    Nat → Store V → Op V Nat
  | 0, s => b.perform { s with entries := order 0 s.entries } t
  | more + 1, s =>
    let ran := b.perform { s with entries := order (more + 1) s.entries } t
    if ran.returned then ran else persist t order more ran.state

variable {order : Nat → List (String × Entry V) → List (String × Entry V)}

/-- One call more than there are alarms for hooks of entries that leave is enough. -/
theorem persist_sheds (horder : ∀ k entries, (order k entries).Perm entries) {more : Nat}
    (hnodup : s.keys.Nodup) (harmed : s.armed ≤ more) : (b.persist t order more s).returned
      ∧ ∃ removed, Shed b.counted removed s (b.persist t order more s).state
        ∧ ∀ p ∈ s.entries, b.selects s t p → p ∈ removed := by
  induction more generalizing s with
  | zero =>
    obtain ⟨removed, hshed, -, hwhole, -⟩ := b.perform_sheds (t := t) hnodup (horder 0 s.entries)
    rw [persist]
    cases hreturned : (b.perform { s with entries := order 0 s.entries } t).returned with
    | true => exact ⟨rfl, removed, hshed, hwhole hreturned⟩
    | false =>
      have hspent := b.armed_of_panicked hreturned
      omega
  | succ more ih =>
    obtain ⟨removed, hshed, -, hwhole, -⟩ := b.perform_sheds (t := t) hnodup (horder (more + 1) s.entries)
    rw [persist]
    cases hreturned : (b.perform { s with entries := order (more + 1) s.entries } t).returned with
    | true =>
      rw [if_pos rfl]
      exact ⟨hreturned, removed, hshed, hwhole hreturned⟩
    | false =>
      -- what the call leaves of the entries to be removed is removed by the calls after it
      have hspent := b.armed_of_panicked hreturned
      rw [if_neg Bool.false_ne_true]
      obtain ⟨hlast, later, hlater, hrest⟩ := ih (hshed.nodup hnodup) (by omega)
      refine ⟨hlast, removed ++ later, hshed.trans hlater hnodup, fun p hp hselected => ?_⟩
      rcases hshed.mem_iff.mp hp with hgone | hleft
      · exact List.mem_append_left _ hgone
      · exact List.mem_append_right _ (hrest p hleft (b.selects_of_shed hshed hselected))

/-- In any state of a store, whatever alarms are set and in whatever order the entries are walked: a sweep or
a removal by prefix in which a hook panics has removed some of the entries that it was to remove, one at
least, and these are exactly the ones that were told so; all others are there, nothing is counted as a use,
and of the removed ones each counts as an expiration if it was a sweep, and none otherwise. If the call is
repeated at the same clock reading, it returns after as many panics at most as there are alarms for hooks of
entries that leave. Then every entry that was to be removed at the beginning is gone, and none that is gone
was told so more than once. -/
theorem interrupted_removals_resume (t : WallTime) (hnodup : s.keys.Nodup)
    (horder : ∀ k entries, (order k entries).Perm entries) :
    (∀ entries : List (String × Entry V), entries.Perm s.entries →
      let ran := b.perform { s with entries } t
      ran.returned = false → ∃ removed, removed ≠ [] ∧ (∀ p ∈ removed, b.selects s t p)
        ∧ Shed b.counted removed s ran.state)
    ∧ let last := b.persist t order s.armed s
      last.returned ∧ ∃ removed, Shed b.counted removed s last.state
        ∧ ∀ p ∈ s.entries, b.selects s t p → p ∈ removed ∧ last.state.find? p.1 = none := by
  constructor
  · intro entries hentries ran hpanicked
    obtain ⟨removed, hshed, hselected, -, hsome⟩ := b.perform_sheds (t := t) hnodup hentries
    exact ⟨removed, hsome hpanicked, hselected, hshed⟩
  · intro last
    obtain ⟨hreturned, removed, hshed, hwhole⟩ :=
      b.persist_sheds (t := t) horder hnodup (Nat.le_refl s.armed)
    refine ⟨hreturned, removed, hshed, fun p hp hselected => ?_⟩
    have hgone := hwhole p hp hselected
    exact ⟨hgone, hshed.find?_eq_none hnodup hgone⟩

/-- Two entries whose time is over after a second, with alarms for the hook of one and for the delegate. -/
def alarmedStore : Store Nat where
  entries := [("a", .timed { TimedEntry.create 0 "a" (.strong ⟨0, 7⟩) ⟨1, 0⟩ with listener := some "L" }),
    ("b", .timed (TimedEntry.create 0 "b" (.strong ⟨1, 8⟩) ⟨1, 0⟩))]
  delegate := some "D"
  alarms := [⟨"D", .uncached, none⟩, ⟨"L", .uncached, some "a"⟩]

/-- Two sweeps in a row panic, whichever entry is walked first, and the third one returns. -/
theorem interrupted_removals_resume_twice :
    alarmedStore.keys.Nodup ∧ (∀ (_ : Nat) (entries : List (String × Entry Nat)), entries.reverse.Perm entries)
      ∧ (alarmedStore.sweep 2000).returned = false ∧ alarmedStore.armed = 2
      ∧ (expired.persist 2000 (fun _ => List.reverse) 1 alarmedStore).returned = false
      ∧ (expired.persist 2000 (fun _ => List.reverse) 2 alarmedStore).returned
      ∧ (expired.persist 2000 (fun _ => List.reverse) 2 alarmedStore).state.find? "a" = none := by
  have hnodup : alarmedStore.keys.Nodup := by decide
  have horder : ∀ (_ : Nat) (entries : List (String × Entry Nat)), entries.reverse.Perm entries :=
    fun _ entries => entries.reverse_perm
  have hpanicked : (alarmedStore.sweep 2000).returned = false := by decide
  obtain ⟨-, hreturned, removed, -, hgone⟩ := interrupted_removals_resume expired 2000 hnodup horder
  refine ⟨hnodup, horder, hpanicked, rfl, by decide, hreturned, ?_⟩
  exact (hgone _ List.mem_cons_self (by decide)).2

end BulkRemoval

end TimedCache
