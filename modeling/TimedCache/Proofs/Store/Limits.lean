import TimedCache.Proofs.Store.Ledger
import TimedCache.Proofs.Store.Muted

/-!
# Time limits

An entry gets its time limit when it is made, and nothing that happens to it in a store changes that.
So the limits of the entries in a store are those of entries that were put, and after a sweep all of
them still lie ahead.
-/

namespace TimedCache

variable {V : Type}

/-- A lifetime that starts now is not over before now. -/
theorem le_of_expiryOf {now limit : Timestamp} {ttl : Duration} (hnow : now < Word.bound)
    (h : expiryOf now ttl = some limit) : now ≤ limit := by
  rw [expiryOf] at h
  split at h
  · cases h
  · rw [← Option.some.inj h, Word.addCapped, Word.largest]
    exact Nat.le_min.mpr ⟨Nat.le_add_right _ _, Nat.le_sub_one_of_lt hnow⟩

namespace Entry

/-- The time after which the entry must not be served, if it has one. -/
def expiresAt? : Entry V → Option Timestamp
  | .timed e => e.expiresAt
  | .custom _ => none

/-- An entry keeps its time limit. -/
theorem Continues.expiresAt? {x e : Entry V} (h : x.Continues e) : x.expiresAt? = e.expiresAt? := by
  cases x <;> cases e <;> try contradiction
  case timed =>
    obtain ⟨_, rfl⟩ := h
    rfl
  case custom => rfl

/-- A revision gives no time limit. -/
theorem revisedTo_expiresAt? (later : CustomEntry V) (e : Entry V) :
    (e.revisedTo later).expiresAt? = e.expiresAt? := by
  cases e <;> rfl

/-- An entry is expired when its time is over. -/
theorem isExpired_of_lt {m : Moment V} {now limit : Timestamp} {e : Entry V}
    (hlimit : e.expiresAt? = some limit) (h : limit < now) : e.isExpired m now = true := by
  cases e with
  | custom c => cases hlimit
  | timed e =>
    have htime : e.isTimeExpired now = true := by
      rw [TimedEntry.isTimeExpired, show e.expiresAt = some limit from hlimit]
      exact decide_eq_true h
    rw [isExpired, htime, Bool.or_true]

end Entry

/-- An entry in the store after an action has the time limit of one that was put or was there. -/
theorem Occasion.exists_limit {o : Occasion V} (hnodup : o.before.keys.Nodup) {p : String × Entry V}
    (hp : p ∈ o.after.entries) :
    ∃ q ∈ o.action.stored ++ o.before.entries, p.2.expiresAt? = q.2.expiresAt? := by
  by_cases hoperation : o.isOperation
  · obtain ⟨e, he | he, hcontinues⟩ := o.continues hnodup hoperation p hp
    · obtain ⟨t, haction⟩ := action_of_mem_entered he
      have hstored : (p.1, e) ∈ o.action.stored := haction ▸ List.mem_singleton_self _
      exact ⟨_, List.mem_append_left _ hstored, hcontinues.expiresAt?⟩
    · exact ⟨_, List.mem_append_right _ he, hcontinues.expiresAt?⟩
  · obtain ⟨s, a⟩ := o
    cases a with
    | revise later =>
      obtain ⟨q, hq, rfl⟩ := List.mem_map.mp hp
      exact ⟨q, hq, q.2.revisedTo_expiresAt? later⟩
    | refer | delegateTo | arm => exact ⟨p, hp, rfl⟩
    | put | get | uncache | uncacheLike | sweep | drain => exact absurd rfl hoperation

namespace Store

variable {s : Store V}

/-- A store that is calm but for its alarms stays so through a script in which no hook panics. -/
theorem Calm.muted_follow {script : List (Action V)} (hs : s.muted.Calm)
    (hreturned : ∀ o ∈ s.history script, o.returned) : (s.follow script).muted.Calm := by
  induction script generalizing s with
  | nil => exact hs
  | cons a rest ih =>
    obtain ⟨hfirst, hrest⟩ := List.forall_mem_cons.mp hreturned
    exact ih (Occasion.calm_after (o := ⟨s, a⟩) hs hfirst) hrest

/-- After a script in which no hook panics, every entry has the time limit of one that was put in its
course or was there before. -/
theorem Calm.exists_limit {script : List (Action V)} (hs : s.muted.Calm)
    (hreturned : ∀ o ∈ s.history script, o.returned) {p : String × Entry V}
    (hp : p ∈ (s.follow script).entries) :
    ∃ q, (q ∈ script.flatMap Action.stored ∨ q ∈ s.entries) ∧ p.2.expiresAt? = q.2.expiresAt? := by
  induction script generalizing s with
  | nil => exact ⟨p, .inr hp, rfl⟩
  | cons a rest ih =>
    obtain ⟨hfirst, hrest⟩ := List.forall_mem_cons.mp hreturned
    obtain ⟨q, hq | hq, hlimit⟩ := ih (Occasion.calm_after (o := ⟨s, a⟩) hs hfirst) hrest hp
    · exact ⟨q, .inl (List.mem_append_right _ hq), hlimit⟩
    · obtain ⟨first, hmem, hsame⟩ := Occasion.exists_limit (o := ⟨s, a⟩) hs.nodup hq
      refine ⟨first, ?_, hlimit.trans hsame⟩
      exact (List.mem_append.mp hmem).imp_left (List.mem_append_left _)

/-- After a sweep no time limit lies in the past. -/
theorem Calm.le_limit_of_sweep {t : WallTime} (hs : s.muted.Calm) (hreturned : (s.sweep t).returned)
    {p : String × Entry V} (hp : p ∈ (s.sweep t).state.entries) {limit : Timestamp}
    (hlimit : p.2.expiresAt? = some limit) : t.stamp ≤ limit := by
  have hentries : (s.sweep t).state.entries
      = s.entries.filter fun p => !p.2.isExpired (s.muted.moment []) t.stamp := by
    obtain ⟨log, h⟩ := hs.sweep_eq t
    have hmuted := Occasion.after_muted (o := ⟨s, .sweep t⟩) rfl hreturned
    rw [Store.act, h] at hmuted
    exact congrArg entries hmuted
  rw [hentries] at hp
  have hkept := (List.mem_filter.mp hp).2
  by_contra hlt
  rw [Entry.isExpired_of_lt hlimit (Nat.lt_of_not_le hlt)] at hkept
  cases hkept

end Store

end TimedCache
