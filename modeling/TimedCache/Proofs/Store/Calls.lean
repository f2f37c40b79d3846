import TimedCache.Proofs.Moments
import TimedCache.Proofs.Store.Moves
import TimedCache.Proofs.Store.Tally

/-!
# Calls of clients

What clients do with a store that keeps what they own: they put entries that own their values, look keys
up and remove them, one by one or by prefix. Whether such an entry can be served depends on nothing but
the clock, so a call goes through the entries one by one: it leaves those that it does not reach, and
what it makes of the others depends on them alone.
-/

namespace TimedCache

variable {V : Type}

/-- The reference owns its value for good. -/
def Holder.isStrong : Holder V → Bool
  | .strong _ => true
  | _ => false

namespace Entry

/-- The entry owns what it holds. -/
def isOwner (e : Entry V) : Bool := e.holders.all Holder.isStrong

variable {e : Entry V}

/-- What an entry owns it resolves to, whatever other references there are. -/
theorem cell_of_isOwner (h : e.isOwner) (m m' : Moment V) : e.cell m = e.cell m' := by
  cases e with
  | custom c => rfl
  | timed entry =>
    cases hholder : entry.holder with
    | strong own => rw [cell, cell, hholder, Holder.resolve, Holder.resolve]
    | weak | soft => simp [isOwner, holders, hholder, Holder.isStrong] at h

/-- Whether an entry that owns what it holds can be served is a matter of time. -/
theorem isLive_of_isOwner (h : e.isOwner) (m m' : Moment V) (now : Timestamp) :
    e.isLive m now = e.isLive m' now := by
  rw [isLive, isLive, object, object, cell_of_isOwner h m m']
  cases e with
  | custom c => rfl
  | timed entry =>
    cases hholder : entry.holder with
    | strong own => rw [isExpired, isExpired, hholder, Holder.isReclaimed, Holder.isReclaimed]
    | weak | soft => simp [isOwner, holders, hholder, Holder.isStrong] at h

theorem accessed_isOwner (now : Timestamp) : (e.accessed now).isOwner = e.isOwner := by
  rw [isOwner, accessed_holders, isOwner]

end Entry

namespace Action

/-- The action is a call of a client that keeps nothing but values of its own. -/
def isCall : Action V → Bool
  | .put _ _ e => e.isOwner
  | .get .. | .uncache .. | .uncacheLike .. => true
  | _ => false

/-- The key that a call is about. -/
def key? : Action V → Option String
  | .put _ key _ | .get _ key | .uncache _ key => some key
  | _ => none

/-- The call may do something to an entry under this key. -/
def reaches : Action V → String → Bool
  | .put _ key _, other | .get _ key, other | .uncache _ key, other => other == key
  | .uncacheLike _ pattern, other => Store.startsWith pattern other
  | _, _ => false

/-- What a call leaves of an entry that it reaches: nothing, unless it looks the entry up in time. -/
def spares : Action V → Entry V → Option (Entry V)
  | .get t _, e => if e.isLive ⟨[], []⟩ t.stamp then some (e.accessed t.stamp) else none
  | _, _ => none

/-- What a call leaves of an entry that is there. -/
def leaves (a : Action V) (p : String × Entry V) : Option (String × Entry V) :=
  if a.reaches p.1 then (a.spares p.2).map (Prod.mk p.1) else some p

variable {a : Action V}

/-- What is out of reach stays. -/
theorem leaves_of_not_reaches {p : String × Entry V} (h : a.reaches p.1 = false) : a.leaves p = some p :=
  if_neg (by simp [h])

/-- An entry that is spared owns what it owned. -/
theorem spares_isOwner {e e' : Entry V} (h : a.spares e = some e') : e'.isOwner = e.isOwner := by
  cases a with
  | get t key =>
    rw [spares] at h
    split at h
    · rw [← Option.some.inj h, Entry.accessed_isOwner]
    · cases h
  | _ => cases h

/-- What is left of an entry is under the same key, and owns what it owned. -/
theorem leaves_eq_some {p q : String × Entry V} (h : a.leaves p = some q) :
    q.1 = p.1 ∧ q.2.isOwner = p.2.isOwner := by
  rw [leaves] at h
  split at h
  · obtain ⟨e', hspared, rfl⟩ := Option.map_eq_some_iff.mp h
    exact ⟨rfl, spares_isOwner hspared⟩
  · rw [← Option.some.inj h]
    exact ⟨rfl, rfl⟩

/-- The action of a client sets no alarm. -/
theorem isQuiet_of_isCall (h : a.isCall) : a.isQuiet := by
  cases a <;> first | rfl | cases h

end Action

namespace Store

variable {s : Store V} {a : Action V}

/-- All entries own what they hold. -/
def OwnsAll (s : Store V) : Prop := ∀ p ∈ s.entries, p.2.isOwner

/-- What is dropped leaves nothing, and the rest leaves itself. -/
theorem filterMap_dropped {α : Type} (l : List α) (dropped : α → Bool) :
    (l.filterMap fun p => if dropped p then none else some p) = l.filter fun p => !dropped p := by
  induction l with
  | nil => rfl
  | cons p rest ih => cases hdropped : dropped p <;> simp [hdropped, ih]

/-- A call that spares nothing leaves the entries that it does not reach. -/
theorem filterMap_leaves (hspares : ∀ e, a.spares e = none) (entries : List (String × Entry V)) :
    entries.filterMap a.leaves = entries.filter fun p => !a.reaches p.1 := by
  have hleaves : a.leaves = fun p => if a.reaches p.1 then none else some p := by
    funext p
    rw [Action.leaves, hspares, Option.map_none]
  rw [hleaves, filterMap_dropped]

/-- A look-up leaves of each entry what it leaves of the one under its key. -/
theorem Calm.leaves_get (hs : s.Calm) (howns : s.OwnsAll) (t : WallTime) {key : String} {e : Entry V}
    (hfind : s.find? key = some e) {p : String × Entry V} (hp : p ∈ s.entries) :
    (Action.get t key).leaves p = if p.1 = key then
      (if e.isLive (s.moment []) t.stamp then some (p.1, p.2.accessed t.stamp) else none) else some p := by
  by_cases hkey : p.1 = key
  · have he : p.2 = e := hs.eq_of_mem hp (hkey ▸ hfind)
    have hlive := Entry.isLive_of_isOwner (howns p hp) (s.moment []) ⟨[], []⟩ t.stamp
    have hreached : (Action.get t key : Action V).reaches p.1 := beq_iff_eq.mpr hkey
    rw [Action.leaves, if_pos hreached, if_pos hkey, Action.spares, ← he, hlive]
    split <;> rfl
  · have hout : (Action.get t key : Action V).reaches p.1 = false := beq_eq_false_iff_ne.mpr hkey
    rw [Action.leaves_of_not_reaches hout, if_neg hkey]

/-- A look-up leaves of the entries what it leaves of each of them. -/
theorem Calm.get_entries (hs : s.Calm) (howns : s.OwnsAll) (t : WallTime) (key : String) :
    (s.act (.get t key)).entries = s.entries.filterMap (Action.get t key).leaves := by
  rw [Store.act]
  cases hfind : s.find? key with
  | none =>
    have hother (p : String × Entry V) (hp : p ∈ s.entries) : (Action.get t key).leaves p = some p := by
      have hkey : p.1 ≠ key := fun hkey =>
        lookup_eq_none_iff_not_mem.mp hfind (hkey ▸ List.mem_map_of_mem hp)
      exact Action.leaves_of_not_reaches (beq_eq_false_iff_ne.mpr hkey)
    rw [hs.get_eq_of_absent t hfind, List.filterMap_congr hother, List.filterMap_some]
    rfl
  | some e =>
    rw [List.filterMap_congr fun p => hs.leaves_get howns t hfind]
    cases hlive : e.isLive (s.moment []) t.stamp with
    | true =>
      obtain ⟨log, h⟩ := hs.get_eq_of_live t hfind hlive
      rw [h]
      change (s.entries.map fun p => if p.1 = key then (p.1, p.2.accessed t.stamp) else p) = _
      rw [← List.filterMap_eq_map]
      congr 1
      funext p
      exact apply_ite some _ _ _
    | false =>
      obtain ⟨log, h⟩ := hs.get_eq_of_dead t hfind hlive
      rw [h]
      change (s.entries.filter fun p => !(p.1 == key)) = _
      rw [← filterMap_dropped]
      simp only [beq_iff_eq, Bool.false_eq_true, if_false]

/-- A call leaves of the entries what it leaves of each of them, and adds what it puts. -/
theorem Calm.act_entries (hs : s.Calm) (howns : s.OwnsAll) (ha : a.isCall) :
    (s.act a).entries = s.entries.filterMap a.leaves ++ a.stored := by
  cases a with
  | put t key e =>
    obtain ⟨log, h⟩ := hs.put_eq t key e
    rw [Store.act, h, filterMap_leaves fun _ => rfl]
    rfl
  | get t key => exact (hs.get_entries howns t key).trans (List.append_nil _).symm
  | uncache t key =>
    obtain ⟨log, h⟩ := hs.uncache_eq t key
    rw [Store.act, h, filterMap_leaves fun _ => rfl]
    exact (List.append_nil _).symm
  | uncacheLike t pattern =>
    obtain ⟨log, h⟩ := hs.uncacheLike_eq t pattern
    rw [Store.act, h, filterMap_leaves fun _ => rfl]
    exact (List.append_nil _).symm
  | _ => cases ha

/-- After a call all entries own what they hold, as they did before. -/
theorem Calm.act_ownsAll (hs : s.Calm) (howns : s.OwnsAll) (ha : a.isCall) : (s.act a).OwnsAll := by
  intro p hp
  rw [hs.act_entries howns ha] at hp
  rcases List.mem_append.mp hp with hleft | hstored
  · obtain ⟨q, hq, hleaves⟩ := List.mem_filterMap.mp hleft
    rw [(Action.leaves_eq_some hleaves).2]
    exact howns q hq
  · cases a with
    | put t key e => exact List.mem_singleton.mp hstored ▸ ha
    | _ => cases hstored

/-- After a call there are entries under keys that had one, and under the key that the call is about. -/
theorem Calm.act_keys (hs : s.Calm) (howns : s.OwnsAll) (ha : a.isCall) {key : String}
    (hkey : key ∈ (s.act a).keys) : key ∈ s.keys ∨ a.key? = some key := by
  obtain ⟨p, hp, rfl⟩ := List.mem_map.mp hkey
  rw [hs.act_entries howns ha] at hp
  rcases List.mem_append.mp hp with hleft | hstored
  · obtain ⟨q, hq, hleaves⟩ := List.mem_filterMap.mp hleft
    rw [(Action.leaves_eq_some hleaves).1]
    exact .inl (List.mem_map_of_mem hq)
  · cases a with
    | put t key e => exact .inr (List.mem_singleton.mp hstored ▸ rfl)
    | _ => cases hstored

/-- After some calls there are entries under keys that had one, and under keys that a call was about. -/
theorem Calm.follow_keys (hs : s.Calm) (howns : s.OwnsAll) {script : List (Action V)}
    (hscript : ∀ a ∈ script, a.isCall) {key : String} (hkey : key ∈ (s.follow script).keys) :
    key ∈ s.keys ∨ ∃ a ∈ script, a.key? = some key := by
  induction script generalizing s with
  | nil => exact .inl hkey
  | cons a rest ih =>
    obtain ⟨ha, hrest⟩ := List.forall_mem_cons.mp hscript
    have hcalm := hs.act_of_isQuiet (Action.isQuiet_of_isCall ha)
    obtain hbefore | ⟨b, hb, hnamed⟩ := ih hcalm (hs.act_ownsAll howns ha) hrest hkey
    · exact (hs.act_keys howns ha hbefore).imp_right fun hnamed => ⟨a, List.mem_cons_self, hnamed⟩
    · exact .inr ⟨b, List.mem_cons_of_mem _ hb, hnamed⟩

/-- A calm store answers every call. -/
theorem Calm.returns (hs : s.Calm) (ha : a.isCall) : s.returns a := by
  cases a with
  | put t key e =>
    obtain ⟨log, h⟩ := hs.put_eq t key e
    rw [Store.returns, h]
    rfl
  | get t key =>
    rw [Store.returns, Ran.returned, hs.get_result t key]
    rfl
  | uncache t key =>
    obtain ⟨log, h⟩ := hs.uncache_eq t key
    rw [Store.returns, h]
    rfl
  | uncacheLike t pattern =>
    obtain ⟨log, h⟩ := hs.uncacheLike_eq t pattern
    rw [Store.returns, h]
    rfl
  | _ => cases ha

/-- A calm store returns from every call of a script. -/
theorem Calm.history_returned (hs : s.Calm) {script : List (Action V)}
    (hscript : ∀ a ∈ script, a.isCall) : ∀ o ∈ s.history script, o.returned := by
  induction script generalizing s with
  | nil => exact fun _ ho => by cases ho
  | cons a rest ih =>
    obtain ⟨ha, hrest⟩ := List.forall_mem_cons.mp hscript
    exact List.forall_mem_cons.mpr
      ⟨hs.returns ha, ih (hs.act_of_isQuiet (Action.isQuiet_of_isCall ha)) hrest⟩

end Store

/-- What whoever asked for an operation is told. -/
inductive Answer (V : Type) where
  | nothing
  | found (cell : Option (Cell V))
  | count (n : Nat)
  | panicked (p : Panic String)

/-- The answer that the result of an operation amounts to. -/
def Answer.ofResult {α : Type} (result : Except (Panic String) α) (told : α → Answer V) : Answer V :=
  match result with
  | .ok a => told a
  | .error p => .panicked p

/-- The answer to whoever asked for an action. -/
def Occasion.answer (o : Occasion V) : Answer V :=
  match o.action with
  | .put t key e => .ofResult (o.before.put t key e).result fun _ => .nothing
  | .get t key => .ofResult (o.before.get t key).result .found
  | .uncache t key => .ofResult (o.before.uncache t key).result fun _ => .nothing
  | .uncacheLike t pattern => .ofResult (o.before.uncacheLike t pattern).result .count
  | .sweep t => .ofResult (o.before.sweep t).result .count
  | .drain t => .ofResult (o.before.drain t).result .count
  | .refer _ | .revise _ | .delegateTo _ | .arm _ => .nothing

end TimedCache
