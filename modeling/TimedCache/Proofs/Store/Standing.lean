import Mathlib.Data.List.Induction
import TimedCache.Proofs.Store.History

/-!
# The entry that stands under a key

A put under a key stands until something ends it: a later put or removal of the key, a removal of
everything, or a look-up or a sweep that met the entry when it could no longer be served. The
store keeps exactly the entry that stands, so what is found can be read off the history.
-/

namespace TimedCache

variable {V : Type}

/-- The entry can no longer be served: its expiration time lies strictly in the past or its
holder does not resolve. -/
def TimedEntry.IsOver (e : TimedEntry V) (m : Moment V) (now : Timestamp) : Prop :=
  (∃ limit, e.expiresAt = some limit ∧ limit < now) ∨ e.holder.resolve m = none

/-- The entry in the store is this one, whenever it was accessed last. -/
def Entry.Is (x : Entry V) (e : TimedEntry V) : Prop := ∃ accessedAt, x = .timed { e with accessedAt }

namespace Entry

/-- Noting an access does not make another entry of it. -/
theorem accessed_is_iff {x : Entry V} {e : TimedEntry V} (now : Timestamp) :
    (x.accessed now).Is e ↔ x.Is e := by
  cases x with
  | timed y =>
    constructor
    · rintro ⟨accessedAt, h⟩
      refine ⟨y.accessedAt, congrArg Entry.timed ?_⟩
      have hfields := Entry.timed.inj h
      rw [TimedEntry.mk.injEq] at hfields ⊢
      exact ⟨hfields.1, hfields.2.1, hfields.2.2.1, rfl, hfields.2.2.2.2⟩
    · rintro ⟨accessedAt, h⟩
      exact ⟨now, by rw [Entry.timed.inj h]; rfl⟩
  | custom c => exact ⟨fun ⟨_, h⟩ => (nomatch h), fun ⟨_, h⟩ => (nomatch h)⟩

/-- An entry is expired exactly when it is over. -/
theorem Is.isExpired_iff {x : Entry V} {e : TimedEntry V} (h : x.Is e) (m : Moment V)
    (now : Timestamp) : x.isExpired m now = true ↔ e.IsOver m now := by
  obtain ⟨accessedAt, rfl⟩ := h
  have htime : ({ e with accessedAt } : TimedEntry V).isTimeExpired now = true
      ↔ ∃ limit, e.expiresAt = some limit ∧ limit < now := by
    cases e.expiresAt <;> simp [TimedEntry.isTimeExpired]
  rw [isExpired, Bool.or_eq_true, htime, Holder.isReclaimed_eq, Option.isNone_iff_eq_none, or_comm]
  rfl

/-- An entry is live exactly while it is not over. -/
theorem Is.isLive_iff {x : Entry V} {e : TimedEntry V} (h : x.Is e) (m : Moment V)
    (now : Timestamp) : x.isLive m now = true ↔ ¬ e.IsOver m now := by
  have hexpired := h.isExpired_iff m now
  obtain ⟨accessedAt, rfl⟩ := h
  rw [isLive, Bool.and_eq_true, Bool.not_eq_true', ← Bool.not_eq_true, hexpired]
  refine and_iff_left_of_imp fun hover => ?_
  have hresolve : e.holder.resolve m ≠ none := fun hnone => hover (.inr hnone)
  rw [object, Option.isSome_map, Option.isSome_iff_ne_none]
  exact hresolve

/-- The value of an entry is that of its holder. -/
theorem Is.cell_eq {x : Entry V} {e : TimedEntry V} (h : x.Is e) (m : Moment V) :
    x.cell m = e.holder.resolve m := by
  obtain ⟨accessedAt, rfl⟩ := h
  rfl

/-- An entry that cannot be served is expired, if it is not a custom one that has no value. -/
theorem isExpired_of_isLive_eq_false {e : Entry V} {m : Moment V} {now : Timestamp}
    (h : e.isLive m now = false) : e.isExpired m now = true ∨ ∃ c, e = .custom c ∧ c.value = none := by
  cases e with
  | timed entry =>
    have hself : (Entry.timed entry).Is entry := ⟨entry.accessedAt, rfl⟩
    refine .inl ((hself.isExpired_iff m now).mpr ?_)
    by_contra hserved
    rw [(hself.isLive_iff m now).mpr hserved] at h
    cases h
  | custom c =>
    cases hexpired : (Entry.custom c).isExpired m now with
    | true => exact .inl rfl
    | false =>
      rw [isLive, hexpired, Bool.not_false, Bool.true_and] at h
      have hvalue : (c.value.map Cell.value).isSome = false := h
      rw [Option.isSome_map, Option.isSome_eq_false_iff, Option.isNone_iff_eq_none] at hvalue
      exact .inr ⟨c, rfl, hvalue⟩

end Entry

namespace Occasion

/-- The action puts this entry under the key. -/
def Puts (key : String) (e : TimedEntry V) (o : Occasion V) : Prop :=
  ∃ t, o.action = .put t key (.timed e)

/-- The action is the end of the entry under the key: it replaces or removes the key, removes
everything, or comes across the entry when that can no longer be served. -/
def Ends (key : String) (e : TimedEntry V) (o : Occasion V) : Prop :=
  match o.action with
  | .put _ k _ | .uncache _ k => k = key
  | .get t k => k = key ∧ e.IsOver (o.before.moment []) t.stamp
  | .uncacheLike _ pattern => pattern.toList <+: key.toList
  | .sweep t => e.IsOver (o.before.moment []) t.stamp
  | .drain _ => True
  | _ => False

end Occasion

/-- Something of the first kind has happened, and nothing of the second kind since then. -/
def Since {α : Type} (P Q : α → Prop) (history : List α) : Prop :=
  ∃ earlier o later, history = earlier ++ o :: later ∧ P o ∧ ∀ o' ∈ later, ¬ Q o'

/-- What happens last is of the first kind, or it is not of the second kind and comes after a history of
that sort. -/
theorem since_concat_iff {α : Type} {P Q : α → Prop} {history : List α} {o : α} :
    Since P Q (history ++ [o]) ↔ P o ∨ (Since P Q history ∧ ¬ Q o) := by
  constructor
  · rintro ⟨earlier, first, later, hhistory, hfirst, hlater⟩
    rcases List.eq_nil_or_concat later with rfl | ⟨front, last, rfl⟩
    · obtain ⟨-, hlast⟩ := List.append_inj' hhistory rfl
      have ho : o = first := (List.cons.inj hlast).1
      exact Or.inl (ho ▸ hfirst)
    · rw [List.concat_eq_append] at hhistory hlater
      rw [← List.cons_append, ← List.append_assoc] at hhistory
      obtain ⟨hfront, hlast⟩ := List.append_inj' hhistory rfl
      have ho : o = last := (List.cons.inj hlast).1
      refine Or.inr ⟨⟨earlier, first, front, hfront, hfirst, fun o' ho' => ?_⟩, ?_⟩
      · exact hlater o' (List.mem_append_left _ ho')
      · exact hlater o (List.mem_append_right _ (List.mem_singleton.mpr ho))
  · rintro (hlast | ⟨⟨earlier, first, later, rfl, hfirst, hlater⟩, hend⟩)
    · exact ⟨history, o, [], rfl, hlast, fun _ h => nomatch h⟩
    · refine ⟨earlier, first, later ++ [o], by simp, hfirst, fun o' ho' => ?_⟩
      rcases List.mem_append.mp ho' with ho' | ho'
      · exact hlater o' ho'
      · exact List.mem_singleton.mp ho' ▸ hend

/-- The entry was put under the key, and nothing that happened later was its end. -/
def Stands (history : List (Occasion V)) (key : String) (e : TimedEntry V) : Prop :=
  ∃ earlier o later, history = earlier ++ o :: later ∧ o.Puts key e ∧ ∀ o' ∈ later, ¬ o'.Ends key e

/-- An entry stands after one more action if that put it, or if it stood before and the action is
not its end. -/
theorem stands_concat_iff {history : List (Occasion V)} {o : Occasion V} {key : String}
    {e : TimedEntry V} :
    Stands (history ++ [o]) key e ↔ o.Puts key e ∨ (Stands history key e ∧ ¬ o.Ends key e) :=
  since_concat_iff

namespace Store

variable {s : Store V} {key : String} {e : TimedEntry V}

/-- The entry is the one under the key, whenever it was accessed last. -/
def Holds (s : Store V) (key : String) (e : TimedEntry V) : Prop :=
  ∃ x, s.find? key = some x ∧ x.Is e

/-- After an action the entry is under the key if that put it there, or if it was there before and
the action is not its end. -/
theorem Calm.holds_act_iff (hs : s.Calm) {a : Action V} (ha : a.isPlain) :
    (s.act a).Holds key e ↔ (∃ accessedAt, (Occasion.mk s a).Puts key { e with accessedAt })
      ∨ (s.Holds key e ∧ ¬ (Occasion.mk s a).Ends key e) := by
  -- only a put brings an entry into the store
  have hsame : (∀ t k x, a ≠ .put t k x) → ((s.act a).Holds key e
      ↔ s.Holds key e ∧ ¬ (Occasion.mk s a).Ends key e) → ((s.act a).Holds key e
      ↔ (∃ accessedAt, (Occasion.mk s a).Puts key { e with accessedAt })
        ∨ (s.Holds key e ∧ ¬ (Occasion.mk s a).Ends key e)) := by
    intro hput hiff
    have hnone : ¬ ∃ accessedAt, (Occasion.mk s a).Puts key { e with accessedAt } :=
      fun ⟨_, t, h⟩ => hput t key _ h
    rw [hiff, or_iff_right hnone]
  cases a with
  | put t k x =>
    unfold Holds
    rw [hs.find?_put]
    by_cases hkey : key = k
    · subst hkey
      simp only [if_true, Occasion.Puts, Occasion.Ends, not_true, and_false, or_false,
        Option.some.injEq, Action.put.injEq, true_and]
      constructor
      · rintro ⟨_, rfl, accessedAt, rfl⟩
        exact ⟨accessedAt, t, rfl, rfl⟩
      · rintro ⟨accessedAt, _, -, rfl⟩
        exact ⟨_, rfl, accessedAt, rfl⟩
    · simp [if_neg hkey, Occasion.Puts, Occasion.Ends, Ne.symm hkey]
  | get t k =>
    refine hsame (fun _ _ _ h => nomatch h) ?_
    unfold Holds
    rw [hs.find?_get]
    by_cases hkey : key = k
    · subst hkey
      simp only [if_true, Occasion.Ends, true_and, Option.map_eq_some_iff,
        Option.filter_eq_some_iff]
      constructor
      · rintro ⟨_, ⟨x, ⟨hfind, hlive⟩, rfl⟩, his⟩
        rw [Entry.accessed_is_iff] at his
        exact ⟨⟨x, hfind, his⟩, (his.isLive_iff _ _).mp hlive⟩
      · rintro ⟨⟨x, hfind, his⟩, hover⟩
        exact ⟨_, ⟨x, ⟨hfind, (his.isLive_iff _ _).mpr hover⟩, rfl⟩, (Entry.accessed_is_iff _).mpr his⟩
    · simp [if_neg hkey, Occasion.Ends, Ne.symm hkey]
  | uncache t k =>
    refine hsame (fun _ _ _ h => nomatch h) ?_
    unfold Holds
    rw [hs.find?_uncache]
    by_cases hkey : key = k
    · simp [hkey, Occasion.Ends]
    · simp [if_neg hkey, Occasion.Ends, Ne.symm hkey]
  | uncacheLike t pattern =>
    refine hsame (fun _ _ _ h => nomatch h) ?_
    unfold Holds
    rw [hs.find?_uncacheLike, startsWith]
    by_cases hpattern : pattern.toList <+: key.toList
    · simp [hpattern, List.isPrefixOf_iff_prefix, Occasion.Ends]
    · simp [hpattern, List.isPrefixOf_iff_prefix, Occasion.Ends]
  | sweep t =>
    refine hsame (fun _ _ _ h => nomatch h) ?_
    unfold Holds
    rw [hs.find?_sweep]
    simp only [Option.filter_eq_some_iff, Bool.not_eq_true', Occasion.Ends]
    constructor
    · rintro ⟨x, ⟨hfind, hexpired⟩, his⟩
      rw [← Bool.not_eq_true, his.isExpired_iff] at hexpired
      exact ⟨⟨x, hfind, his⟩, hexpired⟩
    · rintro ⟨⟨x, hfind, his⟩, hover⟩
      rw [← his.isExpired_iff, Bool.not_eq_true] at hover
      exact ⟨x, ⟨hfind, hover⟩, his⟩
  | drain t =>
    refine hsame (fun _ _ _ h => nomatch h) ?_
    simp [Holds, hs.find?_drain, Occasion.Ends]
  | refer owners => exact hsame (fun _ _ _ h => nomatch h) (and_iff_left id).symm
  | revise later => cases ha
  | delegateTo delegate => exact hsame (fun _ _ _ h => nomatch h) (and_iff_left id).symm
  | arm alarm => cases ha

/-- An empty store keeps, through any plain script, exactly the entries that stand. -/
theorem Calm.holds_follow_iff (hs : s.Calm) (hempty : s.entries = []) {script : List (Action V)}
    (hscript : ∀ a ∈ script, a.isPlain) : (s.follow script).Holds key e
      ↔ ∃ accessedAt, Stands (s.history script) key { e with accessedAt } := by
  induction script using List.reverseRecOn with
  | nil =>
    constructor
    · rintro ⟨x, hfind, -⟩
      have hnone : s.find? key = none := by
        rw [find?, hempty]
        rfl
      cases hnone.symm.trans hfind
    · rintro ⟨_, earlier, o, later, h, -⟩
      exact absurd h (by simp [history])
  | append_singleton front a ih =>
    have hfront : ∀ b ∈ front, b.isPlain := fun b hb => hscript b (List.mem_append_left _ hb)
    have ha : a.isPlain := hscript a (List.mem_append_right _ (List.mem_singleton_self a))
    have hcalm : (s.follow front).Calm := hs.follow hfront
    rw [follow_append, history_append]
    change ((s.follow front).act a).Holds key e
      ↔ ∃ accessedAt, Stands (s.history front ++ [⟨s.follow front, a⟩]) key { e with accessedAt }
    simp only [stands_concat_iff, exists_or]
    rw [hcalm.holds_act_iff ha, ih hfront]
    -- when an entry was accessed last has no part in what ends it
    exact or_congr Iff.rfl exists_and_right.symm

/-- What is found under a key after an action was put there by it, or was there before. -/
theorem Calm.find?_act_cases (hs : s.Calm) {a : Action V} (ha : a.isPlain) {x : Entry V}
    (hfind : (s.act a).find? key = some x) :
    (∃ t, a = .put t key x) ∨ ∃ y, s.find? key = some y ∧ (x = y ∨ ∃ now, x = y.accessed now) := by
  cases a with
  | put t k y =>
    rw [hs.find?_put] at hfind
    split at hfind
    · next hkey => exact Or.inl ⟨t, by rw [hkey, Option.some.inj hfind]⟩
    · exact Or.inr ⟨x, hfind, Or.inl rfl⟩
  | get t k =>
    rw [hs.find?_get] at hfind
    split at hfind
    · next hkey =>
      obtain ⟨y, hy, rfl⟩ := Option.map_eq_some_iff.mp hfind
      exact Or.inr ⟨y, hkey ▸ (Option.filter_eq_some_iff.mp hy).1, Or.inr ⟨t.stamp, rfl⟩⟩
    · exact Or.inr ⟨x, hfind, Or.inl rfl⟩
  | uncache t k =>
    rw [hs.find?_uncache] at hfind
    split at hfind
    · cases hfind
    · exact Or.inr ⟨x, hfind, Or.inl rfl⟩
  | uncacheLike t pattern =>
    rw [hs.find?_uncacheLike] at hfind
    split at hfind
    · cases hfind
    · exact Or.inr ⟨x, hfind, Or.inl rfl⟩
  | sweep t =>
    rw [hs.find?_sweep] at hfind
    exact Or.inr ⟨x, (Option.filter_eq_some_iff.mp hfind).1, Or.inl rfl⟩
  | drain t =>
    rw [hs.find?_drain] at hfind
    cases hfind
  | refer owners => exact Or.inr ⟨x, hfind, Or.inl rfl⟩
  | revise later => cases ha
  | delegateTo delegate => exact Or.inr ⟨x, hfind, Or.inl rfl⟩
  | arm alarm => cases ha

/-- Every entry in the store is a usual one. -/
def AllTimed (s : Store V) : Prop := ∀ key x, s.find? key = some x → ∃ e, x.Is e

/-- What a look-up finds is the value of an entry under the key that is not over. -/
theorem AllTimed.found_iff (htimed : s.AllTimed) {m : Moment V} {now : Timestamp} {cell : Cell V} :
    ((s.find? key).filter (Entry.isLive m now)).bind (Entry.cell m) = some cell
      ↔ ∃ e, s.Holds key e ∧ ¬ e.IsOver m now ∧ e.holder.resolve m = some cell := by
  constructor
  · intro hfound
    obtain ⟨x, hx, hcell⟩ := Option.bind_eq_some_iff.mp hfound
    obtain ⟨hfind, hlive⟩ := Option.filter_eq_some_iff.mp hx
    obtain ⟨e, he⟩ := htimed key x hfind
    exact ⟨e, ⟨x, hfind, he⟩, (he.isLive_iff m now).mp hlive, he.cell_eq m ▸ hcell⟩
  · rintro ⟨e, ⟨x, hfind, he⟩, hover, hcell⟩
    rw [hfind, Option.filter_some_pos ((he.isLive_iff m now).mpr hover), Option.bind_some, he.cell_eq, hcell]

/-- Plain actions bring no custom entries into a store. -/
theorem Calm.act_allTimed (hs : s.Calm) (htimed : s.AllTimed) {a : Action V} (ha : a.isPlain) :
    (s.act a).AllTimed := by
  intro key x hfind
  rcases hs.find?_act_cases ha hfind with ⟨t, rfl⟩ | ⟨y, hy, hxy⟩
  · cases x with
    | timed e => exact ⟨e, e.accessedAt, rfl⟩
    | custom c => cases ha
  · obtain ⟨e, he⟩ := htimed key y hy
    rcases hxy with rfl | ⟨now, rfl⟩
    · exact ⟨e, he⟩
    · exact ⟨e, (Entry.accessed_is_iff now).mpr he⟩

/-- A plain script brings no custom entries into a store. -/
theorem Calm.follow_allTimed (hs : s.Calm) (htimed : s.AllTimed) {script : List (Action V)}
    (hscript : ∀ a ∈ script, a.isPlain) : (s.follow script).AllTimed := by
  induction script generalizing s with
  | nil => exact htimed
  | cons a rest ih =>
    obtain ⟨ha, hrest⟩ := List.forall_mem_cons.mp hscript
    exact ih (hs.act ha) (hs.act_allTimed htimed ha) hrest

end Store

end TimedCache
