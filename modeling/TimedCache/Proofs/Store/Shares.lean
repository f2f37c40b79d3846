import Mathlib.Algebra.BigOperators.Group.Finset.Piecewise
import Mathlib.Algebra.Order.Group.Multiset
import TimedCache.Proofs.Store.Calls

/-!
# Clients that share a store

Several clients call one store in turn, each about keys of its own and with prefixes that are out of the
way of the others. Then each of them has a share of the store that is just what it would have had alone:
it gets the same answers, the entries of all of them together are those in the store, and so are the
numbers of what was put, found, missed and expired.
-/

namespace TimedCache

variable {V : Type}

/-- Two occasions of the same action, which goes the same way in both. -/
structure Occasion.Alike (o o' : Occasion V) : Prop where
  action : o.action = o'.action
  answer : o.answer = o'.answer
  hit : o.isHit = o'.isHit
  expired : o.expired = o'.expired

/-- What alike occasions have in common, histories of alike occasions have in common. -/
theorem Occasion.map_eq_of_alike {α : Type} {f : Occasion V → α} {past past' : List (Occasion V)}
    (hf : ∀ o o' : Occasion V, o.Alike o' → f o = f o') (halike : List.Forall₂ Occasion.Alike past past') :
    past.map f = past'.map f := by
  induction halike with
  | nil => rfl
  | cons hfirst _ ih => rw [List.map_cons, List.map_cons, hf _ _ hfirst, ih]

namespace Store

/-- A store that is calm and owns all it holds has, under the keys of a client, the entries that the
client's own store has. -/
structure Share (own : String → Bool) (s mine : Store V) : Prop where
  calm : s.Calm
  ownsAll : s.OwnsAll
  calmMine : mine.Calm
  entries : s.entries.filter (fun p => own p.1) = mine.entries

namespace Share

variable {own : String → Bool} {s mine : Store V} {a : Action V}

theorem ownsAllMine (h : Share own s mine) : mine.OwnsAll := by
  intro p hp
  rw [← h.entries] at hp
  exact h.ownsAll p (List.mem_filter.mp hp).1

/-- A client finds the same in both stores. -/
theorem find?_eq (h : Share own s mine) {key : String} (hkey : own key) : s.find? key = mine.find? key := by
  have hfound := lookup_filter_key s.entries own key
  rw [h.entries, if_pos hkey] at hfound
  exact hfound.symm

/-- What is left of the entries under the client's keys does not depend on the others. -/
theorem filter_leaves (own : String → Bool) (entries : List (String × Entry V)) (a : Action V) :
    (entries.filterMap a.leaves).filter (fun p => own p.1)
      = (entries.filter fun p => own p.1).filterMap a.leaves := by
  rw [List.filter_filterMap, List.filterMap_filter]
  congr 1
  funext p
  cases hleaves : a.leaves p with
  | none => simp
  | some q => rw [Option.filter_some, (Action.leaves_eq_some hleaves).1]

/-- A call of the client does the same to both stores. -/
theorem act (h : Share own s mine) (ha : a.isCall) (hown : ∀ key, a.key? = some key → own key) :
    Share own (s.act a) (mine.act a) := by
  have hquiet := Action.isQuiet_of_isCall ha
  refine ⟨h.calm.act_of_isQuiet hquiet, h.calm.act_ownsAll h.ownsAll ha,
    h.calmMine.act_of_isQuiet hquiet, ?_⟩
  have hstored : a.stored.filter (fun p => own p.1) = a.stored := by
    cases a with
    | put t key e => exact List.filter_eq_self.mpr fun p hp => List.mem_singleton.mp hp ▸ hown key rfl
    | _ => rfl
  rw [h.calm.act_entries h.ownsAll ha, h.calmMine.act_entries h.ownsAllMine ha, List.filter_append,
    filter_leaves, h.entries, hstored]

/-- A call of somebody else that stays away from the client's keys does nothing to the client's share. -/
theorem act_other (h : Share own s mine) (ha : a.isCall)
    (hspared : ∀ key, own key → a.reaches key = false) : Share own (s.act a) mine := by
  refine ⟨h.calm.act_of_isQuiet (Action.isQuiet_of_isCall ha), h.calm.act_ownsAll h.ownsAll ha,
    h.calmMine, ?_⟩
  have hstored : a.stored.filter (fun p => own p.1) = [] := by
    cases a with
    | put t key e =>
      refine List.filter_eq_nil_iff.mpr fun p hp howned => ?_
      have hreached : (Action.put t key e).reaches p.1 := List.mem_singleton.mp hp ▸ beq_self_eq_true key
      rw [hspared p.1 howned] at hreached
      cases hreached
    | _ => rfl
  have hkept (p : String × Entry V) (hp : p ∈ s.entries.filter fun p => own p.1) : a.leaves p = some p :=
    Action.leaves_of_not_reaches (hspared p.1 (List.mem_filter.mp hp).2)
  rw [h.calm.act_entries h.ownsAll ha, List.filter_append, filter_leaves, hstored, List.append_nil,
    List.filterMap_congr hkept, List.filterMap_some, h.entries]

/-- A client finds the same value in both stores. -/
theorem get_result_eq (h : Share own s mine) (t : WallTime) {key : String} (hkey : own key) :
    (s.get t key).result = (mine.get t key).result := by
  rw [h.calm.get_result, h.calmMine.get_result, ← h.find?_eq hkey]
  cases hfind : s.find? key with
  | none => rfl
  | some e =>
    have he : e.isOwner := h.ownsAll _ (mem_of_lookup hfind)
    rw [Option.filter_some, Option.filter_some, Entry.isLive_of_isOwner he (s.moment []) (mine.moment [])]
    split
    · exact congrArg _ (Entry.cell_of_isOwner he _ _)
    · rfl

/-- The keys that a client reaches are the same in both stores, if it reaches no keys of others. -/
theorem keysLike_eq (h : Share own s mine) {pattern : String}
    (hreached : ∀ key ∈ s.keys, startsWith pattern key → own key) :
    s.keysLike pattern = mine.keysLike pattern := by
  have hkeys : mine.keys = s.keys.filter own := by
    rw [keys, ← h.entries, keys, List.filter_map]
    rfl
  rw [keysLike, keysLike, hkeys, List.filter_filter]
  refine List.filter_congr fun key hkey => ?_
  cases hlike : startsWith pattern key with
  | false => rfl
  | true => rw [hreached key hkey hlike]; rfl

/-- A call of the client that reaches no entries of others goes the same way in both stores. -/
theorem alike (h : Share own s mine) (ha : a.isCall) (hown : ∀ key, a.key? = some key → own key)
    (hreached : ∀ key ∈ s.keys, a.reaches key → own key) : Occasion.Alike ⟨s, a⟩ ⟨mine, a⟩ := by
  cases a with
  | put t key e =>
    obtain ⟨_, hs⟩ := h.calm.put_eq t key e
    obtain ⟨_, hmine⟩ := h.calmMine.put_eq t key e
    refine ⟨rfl, ?_, rfl, rfl⟩
    simp only [Occasion.answer, hs, hmine, Ran.done]
  | get t key =>
    have hresult := h.get_result_eq t (hown key rfl)
    have hfind := h.find?_eq (hown key rfl)
    have hhit : (Occasion.mk s (.get t key)).isHit = (Occasion.mk mine (.get t key)).isHit := by
      simp only [Occasion.isHit, hresult]
    refine ⟨rfl, ?_, hhit, ?_⟩
    · simp only [Occasion.answer, hresult]
    · simp only [Occasion.expired, Occasion.isExpiry, Occasion.swept, hhit, hfind]
  | uncache t key =>
    obtain ⟨_, hs⟩ := h.calm.uncache_eq t key
    obtain ⟨_, hmine⟩ := h.calmMine.uncache_eq t key
    refine ⟨rfl, ?_, rfl, rfl⟩
    simp only [Occasion.answer, hs, hmine, Ran.done]
  | uncacheLike t pattern =>
    obtain ⟨_, hs⟩ := h.calm.uncacheLike_eq t pattern
    obtain ⟨_, hmine⟩ := h.calmMine.uncacheLike_eq t pattern
    refine ⟨rfl, ?_, rfl, rfl⟩
    simp only [Occasion.answer, hs, hmine, Ran.done, h.keysLike_eq hreached]
  | _ => cases ha

end Share

section Clients

variable {ι : Type} [DecidableEq ι]

/-- What concerns one of several clients. -/
def ofClient {α : Type} (i : ι) (tagged : List (ι × α)) : List α :=
  (tagged.filter fun p => p.1 = i).map Prod.snd

theorem ofClient_cons_self {α : Type} (i : ι) (x : α) (rest : List (ι × α)) :
    ofClient i ((i, x) :: rest) = x :: ofClient i rest := by
  simp [ofClient]

theorem ofClient_cons_of_ne {α : Type} {i j : ι} (h : j ≠ i) (x : α) (rest : List (ι × α)) :
    ofClient i ((j, x) :: rest) = ofClient i rest := by
  simp [ofClient, h]

omit [DecidableEq ι] in
/-- The calls of several clients, one after the other, with the stores that they met. -/
def calls (s : Store V) : List (ι × Action V) → List (ι × Occasion V)
  | [] => []
  | (i, a) :: rest => (i, ⟨s, a⟩) :: (s.act a).calls rest

omit [DecidableEq ι] in
theorem map_snd_calls (s : Store V) (schedule : List (ι × Action V)) :
    (s.calls schedule).map Prod.snd = s.history (schedule.map Prod.snd) := by
  induction schedule generalizing s with
  | nil => rfl
  | cons p rest ih =>
    rw [calls, List.map_cons, ih]
    rfl

/-- The action is a call of a client about keys of its own, and stays away from those of the others. -/
structure KeepsTo (owns : ι → String → Bool) (i : ι) (a : Action V) : Prop where
  isCall : a.isCall
  own : ∀ key, a.key? = some key → owns i key
  away : ∀ j, j ≠ i → ∀ key, owns j key → a.reaches key = false

variable {owns : ι → String → Bool} {i : ι} {s mine : Store V}

/-- While every client keeps to its own keys, each has its share of the store, and its calls go the same
way as in a store of its own. -/
theorem Share.follow (h : Share (owns i) s mine) (howned : ∀ key ∈ s.keys, ∃ j, owns j key)
    {schedule : List (ι × Action V)} (hschedule : ∀ p ∈ schedule, KeepsTo owns p.1 p.2) :
    Share (owns i) (s.follow (schedule.map Prod.snd)) (mine.follow (ofClient i schedule))
      ∧ List.Forall₂ Occasion.Alike (ofClient i (s.calls schedule))
        (mine.history (ofClient i schedule)) := by
  induction schedule generalizing s mine with
  | nil => exact ⟨h, .nil⟩
  | cons p rest ih =>
    obtain ⟨j, a⟩ := p
    obtain ⟨hkeeps, hrest⟩ := List.forall_mem_cons.mp hschedule
    have howned' : ∀ key ∈ (s.act a).keys, ∃ j, owns j key := fun key hkey =>
      (h.calm.act_keys h.ownsAll hkeeps.isCall hkey).elim (howned key) fun hnamed =>
        ⟨j, hkeeps.own key hnamed⟩
    by_cases hj : j = i
    · subst hj
      have hreached (key : String) (hkey : key ∈ s.keys) (hreaches : a.reaches key) : owns j key := by
        obtain ⟨k, howner⟩ := howned key hkey
        by_contra hforeign
        have hne : k ≠ j := fun he => hforeign (he ▸ howner)
        rw [hkeeps.away k hne key howner] at hreaches
        cases hreaches
      obtain ⟨hshare, hsame⟩ := ih (h.act hkeeps.isCall hkeeps.own) howned' hrest
      rw [calls, ofClient_cons_self, ofClient_cons_self]
      exact ⟨hshare, .cons (h.alike hkeeps.isCall hkeeps.own hreached) hsame⟩
    · obtain ⟨hshare, hsame⟩ :=
        ih (h.act_other hkeeps.isCall (hkeeps.away i (Ne.symm hj))) howned' hrest
      rw [calls, ofClient_cons_of_ne hj, ofClient_cons_of_ne hj]
      exact ⟨hshare, hsame⟩

/-- What is divided among several owners adds up. -/
theorem sum_filter {α M : Type} [Fintype ι] [AddCommMonoid M] (f : α → M) (owner : ι → α → Bool)
    {l : List α} (hunique : ∀ x ∈ l, ∃! i, owner i x) :
    (l.map f).sum = ∑ i, ((l.filter (owner i)).map f).sum := by
  induction l with
  | nil => simp
  | cons x rest ih =>
    obtain ⟨⟨k, hk, honly⟩, hrest⟩ := List.forall_mem_cons.mp hunique
    have hshare (i : ι) : (((x :: rest).filter (owner i)).map f).sum
        = (if k = i then f x else 0) + ((rest.filter (owner i)).map f).sum := by
      by_cases hi : k = i
      · subst hi
        rw [List.filter_cons_of_pos hk, if_pos rfl]
        rfl
      · rw [List.filter_cons_of_neg fun howner => hi (honly i howner).symm, if_neg hi, zero_add]
    rw [List.map_cons, List.sum_cons, ih hrest, Finset.sum_congr rfl fun i _ => hshare i,
      Finset.sum_add_distrib, Finset.sum_ite_eq, if_pos (Finset.mem_univ k)]

end Clients

end Store

end TimedCache
