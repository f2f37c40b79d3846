import Mathlib.Data.List.DropRight
import TimedCache.Proofs.Lru.Course

/-!
# Evicting in rounds

To insert a new key is to evict in rounds while there are too many keys in the map, and to clear is to evict
in rounds while there is a head. The rounds of these loops are described here without a bound on their
number: from any cache that a run leads to, also one that panics left far above its capacity, they come to
an end. In each of them there is a head, and one key less in the map afterwards. What the loops leave are
the most recently used entries, as many as may stay.
-/

namespace TimedCache.Lru

variable {K V : Type} [DecidableEq K]

/-- Evicting in rounds while a condition holds, by the caches in which a round begins and by how it ends. A
panic ends it in the middle of a round. -/
inductive Evicting (condition : Lru K V → Bool) : Lru K V → List (Lru K V) → Op K V Unit → Prop where
  | stop {c : Lru K V} (hstop : condition c = false) : Evicting condition c [] (.done c ())
  | round {c c' : Lru K V} {rounds : List (Lru K V)} {ran : Op K V Unit} (hgo : condition c = true)
    (hevict : c.evict = .done c' ()) (hrest : Evicting condition c' rounds ran) :
    Evicting condition c (c :: rounds) ran
  | panic {c c' : Lru K V} {p : Panic K} (hgo : condition c = true) (hevict : c.evict = ⟨c', .error p⟩) :
    Evicting condition c [c] ⟨c', .error p⟩

/-- Evicting in rounds comes to an end, and each round does what it is for. -/
structure Terminates (condition : Lru K V → Bool) (c : Lru K V) (rounds : List (Lru K V))
    (ran : Op K V Unit) : Prop where
  evicting : Evicting condition c rounds ran
  /-- A round finds a head, and takes one key out of the map. -/
  progress : ∀ d ∈ rounds, d.slab.head.isSome ∧ d.evict.state.size + 1 = d.size
  /-- From round to round the first entry is gone. -/
  oldest : rounds.map entries = c.entries.tails.take rounds.length
  /-- What is left are all entries but the first ones, one for each round. -/
  entries : ran.state.entries = c.entries.drop rounds.length

/-- Where the condition fails there are no rounds. -/
theorem Terminates.stop {condition : Lru K V → Bool} {c : Lru K V} (hstop : condition c = false) :
    Terminates condition c [] (.done c ()) :=
  ⟨.stop hstop, List.forall_mem_nil _, rfl, rfl⟩

/-- Adds a new key at the end and tells its hooks, which is all that comes before the evictions. -/
def welcome (c : Lru K V) (key : K) (value : V) (listener : Option Name) : Op K V Unit :=
  ((c.inserted? key value listener).getD c).announce .cached listener key

namespace Holds

variable {capacity : Nat} {l : Recency K (V × Option Name)} {c : Lru K V}

/-- A round finds a head and takes one key out of the map, and a panic comes after that. -/
theorem progress {e : K × V × Option Name} (h : Holds capacity (e :: l) c) :
    c.slab.head.isSome ∧ c.evict.state.size + 1 = c.size := by
  refine ⟨h.isSome_head_iff.mpr (Nat.succ_pos _), ?_⟩
  rw [← h.length_eq, ← h.evict.holds.length_eq, List.length_cons]

/-- A round that a hook cuts short is the last one. -/
theorem terminates_panic {condition : Lru K V → Bool} {e : K × V × Option Name} {p : Panic K}
    (h : Holds capacity (e :: l) c) (hgo : condition c = true) (hresult : c.evict.result = .error p) :
    Terminates condition c [c] ⟨c.evict.state, .error p⟩ where
  evicting := .panic hgo (by rw [← hresult])
  progress := by simpa using h.progress
  oldest := by simp [h.entries]
  entries := h.evict.holds.entries.trans (by simp [h.entries])

/-- A round comes before all others. -/
theorem terminates_round {condition : Lru K V → Bool} {e : K × V × Option Name} {u : Unit}
    {rounds : List (Lru K V)} {ran : Op K V Unit} (h : Holds capacity (e :: l) c)
    (hgo : condition c = true) (hresult : c.evict.result = .ok u)
    (hrest : Terminates condition c.evict.state rounds ran) : Terminates condition c (c :: rounds) ran where
  evicting := .round hgo (by rw [Ran.done, ← hresult]) hrest.evicting
  progress := List.forall_mem_cons.mpr ⟨h.progress, hrest.progress⟩
  oldest := by
    rw [List.map_cons, hrest.oldest, h.evict.holds.entries, h.entries]
    rfl
  entries := by
    rw [hrest.entries, h.evict.holds.entries, h.entries]
    rfl

/-- Evicting while there are more entries than a bound, with fuel for each entry beyond it, is evicting in
rounds that come to an end. -/
theorem terminates {condition : Lru K V → Bool} {bound fuel : Nat}
    (hcondition : ∀ (c : Lru K V) l, Holds capacity l c → (condition c ↔ bound < l.length))
    (h : Holds capacity l c) (hfuel : l.length ≤ bound + fuel) :
    ∃ rounds, Terminates condition c rounds (Lru.evictWhile condition fuel c) := by
  induction fuel generalizing c l with
  | zero =>
    have hstop := (hcondition c l h).not.mpr (Nat.not_lt.mpr hfuel)
    exact ⟨[], .stop (Bool.not_eq_true _ |>.mp hstop)⟩
  | succ fuel ih =>
    rw [Lru.evictWhile]
    split
    · next hgo =>
      have hlt := (hcondition c l h).mp hgo
      obtain ⟨e, rest, rfl⟩ := List.exists_cons_of_length_pos (Nat.zero_lt_of_lt hlt)
      rw [List.length_cons] at hfuel
      cases hresult : c.evict.result with
      | error p =>
        rw [Ran.andThen_of_error hresult]
        exact ⟨[c], h.terminates_panic hgo hresult⟩
      | ok u =>
        obtain ⟨rounds, hrest⟩ := ih h.evict.holds (by omega)
        rw [Ran.andThen_of_ok hresult]
        exact ⟨c :: rounds, h.terminates_round hgo hresult hrest⟩
    · next hstop => exact ⟨[], .stop (Bool.not_eq_true _ |>.mp hstop)⟩

omit [DecidableEq K] in
/-- A cache that holds its entries lists them. -/
theorem lists (h : Holds capacity c.entries c) : Lists capacity c.toList c :=
  ⟨h.consistent, h.capacity, rfl⟩

/-- What comes before the evictions adds the new entry at the end and makes the call that tells of it. -/
theorem welcome (h : Holds capacity l c) {key : K} (hkey : l.lookup key = none) (value : V)
    (listener : Option Name) :
    Makes capacity c.observer c.log [⟨listener, .cached, key⟩] (l ++ [(key, value, listener)])
        (c.welcome key value listener)
      ∧ c.put key value listener = (c.welcome key value listener).andThen fun c _ =>
        c.shrink.andThen fun c _ => .done c none := by
  obtain ⟨map, slab, hinserted, hholds, hput⟩ := h.put_absent hkey value listener
  have hwelcome : c.welcome key value listener =
      ({ c with map, slab } : Lru K V).announce .cached listener key := by
    rw [Lru.welcome, hinserted, Option.getD_some]
  rw [hwelcome]
  exact ⟨hholds.announce .cached listener key, hput⟩

end Holds

omit [DecidableEq K] in
/-- Where nothing is listed there is nothing in the map, and the chain has no ends. -/
theorem Lists.of_nil {capacity : Nat} {c : Lru K V} (h : Lists capacity [] c) :
    c.map = [] ∧ c.slab.head = none ∧ c.slab.tail = none := by
  obtain ⟨⟨order, hc⟩, -, hlist⟩ := h
  have hsize : c.size = 0 := by rw [← hc.length_toList, hlist, List.length_nil]
  obtain rfl : order = [] := List.length_eq_zero_iff.mp (hc.size_eq.symm.trans hsize)
  exact ⟨List.length_eq_zero_iff.mp hsize, hc.tidy.spells.head, hc.tidy.spells.tail⟩

omit [DecidableEq K] in
/-- A command that no hook interrupted did not panic at any call. -/
theorem Reply.panicPhase?_of_calm {reply : Reply K V} (h : reply.interrupted = false) :
    reply.panicPhase? = none := by
  cases reply with
  | panicked p =>
    cases p with
    | armed who phase key => cases h
    | vacantSlot i => rfl
  | nothing | value | flag => rfl

/-- How a cache gets back within its capacity, and how it gets rid of everything. -/
structure Repairs (c : Lru K V) : Prop where
  /-- Putting a new key adds an entry at the end, tells its hooks, and then evicts while there are too many
  keys, in rounds that come to an end whatever becomes of the hooks. -/
  insertion : ∀ key value listener, c.contains key = false →
    c.put key value listener = ((c.welcome key value listener).andThen fun c _ =>
        c.shrink.andThen fun c _ => .done c none)
      ∧ ∀ entered, c.welcome key value listener = .done entered () →
        entered.entries = c.entries ++ [(key, value, listener)]
          ∧ ∃ rounds, Terminates isOverfull entered rounds entered.shrink
  /-- If no hook panics, the most recently used entries are left, as many as there are or may be. The others
  are told that they are gone, the least recently used one first. -/
  bound : ∀ key value listener, c.contains key = false →
    (c.step (.put key value listener)).2.interrupted = false →
    (c.step (.put key value listener)).2 = .value none
      ∧ (c.step (.put key value listener)).1.toList
        = (c.toList ++ [(key, value)]).rtake (min (c.size + 1) c.capacity)
      ∧ (c.step (.put key value listener)).1.log = c.log ++ (⟨listener, .cached, key⟩
        :: ((c.entries ++ [(key, value, listener)]).take (c.size + 1 - c.capacity)).map farewell).flatMap
          (paired c.observer)
  /-- Clearing evicts while there is a head, in rounds that come to an end whatever becomes of the hooks. -/
  clearing : ∃ rounds, Terminates (fun c => c.slab.head.isSome) c rounds c.clear
  /-- If no hook panics, nothing is left in the map or in the chain, and all entries are told in order that
  they are gone. -/
  emptied : (c.step .clear).2.interrupted = false →
    (c.step .clear).2 = .nothing
      ∧ (c.step .clear).1.map = [] ∧ (c.step .clear).1.toList = []
      ∧ (c.step .clear).1.slab.head = none ∧ (c.step .clear).1.slab.tail = none
      ∧ (c.step .clear).1.log = c.log ++ (c.entries.map farewell).flatMap (paired c.observer)

namespace Holds

variable {capacity : Nat} {l : Recency K (V × Option Name)} {c : Lru K V}

/-- A key that is not in the cache has no entry. -/
theorem lookup_of_absent (h : Holds capacity l c) {key : K} (hkey : c.contains key = false) :
    l.lookup key = none := by
  rw [← h.isSome_lookup, Option.isSome_eq_false_iff] at hkey
  exact Option.isNone_iff_eq_none.mp hkey

/-- A put that no hook interrupts leaves the end of the list, as much of it as may stay. -/
theorem put_bound (h : Holds capacity c.entries c) {key : K} (hkey : c.contains key = false) (value : V)
    (listener : Option Name) (hcalm : (c.step (.put key value listener)).2.interrupted = false) :
    (c.step (.put key value listener)).2 = .value none
      ∧ (c.step (.put key value listener)).1.toList
        = (c.toList ++ [(key, value)]).rtake (min (c.size + 1) capacity) := by
  obtain ⟨order, hc⟩ := h.consistent
  have habsent : c.toList.lookup key = none := by
    rw [← Option.isNone_iff_eq_none, ← Option.isSome_eq_false_iff, hc.isSome_lookup_toList, hkey]
  obtain ⟨hafter, hreply⟩ := h.lists.step _ hcalm
  refine ⟨hreply.trans (congrArg Reply.value habsent), hafter.2.2.trans ?_⟩
  change Recency.put capacity c.toList key value = _
  rw [Recency.put, habsent, Recency.trim, List.rtake, List.length_append, List.length_singleton,
    hc.length_toList, Option.isSome_none, if_neg Bool.false_ne_true]
  congr 1
  omega

/-- From a cache that holds its entries, evictions come to an end and bring it within its capacity. -/
theorem repairs (h : Holds capacity c.entries c) : Repairs c where
  insertion key value listener hkey := by
    obtain ⟨hwelcome, hput⟩ := h.welcome (h.lookup_of_absent hkey) value listener
    refine ⟨hput, fun entered hentered => ?_⟩
    have hholds := hwelcome.holds
    rw [hentered] at hholds
    exact ⟨hholds.entries, hholds.terminates (fun _ _ h => h.isOverfull_iff)
      (hholds.length_eq ▸ Nat.le_add_left entered.size capacity)⟩
  bound key value listener hkey hcalm := by
    obtain ⟨hreply, hlist⟩ := h.put_bound hkey value listener hcalm
    obtain ⟨made, hcourse⟩ := h.course (.put key value listener)
    have hlog := (hcourse.returned (Reply.panicPhase?_of_calm hcalm)).2
    rw [due_insert capacity (h.lookup_of_absent hkey), h.length_eq] at hlog
    rw [h.capacity]
    exact ⟨hreply, hlist, hlog⟩
  clearing := h.terminates (fun _ _ h => h.isSome_head_iff) ((Nat.zero_add _).symm ▸ h.length_le_slots)
  emptied hcalm := by
    obtain ⟨hafter, hreply⟩ := h.lists.step .clear hcalm
    obtain ⟨made, hcourse⟩ := h.course .clear
    obtain ⟨hmap, hhead, htail⟩ := Lists.of_nil hafter
    exact ⟨hreply, hmap, hafter.2.2, hhead, htail,
      (hcourse.returned (Reply.panicPhase?_of_calm hcalm)).2⟩

end Holds

/-- Whatever commands were carried out and wherever hooks panicked, evicting for a new key comes to an end,
and brings the cache back within its capacity if no hook panics then: it keeps the most recently used
entries and gives up the others, the least recently used one first. Clearing comes to an end, too, and gives
up all entries in order. -/
theorem eviction_repairs (capacity : Nat) (commands : List (Command K V)) :
    Repairs ((empty capacity).run commands) := by
  have hempty : Holds capacity (empty capacity : Lru K V).entries (empty capacity) := .empty capacity
  exact (hempty.run commands).repairs

/-- Two insertions are cut short and leave three entries where one may be. The next one returns: three
entries are evicted, and the new one stays. -/
theorem eviction_repairs_overfull :
    let c : Lru Nat Nat := (empty 1).run [.put 1 10 (some "a"), .arm ⟨"b", .cached, none⟩,
      .arm ⟨"b", .cached, none⟩, .put 2 20 (some "b"), .put 3 30 (some "b")]
    c.toList = [(1, 10), (2, 20), (3, 30)] ∧ Repairs c
      ∧ (c.step (.put 4 40 none)).1.toList = [(4, 40)] := by
  intro c
  have hrepairs : Repairs c := eviction_repairs 1 _
  exact ⟨by decide, hrepairs, (hrepairs.bound 4 40 none (by decide) (by decide)).2.1⟩

end TimedCache.Lru
