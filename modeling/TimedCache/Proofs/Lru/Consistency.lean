import TimedCache.Lru.Command
import TimedCache.Proofs.KeyedList
import TimedCache.Proofs.Lru.Slots

/-!
# The consistency of a bounded cache

A bounded cache is consistent when its slab is tidy and its map sends the key of each
occupied slot to that slot and holds nothing else. For a consistent cache every operation
comes down to one change of map and slab, after which the cache is consistent again, and
the calls of hooks that report it. Hooks touch neither map nor slab, so it makes no
difference at which call one of them panics.
-/

namespace TimedCache.Lru

variable {K V : Type}

/-- The slab is tidy and the map sends exactly the keys of the occupied slots to these slots. -/
structure Consistent (c : Lru K V) (order : List Nat) : Prop where
  tidy : c.slab.Tidy order
  keys : (c.map.map Prod.fst).Nodup
  mapped : ∀ {key i}, (key, i) ∈ c.map ↔ (c.slab.node? i).map Node.key = some key

/-- The key of a slot is part of its content. -/
theorem Slab.map_key_eq (s : Slab K V) (i : Nat) :
    (s.node? i).map Node.key = (s.content? i).map Prod.fst := by
  rw [content?, Option.map_map]
  rfl

variable {c c' : Lru K V} {order : List Nat}

/-- An empty cache is consistent. -/
theorem consistent_empty (capacity : Nat) : (empty capacity : Lru K V).Consistent [] :=
  ⟨Slab.tidy_empty, List.nodup_nil, by simp [empty, Slab.node?]⟩

/-- Consistency is a matter of map and slab. -/
theorem Consistent.congr (h : c.Consistent order) (hmap : c'.map = c.map)
    (hslab : c'.slab = c.slab) : c'.Consistent order :=
  ⟨hslab ▸ h.tidy, hmap ▸ h.keys, by rw [hmap, hslab]; exact h.mapped⟩

/-- Both the slots in order and the values of the map are the occupied slots. -/
theorem Consistent.perm (h : c.Consistent order) : (c.map.map Prod.snd).Perm order := by
  have hinj : ∀ p ∈ c.map, ∀ q ∈ c.map, p.2 = q.2 → p = q := by
    rintro ⟨key, i⟩ hp ⟨key', j⟩ hq (rfl : i = j)
    have he := (h.mapped.mp hp).symm.trans (h.mapped.mp hq)
    rw [Option.some.inj he]
  have hmap : c.map.Nodup := List.Nodup.of_map _ h.keys
  refine (List.perm_ext_iff_of_nodup (hmap.map_on hinj) h.tidy.spells.nodup).mpr fun i => ?_
  rw [List.mem_map, h.tidy.mem_iff]
  constructor
  · rintro ⟨⟨key, j⟩, hp, rfl⟩
    obtain ⟨n, hn, -⟩ := Option.map_eq_some_iff.mp (h.mapped.mp hp)
    exact ⟨n, hn⟩
  · rintro ⟨n, hn⟩
    exact ⟨(n.key, i), h.mapped.mpr (by rw [hn]; rfl), rfl⟩

/-- The cache has one entry for each slot in order. -/
theorem Consistent.size_eq (h : c.Consistent order) : c.size = order.length := by
  rw [size, ← h.perm.length_eq, List.length_map]

/-- Every slot is in the map or on the stack of vacant slots. -/
theorem Consistent.length_eq (h : c.Consistent order) :
    c.slab.slots.length = c.map.length + c.slab.free.length := by
  rw [h.tidy.length_eq, ← h.size_eq, size]

/-- There are slots for all entries. -/
theorem Consistent.size_le_slots (h : c.Consistent order) : c.size ≤ c.slab.slots.length := by
  rw [h.length_eq, size]
  exact Nat.le_add_right _ _

/-- The chain has a head exactly if there is an entry. -/
theorem Consistent.isSome_head_iff (h : c.Consistent order) : c.slab.head.isSome ↔ 0 < c.size := by
  rw [h.size_eq, h.tidy.spells.head]
  cases order <;> simp

variable [DecidableEq K]

/-- The map finds a key exactly in the slot that holds it. -/
theorem Consistent.lookup_eq_some_iff (h : c.Consistent order) {key : K} {i : Nat} :
    c.map.lookup key = some i ↔ ∃ n, c.slab.node? i = some n ∧ n.key = key := by
  rw [lookup_eq_some_iff_mem h.keys, h.mapped, Option.map_eq_some_iff]

/-- A key in the map has a node somewhere in the order. -/
theorem Consistent.exists_split (h : c.Consistent order) {key : K} {i : Nat}
    (hkey : c.map.lookup key = some i) :
    ∃ xs ys n, order = xs ++ i :: ys ∧ c.slab.node? i = some n ∧ n.key = key := by
  obtain ⟨n, hn, hk⟩ := h.lookup_eq_some_iff.mp hkey
  obtain ⟨xs, ys, horder⟩ := List.append_of_mem (h.tidy.occupied hn)
  exact ⟨xs, ys, n, horder, hn, hk⟩

/-- Whatever becomes of a hook call, it leaves map and slab alone. -/
theorem notify_state (c : Lru K V) (e : Event K) :
    ∃ alarms log, (c.notify e).state = { c with alarms, log } := by
  unfold notify
  dsimp only
  split
  · exact ⟨_, _, rfl⟩
  · exact ⟨_, _, rfl⟩

/-- Telling of a transition leaves map and slab alone. -/
theorem announce_state (c : Lru K V) (phase : Phase) (listener : Option Name) (key : K) :
    ∃ alarms log, (c.announce phase listener key).state = { c with alarms, log } := by
  unfold announce Ran.andThen
  obtain ⟨alarms, log, hs⟩ := notify_state c ⟨.listener, listener, phase, key⟩
  split
  · obtain ⟨alarms', log', hs'⟩ := notify_state (c.notify ⟨.listener, listener, phase, key⟩).state
      ⟨.observer, (c.notify ⟨.listener, listener, phase, key⟩).state.observer, phase, key⟩
    exact ⟨alarms', log', by rw [hs', hs]⟩
  · exact ⟨alarms, log, hs⟩

omit [DecidableEq K] in
/-- Moving a slot to the end of the order. -/
theorem Consistent.refresh {xs ys : List Nat} {i : Nat} (h : c.Consistent (xs ++ i :: ys)) :
    ∃ slab, c.refresh? i = some slab ∧ ({ c with slab }).Consistent (xs ++ ys ++ [i]) ∧
      c.slab.Relinked slab := by
  obtain ⟨slab, hslab, htidy, hrel⟩ := h.tidy.refresh
  refine ⟨slab, hslab, ⟨htidy, h.keys, fun {key j} => ?_⟩, hrel⟩
  rw [h.mapped, Slab.map_key_eq, Slab.map_key_eq, hrel.content]

/-- A key that is present is read by moving its slot to the end. -/
theorem Consistent.get_eq {xs ys : List Nat} {i : Nat} {n : Node K V}
    (h : c.Consistent (xs ++ i :: ys)) (hn : c.slab.node? i = some n) :
    ∃ slab, c.get n.key = .done { c with slab } (some n.value) ∧
      ({ c with slab }).Consistent (xs ++ ys ++ [i]) ∧ c.slab.Relinked slab := by
  have hkey := h.lookup_eq_some_iff.mpr ⟨n, hn, rfl⟩
  by_cases htail : c.slab.tail = some i
  · -- The shortcut for the tail leaves the slab alone, and moving the last slot would too.
    obtain rfl := h.tidy.spells.eq_nil_of_tail htail
    refine ⟨c.slab, ?_, by rwa [List.append_nil], ⟨fun _ => rfl, rfl, rfl⟩⟩
    simp [get, hkey, htail, withSlab, hn]
  · obtain ⟨slab, hslab, hc, hrel⟩ := h.refresh
    obtain ⟨m, hm, -, hvalue, -⟩ :=
      Slab.node?_of_content? ((hrel.content i).trans (Slab.content?_of_node? hn))
    refine ⟨slab, ?_, hc, hrel⟩
    simp [get, hkey, htail, withSlab, hslab, hm, hvalue]

/-- Replacing the value of a present key changes its slot, moves the slot to the end, and then
tells the hooks of the old value before those of the new one. -/
theorem Consistent.replace_eq {xs ys : List Nat} {i : Nat} {n : Node K V}
    (h : c.Consistent (xs ++ i :: ys)) (hn : c.slab.node? i = some n) (value : V)
    (listener : Option Name) :
    ∃ slab, c.replace i n.key value listener =
        (({ c with slab }).announce .uncached n.listener n.key).andThen (fun c _ =>
          (c.announce .cached listener n.key).andThen fun c _ => .done c (some n.value)) ∧
      ({ c with slab }).Consistent (xs ++ ys ++ [i]) ∧
      (∀ j, slab.content? j = if j = i then some (n.key, value, listener) else c.slab.content? j) ∧
      slab.slots.length = c.slab.slots.length := by
  obtain ⟨slab₁, hslab₁, hc₁, hrel⟩ := h.refresh
  obtain ⟨m, hm, hk, hv, hl⟩ :=
    Slab.node?_of_content? ((hrel.content i).trans (Slab.content?_of_node? hn))
  obtain ⟨slab₂, hslab₂, htidy, hcontent, hlength⟩ := hc₁.tidy.update hm value listener
  refine ⟨slab₂, ?_, ⟨htidy, h.keys, fun {key j} => ?_⟩, fun j => ?_, hlength.trans hrel.length⟩
  · simp [replace, withSlab, hslab₁, hm, hslab₂, hv, hl]
  · rw [h.mapped, Slab.map_key_eq, Slab.map_key_eq, hcontent]
    by_cases he : j = i
    · simp [he, hk, Slab.content?_of_node? hn]
    · rw [if_neg he, hrel.content]
  · rw [hcontent, hk, hrel.content]

/-- The cache with a new key at its end, before anybody is told and anything is evicted. -/
def inserted? (c : Lru K V) (key : K) (value : V) (listener : Option Name) : Option (Lru K V) :=
  let (slab, i) := c.slab.occupy { key, value, listener }
  (slab.attachTail? i).map fun slab => { c with slab, map := c.map ++ [(key, i)] }

/-- Inserting a new key fills a slot at the end, tells the hooks, and then evicts. -/
theorem Consistent.insertNew_eq (h : c.Consistent order) {key : K} (hkey : c.map.lookup key = none)
    (value : V) (listener : Option Name) :
    ∃ slab i, c.inserted? key value listener = some { c with slab, map := c.map ++ [(key, i)] } ∧
      c.insertNew key value listener =
        (({ c with slab, map := c.map ++ [(key, i)] }).announce .cached listener key).andThen
          (fun c _ => c.shrink.andThen fun c _ => .done c none) ∧
      ({ c with slab, map := c.map ++ [(key, i)] }).Consistent (order ++ [i]) ∧
      (∀ j, slab.content? j = if j = i then some (key, value, listener) else c.slab.content? j) ∧
      slab.slots.length = max c.slab.slots.length (c.size + 1) := by
  obtain ⟨slab₁, slab₂, i, hocc, hslab₂, hnone, htidy, hcontent, hlength⟩ :=
    h.tidy.insert { key, value, listener }
  refine ⟨slab₂, i, by simp [inserted?, hocc, hslab₂], by simp [insertNew, hocc, withSlab, hslab₂],
    ⟨htidy, nodup_keys_concat h.keys (lookup_eq_none_iff_not_mem.mp hkey) i, fun {key' j} => ?_⟩,
    hcontent, h.size_eq ▸ hlength⟩
  rw [List.mem_append, h.mapped, Slab.map_key_eq, Slab.map_key_eq, hcontent, List.mem_singleton]
  by_cases he : j = i
  · have hfree : c.slab.content? i = none := Slab.content?_eq_none_iff.mpr hnone
    simp [he, hfree, eq_comm]
  · simp [he]

/-- Taking a key out of the map and releasing its slot erases it, and then tells the hooks. -/
theorem Consistent.release_eq {xs ys : List Nat} {i : Nat} {n : Node K V}
    (h : c.Consistent (xs ++ i :: ys)) (hn : c.slab.node? i = some n) :
    ∃ slab, (c.unmap n.key).release i =
        (({ c.unmap n.key with slab }).announce .uncached n.listener n.key).andThen
          (fun c _ => .done c n.value) ∧
      ({ c.unmap n.key with slab }).Consistent (xs ++ ys) ∧
      (∀ j, slab.content? j = if j = i then none else c.slab.content? j) ∧
      slab.slots.length = c.slab.slots.length := by
  obtain ⟨slab₁, slab₂, m, hslab₁, hslab₂, hm, htidy, hcontent, hlength⟩ := h.tidy.drop
  rw [Slab.content?_of_node? hn] at hm
  simp only [Option.some.injEq, Prod.mk.injEq] at hm
  obtain ⟨hk, hv, hl⟩ := hm
  refine ⟨slab₂, ?_, ⟨htidy, nodup_keys_filter h.keys _, fun {key j} => ?_⟩, hcontent, hlength⟩
  · have hdetach : (c.unmap n.key).slab.detach? i = some slab₁ := hslab₁
    simp only [release, withSlab, hdetach, hslab₂, ← hk, ← hv, ← hl]
  · rw [unmap, List.mem_filter, h.mapped, Slab.map_key_eq, Slab.map_key_eq, hcontent]
    by_cases he : j = i
    · simp only [he, Slab.content?_of_node? hn, ↓reduceIte, Option.map_some, Option.map_none,
        Option.some.injEq, reduceCtorEq, iff_false, not_and, bne_iff_ne, ne_eq, not_not]
      exact Eq.symm
    · -- A key has one slot, so another slot does not hold the key that leaves the map.
      have hne (hj : (c.slab.content? j).map Prod.fst = some n.key) : j = i := by
        rw [← Slab.map_key_eq, ← h.mapped, ← lookup_eq_some_iff_mem h.keys,
          h.lookup_eq_some_iff.mpr ⟨n, hn, rfl⟩] at hj
        exact (Option.some.inj hj).symm
      simp only [he, ↓reduceIte, and_iff_left_iff_imp]
      intro hj
      simpa using fun hkn : key = n.key => he (hne (hkn ▸ hj))

/-- Removing a present key is releasing its slot. -/
theorem Consistent.remove_eq (h : c.Consistent order) {i : Nat} {n : Node K V}
    (hn : c.slab.node? i = some n) :
    c.remove n.key = ((c.unmap n.key).release i).andThen fun c v => .done c (some v) := by
  rw [remove, h.lookup_eq_some_iff.mpr ⟨n, hn, rfl⟩]

/-- Evicting is releasing the first slot in order. -/
theorem Consistent.evict_eq {i : Nat} {ys : List Nat} {n : Node K V} (h : c.Consistent (i :: ys))
    (hn : c.slab.node? i = some n) :
    c.evict = ((c.unmap n.key).release i).andThen fun c _ => .done c () := by
  have hhead : c.slab.head = some i := h.tidy.spells.head
  simp only [evict, hhead, hn]

/-- There is nothing to evict from a cache without slots in order. -/
theorem Consistent.evict_nil (h : c.Consistent []) : c.evict = .done c () := by
  have hhead : c.slab.head = none := h.tidy.spells.head
  rw [evict, hhead]

end TimedCache.Lru
