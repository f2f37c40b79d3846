import TimedCache.Proofs.Lru.Listing
import TimedCache.Proofs.Lru.Recency

/-!
# The entries of a bounded cache

Read from head to tail with the listeners of its values, a consistent cache is a recency list whose
values are pairs. Every operation changes that list at once, as the operation of the same name does with
a recency list, and only then are hooks called. So wherever a panic stops an operation, the entries are
those of the last change before it.
-/

namespace TimedCache.Lru

variable {K V : Type}

/-- Keys, values and listeners from the least to the most recently used entry. -/
def entries (c : Lru K V) : Recency K (V × Option Name) :=
  c.slab.chain.map fun n => (n.key, n.value, n.listener)

/-- The cache is consistent, and has a certain capacity and certain entries. -/
structure Holds (capacity : Nat) (l : Recency K (V × Option Name)) (c : Lru K V) : Prop where
  consistent : ∃ order, c.Consistent order
  capacity : c.capacity = capacity
  entries : c.entries = l

variable {c c' : Lru K V} {order : List Nat}

/-- The list shows the keys and values of the entries. -/
theorem toList_eq_map (c : Lru K V) : c.toList = c.entries.map fun p => (p.1, p.2.1) := by
  rw [toList, entries, List.map_map]
  rfl

/-- The keys of the entries are those that are listed. -/
theorem keys_entries (c : Lru K V) : c.entries.map Prod.fst = c.toList.map Prod.fst := by
  rw [toList_eq_map, List.map_map]
  rfl

/-- The entries are the contents of the slots in order. -/
theorem Consistent.entries_eq (h : c.Consistent order) :
    c.entries = order.filterMap c.slab.content? := by
  rw [entries, h.chain_eq, List.map_filterMap]
  rfl

/-- The entries around a slot that is known. -/
theorem Consistent.entries_split {xs ys : List Nat} {i : Nat} {n : Node K V}
    (h : c.Consistent (xs ++ i :: ys)) (hn : c.slab.node? i = some n) :
    c.entries = xs.filterMap c.slab.content?
      ++ (n.key, n.value, n.listener) :: ys.filterMap c.slab.content? := by
  rw [h.entries_eq, List.filterMap_append, List.filterMap_cons, Slab.content?_of_node? hn]

/-- Where the contents of all slots but one are the same, so are the entries around that one. -/
theorem Consistent.contents_congr {xs ys : List Nat} {i : Nat} {slab : Slab K V}
    (h : c.Consistent (xs ++ i :: ys)) (hcontent : ∀ j, j ≠ i → slab.content? j = c.slab.content? j) :
    (xs ++ ys).filterMap slab.content?
      = xs.filterMap c.slab.content? ++ ys.filterMap c.slab.content? :=
  h.tidy.spells.filterMap_congr hcontent

namespace Holds

variable {capacity : Nat} {l : Recency K (V × Option Name)}

/-- An empty cache has no entries. -/
theorem empty (capacity : Nat) : Holds capacity [] (Lru.empty capacity : Lru K V) :=
  ⟨⟨[], consistent_empty capacity⟩, rfl, rfl⟩

/-- Entries are a matter of map and slab. -/
theorem congr (h : Holds capacity l c) (hmap : c'.map = c.map) (hslab : c'.slab = c.slab)
    (hcapacity : c'.capacity = c.capacity) : Holds capacity l c' := by
  obtain ⟨⟨order, hc⟩, hcap, hl⟩ := h
  refine ⟨⟨order, hc.congr hmap hslab⟩, hcapacity.trans hcap, ?_⟩
  rw [Lru.entries, hslab]
  exact hl

theorem nodup (h : Holds capacity l c) : (l.map Prod.fst).Nodup := by
  obtain ⟨order, hc⟩ := h.consistent
  rw [← h.entries, keys_entries]
  exact hc.nodup_toList

/-- There is one entry for each key in the map. -/
theorem length_eq (h : Holds capacity l c) : l.length = c.size := by
  obtain ⟨order, hc⟩ := h.consistent
  rw [← h.entries, ← hc.length_toList, toList_eq_map, List.length_map]

/-- The cache holds more than it may exactly if there are more entries than that. -/
theorem isOverfull_iff (h : Holds capacity l c) : c.isOverfull ↔ capacity < l.length := by
  rw [isOverfull, decide_eq_true_iff, h.capacity, h.length_eq]

/-- The chain has a head exactly if there is an entry. -/
theorem isSome_head_iff (h : Holds capacity l c) : c.slab.head.isSome ↔ 0 < l.length := by
  obtain ⟨order, hc⟩ := h.consistent
  rw [h.length_eq]
  exact hc.isSome_head_iff

/-- There are slots for all entries. -/
theorem length_le_slots (h : Holds capacity l c) : l.length ≤ c.slab.slots.length := by
  obtain ⟨order, hc⟩ := h.consistent
  rw [h.length_eq]
  exact hc.size_le_slots

variable [DecidableEq K] {key : K} {value : V} {listener : Option Name}

/-- A key is present exactly if there is an entry under it. -/
theorem isSome_lookup (h : Holds capacity l c) (key : K) : (l.lookup key).isSome = c.contains key := by
  obtain ⟨order, hc⟩ := h.consistent
  rw [← hc.isSome_lookup_toList, toList_eq_map, h.entries,
    lookup_map_value l fun p => p.2.1, Option.isSome_map]

/-- Without an entry the map does not have the key. -/
theorem lookup_map (h : Holds capacity l c) (hkey : l.lookup key = none) : c.map.lookup key = none := by
  have hcontains := h.isSome_lookup key
  rw [hkey, contains] at hcontains
  exact Option.isSome_eq_false_iff.mp hcontains.symm |> Option.isNone_iff_eq_none.mp

/-- The slot of an entry, in the order of all slots. -/
theorem exists_slot (h : Holds capacity l c) (hkey : l.lookup key = some (value, listener)) :
    ∃ xs ys i n, c.Consistent (xs ++ i :: ys) ∧ c.slab.node? i = some n ∧ c.map.lookup key = some i
      ∧ n.key = key ∧ n.value = value ∧ n.listener = listener
      ∧ Recency.remove l key = xs.filterMap c.slab.content? ++ ys.filterMap c.slab.content? := by
  obtain ⟨order, hc⟩ := h.consistent
  have hcontains := h.isSome_lookup key
  rw [hkey, contains] at hcontains
  obtain ⟨i, hi⟩ := Option.isSome_iff_exists.mp hcontains.symm
  obtain ⟨xs, ys, n, rfl, hn, rfl⟩ := hc.exists_split hi
  have hsplit := hc.entries_split hn
  have hnodup := h.nodup
  rw [h.entries] at hsplit
  rw [hsplit] at hnodup hkey
  have hfound := (lookup_eq_some_iff_mem hnodup).mpr
    (List.mem_append_right _ (List.mem_cons_self (a := (n.key, n.value, n.listener))))
  obtain ⟨rfl, rfl⟩ := Prod.mk.inj (Option.some.inj (hfound.symm.trans hkey))
  exact ⟨xs, ys, i, n, hc, hn, hi, rfl, rfl, rfl, hsplit ▸ Recency.remove_split hnodup⟩

/-- Reading a key that is absent changes nothing. -/
theorem get_absent (h : Holds capacity l c) (hkey : l.lookup key = none) :
    c.get key = .done c none := by
  rw [get, h.lookup_map hkey]

/-- Reading a key that is present moves its entry to the end. -/
theorem get_present (h : Holds capacity l c) (hkey : l.lookup key = some (value, listener)) :
    ∃ slab, Holds capacity (Recency.use l key (value, listener)) { c with slab }
      ∧ c.get key = .done { c with slab } (some value) := by
  obtain ⟨xs, ys, i, n, hc, hn, -, rfl, rfl, rfl, hremoved⟩ := h.exists_slot hkey
  obtain ⟨slab, hget, hc', hrel⟩ := hc.get_eq hn
  refine ⟨slab, ⟨⟨_, hc'⟩, h.capacity, ?_⟩, hget⟩
  rw [hc'.entries_eq, List.filterMap_append]
  change (xs ++ ys).filterMap slab.content? ++ [i].filterMap slab.content? = _
  rw [hc.contents_congr fun j _ => hrel.content j, Recency.use, hremoved, List.filterMap_cons,
    hrel.content, Slab.content?_of_node? hn, List.filterMap_nil]

/-- Putting a key that is present changes its entry, moves it to the end, and then tells the hooks of
the old value before those of the new one. -/
theorem put_present (h : Holds capacity l c) {old : V} {oldListener : Option Name}
    (hkey : l.lookup key = some (old, oldListener)) (value : V) (listener : Option Name) :
    ∃ slab, Holds capacity (Recency.use l key (value, listener)) { c with slab }
      ∧ c.put key value listener
        = (({ c with slab }).announce .uncached oldListener key).andThen fun c _ =>
          (c.announce .cached listener key).andThen fun c _ => .done c (some old) := by
  obtain ⟨xs, ys, i, n, hc, hn, hi, rfl, rfl, rfl, hremoved⟩ := h.exists_slot hkey
  obtain ⟨slab, hreplace, hc', hcontent, -⟩ := hc.replace_eq hn value listener
  refine ⟨slab, ⟨⟨_, hc'⟩, h.capacity, ?_⟩, by rw [put, hi]; exact hreplace⟩
  rw [hc'.entries_eq, List.filterMap_append]
  change (xs ++ ys).filterMap slab.content? ++ [i].filterMap slab.content? = _
  rw [hc.contents_congr fun j hj => (hcontent j).trans (if_neg hj), Recency.use, hremoved,
    List.filterMap_cons, hcontent, if_pos rfl, List.filterMap_nil]

/-- Putting a key that is absent adds an entry at the end, tells its hooks, and then evicts. -/
theorem put_absent (h : Holds capacity l c) (hkey : l.lookup key = none) (value : V)
    (listener : Option Name) :
    ∃ map slab, c.inserted? key value listener = some { c with map, slab }
      ∧ Holds capacity (l ++ [(key, value, listener)]) { c with map, slab }
      ∧ c.put key value listener
        = (({ c with map, slab }).announce .cached listener key).andThen fun c _ =>
          c.shrink.andThen fun c _ => .done c none := by
  obtain ⟨order, hc⟩ := h.consistent
  have hmap := h.lookup_map hkey
  obtain ⟨slab, i, hinserted, hinsert, hc', hcontent, -⟩ := hc.insertNew_eq hmap value listener
  refine ⟨_, slab, hinserted, ⟨⟨_, hc'⟩, h.capacity, ?_⟩, by rw [put, hmap]; exact hinsert⟩
  have hi := (List.nodup_append.mp hc'.tidy.spells.nodup).2.2
  have hnew : [i].filterMap slab.content? = [(key, value, listener)] := by
    rw [List.filterMap_cons, hcontent, if_pos rfl, List.filterMap_nil]
  rw [hc'.entries_eq, ← h.entries, hc.entries_eq, List.filterMap_append]
  change order.filterMap slab.content? ++ [i].filterMap slab.content? = _
  rw [hnew]
  congr 1
  refine List.filterMap_congr fun j hj => ?_
  rw [hcontent, if_neg (hi j hj i (List.mem_singleton.mpr rfl))]

/-- Taking the key of an entry out of the map and releasing its slot takes the entry out, and then tells
the hooks. -/
theorem release {xs ys : List Nat} {i : Nat} {n : Node K V} (h : c.Consistent (xs ++ i :: ys))
    (hn : c.slab.node? i = some n) :
    ∃ map slab, Holds c.capacity (xs.filterMap c.slab.content? ++ ys.filterMap c.slab.content?)
        { c with map, slab }
      ∧ (c.unmap n.key).release i = (({ c with map, slab }).announce .uncached n.listener n.key).andThen
        fun c _ => .done c n.value := by
  obtain ⟨slab, hrelease, hc', hcontent, -⟩ := h.release_eq hn
  refine ⟨_, slab, ⟨⟨_, hc'⟩, rfl, ?_⟩, hrelease⟩
  exact hc'.entries_eq.trans (h.contents_congr fun j hj => (hcontent j).trans (if_neg hj))

/-- Removing a key that is absent changes nothing. -/
theorem remove_absent (h : Holds capacity l c) (hkey : l.lookup key = none) :
    c.remove key = .done c none := by
  rw [remove, h.lookup_map hkey]

/-- Removing a key that is present takes its entry out, and then tells the hooks. -/
theorem remove_present (h : Holds capacity l c) (hkey : l.lookup key = some (value, listener)) :
    ∃ map slab, Holds capacity (Recency.remove l key) { c with map, slab }
      ∧ c.remove key = ((({ c with map, slab }).announce .uncached listener key).andThen
        fun c _ => .done c value).andThen fun c v => .done c (some v) := by
  obtain ⟨xs, ys, i, n, hc, hn, hi, rfl, rfl, rfl, hremoved⟩ := h.exists_slot hkey
  obtain ⟨map, slab, hholds, hrelease⟩ := release hc hn
  rw [hremoved, ← h.capacity]
  exact ⟨map, slab, hholds, by rw [hc.remove_eq hn, hrelease]⟩

/-- Nothing can be evicted from a cache without entries. -/
theorem evict_nil (h : Holds capacity [] c) : c.evict = .done c () := by
  obtain ⟨order, hc⟩ := h.consistent
  have horder : order = [] := List.length_eq_zero_iff.mp (by rw [← hc.size_eq, ← h.length_eq]; rfl)
  exact Consistent.evict_nil (horder ▸ hc)

/-- Evicting takes the first entry out, and then tells the hooks. -/
theorem evict_cons {e : K × V × Option Name} (h : Holds capacity (e :: l) c) :
    ∃ map slab, Holds capacity l { c with map, slab }
      ∧ c.evict = ((({ c with map, slab }).announce .uncached e.2.2 e.1).andThen
        fun c _ => .done c e.2.1).andThen fun c _ => .done c () := by
  obtain ⟨order, hc⟩ := h.consistent
  cases order with
  | nil =>
    have hnone := hc.entries_eq.symm.trans h.entries
    cases hnone
  | cons i ys =>
    obtain ⟨n, hn⟩ := hc.tidy.mem_iff.mp List.mem_cons_self
    have hfront : c.Consistent ([] ++ i :: ys) := hc
    have hsplit := (hfront.entries_split hn).symm.trans h.entries
    obtain ⟨rfl, rfl⟩ := List.cons.inj hsplit
    obtain ⟨map, slab, hholds, hrelease⟩ := release hfront hn
    exact ⟨map, slab, h.capacity ▸ hholds, by rw [hc.evict_eq hn, hrelease]⟩

end Holds

end TimedCache.Lru
