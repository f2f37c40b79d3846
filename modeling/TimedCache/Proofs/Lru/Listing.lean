import TimedCache.Proofs.Lru.Consistency
import TimedCache.Proofs.Lru.Recency

/-!
# The listing of a bounded cache

Read from head to tail, a consistent cache is a list of distinct keys with their values:
as long as the cache is large, with each key where its slot is, and with the value that
peeking at the key shows.
-/

namespace TimedCache.Lru

variable {K V : Type} {c : Lru K V} {order : List Nat}

/-- The key and the value in a slot. -/
def Slab.pair? (s : Slab K V) (i : Nat) : Option (K × V) :=
  (s.content? i).map fun x => (x.1, x.2.1)

theorem Slab.pair?_of_node? {s : Slab K V} {i : Nat} {n : Node K V} (h : s.node? i = some n) :
    s.pair? i = some (n.key, n.value) := by
  rw [pair?, content?_of_node? h]
  rfl

/-- The chain goes through the nodes of the slots in order. -/
theorem Consistent.chain_eq (h : c.Consistent order) :
    c.slab.chain = order.filterMap c.slab.node? := by
  have hmap := congrArg (List.filterMap id) h.tidy.chain
  simpa [List.filterMap_map] using hmap

/-- The cache lists the keys and values of its slots in order. -/
theorem Consistent.toList_eq (h : c.Consistent order) : c.toList = order.filterMap c.slab.pair? := by
  rw [toList, h.chain_eq, List.map_filterMap]
  refine List.filterMap_congr fun i _ => ?_
  rw [Slab.pair?, Slab.content?, Option.map_map]
  rfl

/-- The list around a slot that is known. -/
theorem Consistent.toList_split {xs ys : List Nat} {i : Nat} {n : Node K V}
    (h : c.Consistent (xs ++ i :: ys)) (hn : c.slab.node? i = some n) :
    c.toList = xs.filterMap c.slab.pair? ++ (n.key, n.value) :: ys.filterMap c.slab.pair? := by
  rw [h.toList_eq, List.filterMap_append, List.filterMap_cons, Slab.pair?_of_node? hn]

/-- The list has one pair for each entry. -/
theorem Consistent.length_toList (h : c.Consistent order) : c.toList.length = c.size := by
  have hchain := congrArg List.length h.tidy.chain
  rw [List.length_map, List.length_map] at hchain
  rw [toList, List.length_map, hchain, h.size_eq]

/-- No key is listed twice. -/
theorem Consistent.nodup_toList (h : c.Consistent order) : (c.toList.map Prod.fst).Nodup := by
  have hkey (i : Nat) : (c.slab.pair? i).map Prod.fst = (c.slab.node? i).map Node.key := by
    rw [Slab.map_key_eq, Slab.pair?, Option.map_map]
    rfl
  rw [h.toList_eq, List.map_filterMap]
  refine h.tidy.spells.nodup.filterMap fun i j key hi hj => ?_
  have hi : (key, i) ∈ c.map := h.mapped.mpr ((hkey i).symm.trans hi)
  have hj : (key, j) ∈ c.map := h.mapped.mpr ((hkey j).symm.trans hj)
  exact congrArg Prod.snd (List.inj_on_of_nodup_map h.keys hi hj rfl)

variable [DecidableEq K]

/-- Looking a key up in the list is peeking at it. -/
theorem Consistent.lookup_toList (h : c.Consistent order) (key : K) :
    c.toList.lookup key = c.peek key := by
  cases hkey : c.map.lookup key with
  | none =>
    have hnot : key ∉ c.toList.map Prod.fst := fun hmem => by
      obtain ⟨p, hp, rfl⟩ := List.mem_map.mp hmem
      obtain ⟨n, hn, rfl⟩ := List.mem_map.mp hp
      obtain ⟨i, -, hi⟩ := List.mem_map.mp (h.tidy.chain ▸ List.mem_map_of_mem hn :
        some n ∈ order.map c.slab.node?)
      rw [h.lookup_eq_some_iff.mpr ⟨n, hi, rfl⟩] at hkey
      cases hkey
    rw [lookup_eq_none_iff_not_mem.mpr hnot, peek, hkey, Option.bind_none]
  | some i =>
    obtain ⟨xs, ys, n, rfl, hn, rfl⟩ := h.exists_split hkey
    rw [peek, hkey, Option.bind_some, hn, Option.map_some, lookup_eq_some_iff_mem h.nodup_toList,
      h.toList_split hn]
    exact List.mem_append_right _ List.mem_cons_self

/-- A key is present exactly when it is listed. -/
theorem Consistent.isSome_lookup_toList (h : c.Consistent order) (key : K) :
    (c.toList.lookup key).isSome = c.contains key := by
  rw [h.lookup_toList, peek, contains]
  cases hkey : c.map.lookup key with
  | none => rfl
  | some i =>
    obtain ⟨n, hn, -⟩ := h.lookup_eq_some_iff.mp hkey
    rw [Option.bind_some, hn]
    rfl

/-- Removing the key of a slot from the list leaves what stands around the slot. -/
theorem Consistent.remove_toList {xs ys : List Nat} {i : Nat} {n : Node K V}
    (h : c.Consistent (xs ++ i :: ys)) (hn : c.slab.node? i = some n) :
    Recency.remove c.toList n.key =
      xs.filterMap c.slab.pair? ++ ys.filterMap c.slab.pair? := by
  have hnodup := h.nodup_toList
  rw [h.toList_split hn] at hnodup ⊢
  exact Recency.remove_split hnodup

omit [DecidableEq K] in
/-- Reading the slots around a changed one. -/
theorem Consistent.filterMap_congr {xs ys : List Nat} {i : Nat} {slab : Slab K V}
    (h : c.Consistent (xs ++ i :: ys)) (hcontent : ∀ j, j ≠ i → slab.content? j = c.slab.content? j) :
    (xs ++ ys).filterMap slab.pair? =
      xs.filterMap c.slab.pair? ++ ys.filterMap c.slab.pair? :=
  h.tidy.spells.filterMap_congr fun j hj => by rw [Slab.pair?, Slab.pair?, hcontent j hj]

/-- A key whose slot is known is found in the list with the value of the slot. -/
theorem Consistent.lookup_eq_some (h : c.Consistent order) {i : Nat} {n : Node K V}
    (hn : c.slab.node? i = some n) : c.toList.lookup n.key = some n.value := by
  rw [h.lookup_toList, peek, h.lookup_eq_some_iff.mpr ⟨n, hn, rfl⟩, Option.bind_some, hn,
    Option.map_some]

end TimedCache.Lru
