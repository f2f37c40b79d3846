import TimedCache.Lru.Recency
import TimedCache.Proofs.KeyedList

/-!
# Laws of recency lists

A recency list has each key once and is no longer than its capacity, whatever is done with it. As long
as that holds, to put a key is to use it and then to cut off what no longer fits, whether the key was
present or not.
-/

namespace TimedCache.Lru.Recency

variable {K V : Type}

/-- What fits is a part of the list. -/
theorem trim_sublist (capacity : Nat) (l : Recency K V) : (trim capacity l).Sublist l :=
  List.drop_sublist _ _

/-- What fits is within the capacity. -/
theorem length_trim_le (capacity : Nat) (l : Recency K V) : (trim capacity l).length ≤ capacity := by
  rw [trim_length]
  exact Nat.min_le_right _ _

/-- What fits of a list fits of a longer list that ends the same. -/
theorem trim_append {capacity : Nat} {front back : Recency K V} (h : capacity ≤ back.length) :
    trim capacity (front ++ back) = trim capacity back := by
  have hlonger : front.length ≤ (front ++ back).length - capacity := by
    rw [List.length_append]
    omega
  rw [trim, trim, List.drop_append, List.drop_of_length_le hlonger, List.nil_append,
    List.length_append]
  congr 1
  omega

variable [DecidableEq K] {l : Recency K V} {key : K} {value : V}

/-- Using a key that is present makes the list no longer. -/
theorem length_use_le (h : (l.lookup key).isSome) : (use l key value).length ≤ l.length := by
  obtain ⟨old, hold⟩ := Option.isSome_iff_exists.mp h
  have hless : (remove l key).length < l.length :=
    List.length_filter_lt_length_iff_exists.mpr ⟨(key, old), mem_of_lookup hold, by simp⟩
  rw [use, List.length_append, List.length_singleton]
  exact hless

/-- A key that is absent is not among the pairs. -/
theorem remove_of_absent (h : l.lookup key = none) : remove l key = l :=
  filter_ne_of_not_mem (lookup_eq_none_iff_not_mem.mp h)

/-- Without repeated keys, removing a key leaves what stands around its pair. -/
theorem remove_split {front back : Recency K V} {p : K × V}
    (h : ((front ++ p :: back).map Prod.fst).Nodup) : remove (front ++ p :: back) p.1 = front ++ back := by
  rw [List.map_append, List.map_cons] at h
  obtain ⟨hnot, -⟩ := List.nodup_cons.mp (List.nodup_middle.mp h)
  rw [← List.map_append] at hnot
  rw [remove, List.filter_append, List.filter_cons_of_neg (by simp), ← List.filter_append,
    filter_ne_of_not_mem hnot]

/-- Using a key keeps the keys distinct. -/
theorem nodup_use (h : (l.map Prod.fst).Nodup) (key : K) (value : V) :
    ((use l key value).map Prod.fst).Nodup := by
  have hgone : key ∉ (remove l key).map Prod.fst := by simp [remove]
  exact nodup_keys_concat (nodup_keys_filter h _) hgone value

/-- A key that was used is found with its value, and the others as before. -/
theorem lookup_use (l : Recency K V) (key : K) (value : V) (other : K) :
    (use l key value).lookup other = if other = key then some value else l.lookup other := by
  rw [use, List.lookup_append, remove, lookup_filter_ne]
  by_cases hkey : other = key
  · simp [hkey]
  · have hbeq : (other == key) = false := beq_eq_false_iff_ne.mpr hkey
    simp [hkey, hbeq, List.lookup_cons]

/-- In a list that fits, to put a key is to use it and to cut off what no longer fits. -/
theorem put_eq {capacity : Nat} (h : l.length ≤ capacity) (key : K) (value : V) :
    put capacity l key value = trim capacity (use l key value) := by
  rw [put]
  cases hkey : l.lookup key with
  | none => rw [use, remove_of_absent hkey]; rfl
  | some old =>
    have hfits : (use l key value).length ≤ capacity :=
      Nat.le_trans (length_use_le (by rw [hkey]; rfl)) h
    rw [trim_of_length_le hfits]
    rfl

/-- The list has each key once and is no longer than the capacity. -/
structure Fits (capacity : Nat) (l : Recency K V) : Prop where
  nodup : (l.map Prod.fst).Nodup
  length_le : l.length ≤ capacity

omit [DecidableEq K] in
/-- The empty list fits. -/
theorem fits_nil (capacity : Nat) : Fits capacity ([] : Recency K V) :=
  ⟨List.nodup_nil, Nat.zero_le capacity⟩

namespace Fits

variable {capacity : Nat} (h : Fits capacity l)
include h

theorem remove (key : K) : Fits capacity (remove l key) :=
  ⟨nodup_keys_filter h.nodup _, Nat.le_trans (List.length_filter_le _ _) h.length_le⟩

theorem put (key : K) (value : V) : Fits capacity (put capacity l key value) := by
  rw [put_eq h.length_le]
  exact ⟨(nodup_use h.nodup key value).sublist ((trim_sublist _ _).map _), length_trim_le _ _⟩

theorem get (key : K) : Fits capacity (get l key) := by
  rw [Recency.get]
  cases hkey : l.lookup key with
  | none => exact h
  | some value =>
    have hlength : (use l key value).length ≤ l.length := length_use_le (by rw [hkey]; rfl)
    exact ⟨nodup_use h.nodup key value, Nat.le_trans hlength h.length_le⟩

/-- A list that fits does so after every command. -/
theorem step (command : Command K V) : Fits capacity (step capacity l command).1 := by
  cases command with
  | put key value listener => exact h.put key value
  | get key => exact h.get key
  | remove key => exact h.remove key
  | clear => exact fits_nil capacity
  | peek | contains | setObserver | arm => exact h

end Fits

end TimedCache.Lru.Recency
