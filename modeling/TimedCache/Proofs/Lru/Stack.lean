import Mathlib.Data.List.Dedup
import Mathlib.Data.List.DropRight
import TimedCache.Proofs.Lru.Recency

/-!
# The stack of touched keys

A recency list without any bound, to which keys are touched one after the other: a touch puts a value
under the key, or only uses the key if it is there. What a bounded recency list holds is the end of the
stack that fits. If only keys are used that are there, the stack has every key that was touched, in the
order of the last touches.
-/

namespace TimedCache.Lru

variable {K V : Type}

section Order

variable [DecidableEq K] {key : K}

/-- A key that comes last has its last occurrence there. -/
theorem dedup_concat (l : List K) (key : K) :
    (l ++ [key]).dedup = l.dedup.filter (· != key) ++ [key] := by
  induction l with
  | nil => rfl
  | cons a rest ih =>
    by_cases hmem : a ∈ rest
    · rw [List.cons_append, List.dedup_cons_of_mem (List.mem_append_left _ hmem), ih,
        List.dedup_cons_of_mem hmem]
    · by_cases hkey : a = key
      · subst hkey
        rw [List.cons_append, List.dedup_cons_of_mem (List.mem_append_right _ List.mem_cons_self), ih,
          List.dedup_cons_of_notMem hmem, List.filter_cons_of_neg (by simp)]
      · have hnot : a ∉ rest ++ [key] := by simp [hmem, hkey]
        rw [List.cons_append, List.dedup_cons_of_notMem hnot, ih, List.dedup_cons_of_notMem hmem,
          List.filter_cons_of_pos (by simp [hkey]), List.cons_append]

/-- The last occurrences are those up to a key, the key, and those after its last one. -/
theorem dedup_split {l : List K} (h : key ∈ l) :
    ∃ front, l.dedup = front ++ key :: (l.rtakeWhile (· != key)).dedup := by
  have hne : l.rdropWhile (· != key) ≠ [] := by
    rw [Ne, List.rdropWhile_eq_nil_iff]
    exact fun hall => by simpa using hall key h
  have hlast : (l.rdropWhile (· != key)).getLast hne = key := by
    simpa using List.rdropWhile_last_not (· != key) l hne
  have hnot : key ∉ l.rtakeWhile (· != key) := fun hmem => by simpa using List.mem_rtakeWhile_imp hmem
  have hends := List.dropLast_append_getLast hne
  rw [hlast] at hends
  obtain ⟨front, -, hfront⟩ := List.sublist_suffix_of_union (l.rdropWhile (· != key)).dropLast
    (key :: (l.rtakeWhile (· != key)).dedup)
  refine ⟨front, ?_⟩
  calc
    l.dedup = ((l.rdropWhile (· != key)).dropLast ++ key :: l.rtakeWhile (· != key)).dedup := by
      rw [← List.singleton_append, ← List.append_assoc, hends, List.rdropWhile_append_rtakeWhile]
    _ = front ++ key :: (l.rtakeWhile (· != key)).dedup := by
      rw [List.dedup_append, List.dedup_cons_of_notMem hnot, hfront]

omit [DecidableEq K] in
/-- A key is in the end of a list that fits exactly if fewer keys than that come after it. -/
theorem mem_drop_iff {front back : List K} (hnodup : (front ++ key :: back).Nodup) (capacity : Nat) :
    key ∈ (front ++ key :: back).drop ((front ++ key :: back).length - capacity)
      ↔ back.length < capacity := by
  have hlength : (front ++ key :: back).length = front.length + (back.length + 1) := by simp
  by_cases hfits : back.length < capacity
  · have hshort : (front ++ key :: back).length - capacity ≤ front.length := by omega
    rw [List.drop_append_of_le_length hshort]
    exact iff_of_true (List.mem_append_right _ List.mem_cons_self) hfits
  · refine iff_of_false (fun hmem => ?_) hfits
    have hpast : front.length + 1 ≤ (front ++ key :: back).length - capacity := by omega
    have hback : key ∈ (front ++ key :: back).drop (front.length + 1) :=
      (List.drop_sublist_drop_left _ hpast).subset hmem
    rw [← List.singleton_append, ← List.append_assoc, List.drop_left' (by simp)] at hback
    obtain ⟨hout, -⟩ := List.nodup_cons.mp (List.nodup_middle.mp hnodup)
    exact hout (List.mem_append_right _ hback)

/-- The elements of an end of a list without repetitions are found there only. -/
theorem filter_mem_drop {l : List K} (h : l.Nodup) (n : Nat) :
    l.filter (· ∈ l.drop n) = l.drop n := by
  have hfront : (l.take n).filter (· ∈ l.drop n) = [] := by
    rw [List.filter_eq_nil_iff]
    intro key hkey hmem
    exact List.disjoint_take_drop h (Nat.le_refl n) hkey (of_decide_eq_true hmem)
  have hback : (l.drop n).filter (· ∈ l.drop n) = l.drop n :=
    List.filter_eq_self.mpr fun _ => decide_eq_true
  conv_lhs => arg 2; rw [← List.take_append_drop n l]
  rw [List.filter_append, hfront, hback, List.nil_append]

end Order

section Values

variable [DecidableEq K]

/-- The value of the last put of a key, if there was one. -/
def lastPut? (touches : List (K × Option V)) (key : K) : Option V :=
  touches.reverse.findSome? fun t => if t.1 = key then t.2 else none

end Values

namespace Recency

variable [DecidableEq K] {l : Recency K V} {key : K} {value : V}

/-- Using a key moves it to the end of the keys. -/
theorem map_use (l : Recency K V) (key : K) (value : V) :
    (use l key value).map Prod.fst = (l.map Prod.fst).filter (· != key) ++ [key] := by
  rw [use, remove, List.map_append, List.filter_map]
  rfl

/-- Using a key makes a list in which no key occurs twice no shorter. -/
theorem length_le_use (h : (l.map Prod.fst).Nodup) (key : K) (value : V) :
    l.length ≤ (use l key value).length := by
  rw [use, List.length_append, List.length_singleton]
  by_cases hkey : key ∈ l.map Prod.fst
  · exact (length_filter_ne h hkey).ge
  · rw [remove, filter_ne_of_not_mem hkey]
    exact Nat.le_succ _

/-- What fits after a use depends on no more than what fitted before. -/
theorem trim_use (h : (l.map Prod.fst).Nodup) (capacity : Nat) (key : K) (value : V) :
    trim capacity (use (trim capacity l) key value) = trim capacity (use l key value) := by
  by_cases hfits : l.length ≤ capacity
  · rw [trim_of_length_le hfits]
  · have hsplit : use l key value
        = remove (l.take (l.length - capacity)) key ++ use (trim capacity l) key value := by
      conv_lhs => rw [← List.take_append_drop (l.length - capacity) l]
      rw [use, use, remove, List.filter_append, List.append_assoc]
      rfl
    have hnodup : ((trim capacity l).map Prod.fst).Nodup := h.sublist ((trim_sublist _ _).map _)
    have hfull : capacity ≤ (use (trim capacity l) key value).length := by
      have hlength := length_le_use hnodup key value
      rw [trim_length] at hlength
      omega
    rw [hsplit, trim_append hfull]

/-- Touching a key in a list without a bound. -/
def touch (l : Recency K V) : K × Option V → Recency K V
  | (key, some value) => use l key value
  | (key, none) => get l key

/-- All keys that were ever touched, in the order of their last touches, with the values last put. -/
def stack (touches : List (K × Option V)) : Recency K V := touches.foldl touch []

variable {touches : List (K × Option V)}

theorem stack_concat (touches : List (K × Option V)) (t : K × Option V) :
    stack (touches ++ [t]) = touch (stack touches) t := by
  rw [stack, List.foldl_append]
  rfl

/-- The stack has the value of the last put of each key. -/
theorem lookup_stack (touches : List (K × Option V)) (key : K) :
    (stack touches).lookup key = lastPut? touches key := by
  induction touches using List.reverseRecOn with
  | nil => rfl
  | append_singleton touches t ih =>
    obtain ⟨touched, v⟩ := t
    rw [stack_concat, lastPut?, List.reverse_append, List.reverse_singleton, List.singleton_append,
      List.findSome?_cons, ← lastPut?, ← ih]
    cases v with
    | some value =>
      rw [touch, lookup_use]
      by_cases hkey : key = touched
      · simp [hkey]
      · simp [hkey, Ne.symm hkey]
    | none =>
      rw [touch, get]
      cases hfound : (stack touches).lookup touched with
      | none => simp
      | some value =>
        dsimp only
        rw [lookup_use]
        by_cases hkey : key = touched
        · simp [hkey, hfound]
        · simp [hkey]

/-- The value of a last put was put. -/
theorem mem_of_lastPut? (h : lastPut? touches key = some value) : (key, some value) ∈ touches := by
  obtain ⟨t, ht, hvalue⟩ := List.exists_of_findSome?_eq_some h
  split at hvalue
  · next hkey => exact hkey ▸ hvalue ▸ List.mem_reverse.mp ht
  · cases hvalue

/-- The keys of the stack are those that were touched, in the order of their last touches. That is so
if only keys were found that had been put before. -/
def InOrder (touches : List (K × Option V)) : Prop :=
  (stack touches).map Prod.fst = (touches.map Prod.fst).dedup

/-- The stack has no key twice. -/
theorem InOrder.nodup (h : InOrder touches) : ((stack touches).map Prod.fst).Nodup :=
  h ▸ List.nodup_dedup _

/-- A key that was touched was put. -/
theorem InOrder.exists_put (h : InOrder touches) (hkey : key ∈ touches.map Prod.fst) :
    ∃ value, (key, some value) ∈ touches := by
  have hfound : key ∈ (stack touches).map Prod.fst := by
    rw [h]
    exact List.mem_dedup.mpr hkey
  have hsome : (stack touches).lookup key ≠ none := fun hnone => lookup_eq_none_iff_not_mem.mp hnone hfound
  obtain ⟨value, hvalue⟩ := Option.ne_none_iff_exists'.mp hsome
  exact ⟨value, mem_of_lastPut? ((lookup_stack touches key).symm.trans hvalue)⟩

/-- One more touch of a key, with a value that is put or was found, keeps the stack in order. -/
theorem InOrder.concat (h : InOrder touches) {v : Option V}
    (htouch : touch (stack touches) (key, v) = use (stack touches) key value) :
    InOrder (touches ++ [(key, v)]) := by
  rw [InOrder, stack_concat, htouch, map_use, h, List.map_append]
  exact (dedup_concat _ _).symm

end Recency

end TimedCache.Lru
