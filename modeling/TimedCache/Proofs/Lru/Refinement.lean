import TimedCache.Proofs.Lru.Invariant
import TimedCache.Proofs.Lru.Listing
import TimedCache.Proofs.Returned

/-!
# A bounded cache is a recency list

An operation whose hooks do not panic does to the listing of a bounded cache what the
operation of the same name does to a recency list. So does a whole run, answer by answer:
slots, links and the reuse of slots cannot be observed.
-/

namespace TimedCache.Lru

variable {K V : Type} [DecidableEq K] {c c' : Lru K V} {order : List Nat}

/-- A returned announcement has changed neither map nor slab. -/
theorem announce_done {phase : Phase} {listener : Option Name} {key : K} {u : Unit}
    (h : c.announce phase listener key = .done c' u) :
    ∃ alarms log, c' = { c with alarms, log } := by
  obtain ⟨alarms, log, hs⟩ := announce_state c phase listener key
  rw [h] at hs
  exact ⟨alarms, log, hs⟩

/-- The cache is consistent, has a certain capacity and lists a certain sequence. -/
def Lists (capacity : Nat) (l : Recency K V) (c : Lru K V) : Prop :=
  (∃ order, c.Consistent order) ∧ c.capacity = capacity ∧ c.toList = l

/-- What a cache lists does not depend on alarms and records. -/
theorem Lists.told {capacity : Nat} {l : Recency K V} (h : Lists capacity l c)
    {phase : Phase} {listener : Option Name} {key : K} {u : Unit}
    (ht : c.announce phase listener key = .done c' u) : Lists capacity l c' := by
  obtain ⟨alarms, log, rfl⟩ := announce_done ht
  obtain ⟨⟨order, hc⟩, hcap, hl⟩ := h
  exact ⟨⟨order, hc.congr rfl rfl⟩, hcap, hl⟩

/-- Reading moves the pair of a present key to the end of the list. -/
theorem Consistent.get_lists (h : c.Consistent order) (key : K) :
    ∃ c', c.get key = .done c' (c.toList.lookup key) ∧
      Lists c.capacity (Recency.get c.toList key) c' := by
  cases hkey : c.map.lookup key with
  | none =>
    have hl : c.toList.lookup key = none := by rw [h.lookup_toList, peek, hkey, Option.bind_none]
    rw [Recency.get, hl, get, hkey]
    exact ⟨c, rfl, ⟨order, h⟩, rfl, rfl⟩
  | some i =>
    obtain ⟨xs, ys, n, rfl, hn, rfl⟩ := h.exists_split hkey
    obtain ⟨slab, hget, hc, hrel⟩ := h.get_eq hn
    have hl : c.toList.lookup n.key = some n.value := by
      rw [h.lookup_toList, peek, hkey, Option.bind_some, hn, Option.map_some]
    refine ⟨{ c with slab }, by rw [hget, hl], ⟨_, hc⟩, rfl, ?_⟩
    have hpair : slab.pair? i = some (n.key, n.value) := by
      rw [Slab.pair?, hrel.content, ← Slab.pair?, Slab.pair?_of_node? hn]
    rw [hc.toList_eq, Recency.get, hl, List.filterMap_append]
    change (xs ++ ys).filterMap slab.pair? ++ [i].filterMap slab.pair? = Recency.use _ _ _
    rw [h.filterMap_congr fun j _ => hrel.content j, Recency.use, h.remove_toList hn,
      List.filterMap_cons, hpair, List.filterMap_nil]

/-- Putting a present key moves it to the end of the list with its new value. -/
theorem Consistent.replace_lists {xs ys : List Nat} {i : Nat} {n : Node K V} {value : V}
    {listener : Option Name} {r : Option V} (h : c.Consistent (xs ++ i :: ys))
    (hn : c.slab.node? i = some n) (hdone : c.replace i n.key value listener = .done c' r) :
    Lists c.capacity (Recency.use c.toList n.key value) c' ∧ r = some n.value := by
  obtain ⟨slab, hreplace, hc, hcontent, -⟩ := h.replace_eq hn value listener
  rw [hreplace] at hdone
  obtain ⟨c₁, _, hold, hdone⟩ := Ran.andThen_eq_done.mp hdone
  obtain ⟨c₂, _, hnew, hdone⟩ := Ran.andThen_eq_done.mp hdone
  cases hdone
  have hl : Lists c.capacity (Recency.use c.toList n.key value) { c with slab } := by
    refine ⟨⟨_, hc⟩, rfl, ?_⟩
    have hpair : slab.pair? i = some (n.key, value) := by
      rw [Slab.pair?, hcontent, if_pos rfl, Option.map_some]
    rw [hc.toList_eq, List.filterMap_append]
    change (xs ++ ys).filterMap slab.pair? ++ [i].filterMap slab.pair? = _
    rw [h.filterMap_congr fun j hj => (hcontent j).trans (if_neg hj), Recency.use,
      h.remove_toList hn, List.filterMap_cons, hpair, List.filterMap_nil]
  exact ⟨(hl.told hold).told hnew, rfl⟩

/-- Releasing the slot of a key drops the key from the list. -/
theorem Consistent.release_lists {xs ys : List Nat} {i : Nat} {n : Node K V} {v : V}
    (h : c.Consistent (xs ++ i :: ys)) (hn : c.slab.node? i = some n)
    (hdone : (c.unmap n.key).release i = .done c' v) :
    Lists c.capacity (xs.filterMap c.slab.pair? ++ ys.filterMap c.slab.pair?) c' ∧ v = n.value := by
  obtain ⟨slab, hrelease, hc, hcontent, -⟩ := h.release_eq hn
  rw [hrelease] at hdone
  obtain ⟨c₁, _, htold, hdone⟩ := Ran.andThen_eq_done.mp hdone
  cases hdone
  refine ⟨Lists.told ⟨⟨_, hc⟩, rfl, ?_⟩ htold, rfl⟩
  rw [hc.toList_eq]
  exact h.filterMap_congr fun j hj => (hcontent j).trans (if_neg hj)

/-- Evicting drops the front of the list. -/
theorem Consistent.evict_lists (h : c.Consistent order) {u : Unit} (hdone : c.evict = .done c' u) :
    Lists c.capacity c.toList.tail c' := by
  cases order with
  | nil =>
    rw [h.evict_nil] at hdone
    cases hdone
    exact ⟨⟨[], h⟩, rfl, by rw [h.toList_eq]; rfl⟩
  | cons i ys =>
    obtain ⟨n, hn⟩ := h.tidy.mem_iff.mp List.mem_cons_self
    rw [h.evict_eq hn] at hdone
    obtain ⟨c₁, v, hrelease, hdone⟩ := Ran.andThen_eq_done.mp hdone
    cases hdone
    have hfront : c.Consistent ([] ++ i :: ys) := h
    obtain ⟨hl, -⟩ := hfront.release_lists hn hrelease
    rwa [hfront.toList_split hn]

/-- Evicting while there are more entries than a bound, with fuel for each entry beyond it,
leaves the end of the list within the bound. -/
theorem Consistent.evictWhile_lists {condition : Lru K V → Bool} {bound fuel : Nat} {u : Unit}
    (hcondition : ∀ (c' : Lru K V) order, c'.Consistent order → c'.capacity = c.capacity →
      (condition c' = true ↔ bound < c'.size))
    (h : c.Consistent order) (hfuel : c.size ≤ bound + fuel)
    (hdone : evictWhile condition fuel c = .done c' u) :
    Lists c.capacity (Recency.trim bound c.toList) c' := by
  induction fuel generalizing c order with
  | zero =>
    cases hdone
    exact ⟨⟨order, h⟩, rfl, (Recency.trim_of_length_le (h.length_toList ▸ hfuel)).symm⟩
  | succ fuel ih =>
    rw [evictWhile] at hdone
    split at hdone
    · rename_i hover
      obtain ⟨c₁, _, hevict, hdone⟩ := Ran.andThen_eq_done.mp hdone
      obtain ⟨⟨order₁, hc₁⟩, hcap, hl⟩ := h.evict_lists hevict
      have hlt := (hcondition c order h rfl).mp hover
      have hsize : c₁.size = c.size - 1 := by
        rw [← hc₁.length_toList, hl, List.length_tail, h.length_toList]
      have hrest := ih (c := c₁) (fun c' order hc' he => hcondition c' order hc' (he.trans hcap)) hc₁
        (by omega) hdone
      have htrim : Recency.trim bound c₁.toList = Recency.trim bound c.toList := by
        rw [Recency.trim, Recency.trim, hl, List.length_tail, h.length_toList, ← List.drop_one,
          List.drop_drop]
        congr 1
        omega
      rwa [hcap, htrim] at hrest
    · rename_i hover
      have hle : c.size ≤ bound := by
        rwa [hcondition c order h rfl, Nat.not_lt] at hover
      cases hdone
      exact ⟨⟨order, h⟩, rfl, (Recency.trim_of_length_le (h.length_toList ▸ hle)).symm⟩

/-- Putting a key does to the list what it does to a recency list. -/
theorem Consistent.put_lists (h : c.Consistent order) {key : K} {value : V} {listener : Option Name}
    {r : Option V} (hdone : c.put key value listener = .done c' r) :
    Lists c.capacity (Recency.put c.capacity c.toList key value) c' ∧ r = c.toList.lookup key := by
  rw [Recency.put, h.isSome_lookup_toList, contains]
  cases hkey : c.map.lookup key with
  | some i =>
    obtain ⟨xs, ys, n, rfl, hn, rfl⟩ := h.exists_split hkey
    rw [put, hkey] at hdone
    obtain ⟨hl, hr⟩ := h.replace_lists hn hdone
    exact ⟨hl, hr.trans (h.lookup_eq_some hn).symm⟩
  | none =>
    have hnone : c.toList.lookup key = none := by
      rw [h.lookup_toList, peek, hkey, Option.bind_none]
    obtain ⟨slab, i, -, hinsert, hc, hcontent, -⟩ := h.insertNew_eq hkey value listener
    rw [put, hkey] at hdone
    replace hdone := hinsert.symm.trans hdone
    obtain ⟨c₁, _, htold, hdone⟩ := Ran.andThen_eq_done.mp hdone
    obtain ⟨c₂, _, hshrink, hdone⟩ := Ran.andThen_eq_done.mp hdone
    cases hdone
    have hl : Lists c.capacity (c.toList ++ [(key, value)])
        { c with slab, map := c.map ++ [(key, i)] } := by
      refine ⟨⟨_, hc⟩, rfl, ?_⟩
      have hpair : slab.pair? i = some (key, value) := by
        rw [Slab.pair?, hcontent, if_pos rfl, Option.map_some]
      have hi := (List.nodup_append.mp hc.tidy.spells.nodup).2.2
      rw [hc.toList_eq, h.toList_eq, List.filterMap_append, List.filterMap_cons, hpair,
        List.filterMap_nil]
      congr 1
      refine List.filterMap_congr fun j hj => ?_
      rw [Slab.pair?, Slab.pair?, hcontent, if_neg (hi j hj i (List.mem_singleton.mpr rfl))]
    obtain ⟨⟨order₁, hc₁⟩, hcap, hl₁⟩ := hl.told htold
    have hover : ∀ (c' : Lru K V) order, c'.Consistent order → c'.capacity = c₁.capacity →
        (isOverfull c' = true ↔ c₁.capacity < c'.size) := fun c' _ _ he => by
      simp [isOverfull, he]
    have hshrunk := hc₁.evictWhile_lists hover (Nat.le_add_left _ _) hshrink
    rw [hcap, hl₁] at hshrunk
    exact ⟨hshrunk, hnone.symm⟩

/-- Removing a key does to the list what it does to a recency list. -/
theorem Consistent.remove_lists (h : c.Consistent order) {key : K} {r : Option V}
    (hdone : c.remove key = .done c' r) :
    Lists c.capacity (Recency.remove c.toList key) c' ∧ r = c.toList.lookup key := by
  cases hkey : c.map.lookup key with
  | none =>
    have hnone : c.toList.lookup key = none := by
      rw [h.lookup_toList, peek, hkey, Option.bind_none]
    rw [remove, hkey] at hdone
    cases hdone
    rw [Recency.remove, filter_ne_of_not_mem (lookup_eq_none_iff_not_mem.mp hnone), hnone]
    exact ⟨⟨⟨order, h⟩, rfl, rfl⟩, rfl⟩
  | some i =>
    obtain ⟨xs, ys, n, rfl, hn, rfl⟩ := h.exists_split hkey
    rw [h.remove_eq hn] at hdone
    obtain ⟨c₁, v, hrelease, hdone⟩ := Ran.andThen_eq_done.mp hdone
    cases hdone
    obtain ⟨hl, hv⟩ := h.release_lists hn hrelease
    rw [h.remove_toList hn, h.lookup_eq_some hn, hv]
    exact ⟨hl, rfl⟩

/-- Clearing empties the list. -/
theorem Consistent.clear_lists (h : c.Consistent order) {u : Unit} (hdone : c.clear = .done c' u) :
    Lists c.capacity [] c' := by
  have hfuel : c.size ≤ 0 + c.slab.slots.length := by
    rw [Nat.zero_add]
    exact h.size_le_slots
  have hl := h.evictWhile_lists (fun _ _ hc _ => hc.isSome_head_iff) hfuel hdone
  rwa [Recency.trim, Nat.sub_zero, List.drop_length] at hl

/-- A hook's panic ended the command. -/
def Reply.interrupted : Reply K V → Bool
  | .panicked (.armed ..) => true
  | _ => false

omit [DecidableEq K] in
/-- An operation that met no vacant slot and was not interrupted has returned. -/
theorem Keeps.returned {α : Type} {P : Lru K V → Prop} {ran : Op K V α} (h : Keeps P ran)
    {reply : α → Reply K V} (hcalm : (Lru.answer ran reply).2.interrupted = false) :
    ∃ c' a, ran = .done c' a ∧ Lru.answer ran reply = (c', reply a) := by
  obtain ⟨c', result⟩ := ran
  cases result with
  | ok a => exact ⟨c', a, rfl, rfl⟩
  | error p =>
    cases p with
    | armed who phase key => cases hcalm
    | vacantSlot i => exact absurd rfl (h.intact i)

omit [DecidableEq K] in
/-- An empty cache lists nothing. -/
theorem lists_empty (capacity : Nat) : Lists capacity [] (empty capacity : Lru K V) :=
  ⟨⟨[], consistent_empty capacity⟩, rfl, rfl⟩

/-- A command that no hook interrupts does to the list, and answers, what it does to and
answers for a recency list. -/
theorem Lists.step {capacity : Nat} {l : Recency K V} (h : Lists capacity l c)
    (command : Command K V) (hcalm : (c.step command).2.interrupted = false) :
    Lists capacity (Recency.step capacity l command).1 (c.step command).1 ∧
      (c.step command).2 = (Recency.step capacity l command).2 := by
  obtain ⟨⟨order, hc⟩, rfl, rfl⟩ := h
  have hsound : Sound c.slab.slots.length c := ⟨order, hc, rfl⟩
  have hsame : Lists c.capacity c.toList c := ⟨⟨order, hc⟩, rfl, rfl⟩
  cases command with
  | put key value listener =>
    obtain ⟨c', r, hdone, hanswer⟩ := (hsound.put key value listener).returned hcalm
    obtain ⟨hl, hr⟩ := hc.put_lists hdone
    simp only [Lru.step, hanswer, Recency.step]
    exact ⟨hl, by rw [hr]⟩
  | get key =>
    obtain ⟨c', hdone, hl⟩ := hc.get_lists key
    simp only [Lru.step, hdone, Recency.step]
    exact ⟨hl, rfl⟩
  | peek key => exact ⟨hsame, by simp only [Lru.step, Recency.step, hc.lookup_toList]⟩
  | contains key => exact ⟨hsame, by simp only [Lru.step, Recency.step, hc.isSome_lookup_toList]⟩
  | remove key =>
    obtain ⟨c', r, hdone, hanswer⟩ := (hsound.remove key).returned hcalm
    obtain ⟨hl, hr⟩ := hc.remove_lists hdone
    simp only [Lru.step, hanswer, Recency.step]
    exact ⟨hl, by rw [hr]⟩
  | clear =>
    obtain ⟨c', u, hdone, hanswer⟩ := (hsound.evictWhile _ _).returned hcalm
    have hl := hc.clear_lists hdone
    simp only [Lru.step, clear, hanswer, Recency.step]
    exact ⟨hl, trivial⟩
  | setObserver name => exact ⟨⟨⟨order, hc.congr rfl rfl⟩, rfl, rfl⟩, rfl⟩
  | arm alarm => exact ⟨⟨⟨order, hc.congr rfl rfl⟩, rfl, rfl⟩, rfl⟩

/-- Each command carried out on a recency list, by the list and the answer it leaves. -/
def Recency.history (capacity : Nat) (l : Recency K V) :
    List (Command K V) → List (Recency K V × Reply K V)
  | [] => []
  | command :: rest =>
    Recency.step capacity l command ::
      Recency.history capacity (Recency.step capacity l command).1 rest

/-- A cache and a recency list that list the same go on to do so. -/
theorem Lists.history {capacity : Nat} {l : Recency K V} (h : Lists capacity l c)
    (commands : List (Command K V))
    (hcalm : ∀ answered ∈ c.history commands, answered.2.interrupted = false) :
    (c.history commands).map (fun a => (a.1.toList, a.1.size, a.1.map.isEmpty, a.2)) =
      (Recency.history capacity l commands).map fun a => (a.1, a.1.length, a.1.isEmpty, a.2) := by
  induction commands generalizing c l with
  | nil => rfl
  | cons command rest ih =>
    obtain ⟨hl, hreply⟩ := h.step command (hcalm _ List.mem_cons_self)
    have hrest := ih hl fun answered hmem => hcalm answered (List.mem_cons_of_mem _ hmem)
    obtain ⟨⟨order, hc⟩, -, hlist⟩ := hl
    have hsize := hlist ▸ hc.length_toList
    have hempty : (c.step command).1.map.isEmpty = (Recency.step capacity l command).1.isEmpty := by
      rw [Bool.eq_iff_iff, List.isEmpty_iff_length_eq_zero, List.isEmpty_iff_length_eq_zero, hsize, size]
    simp only [Lru.history, Recency.history, List.map_cons, hrest, hreply, hlist, hsize, hempty]

/-- From the empty cache on, and as long as no hook panics, every command answers what it
answers for a recency list, and leaves a cache that lists, and is as long as, that list. -/
theorem history_refines (capacity : Nat) (commands : List (Command K V))
    (hcalm : ∀ answered ∈ (empty capacity).history commands, answered.2.interrupted = false) :
    ((empty capacity).history commands).map
        (fun a => (a.1.toList, a.1.size, a.1.map.isEmpty, a.2)) =
      (Recency.history capacity [] commands).map fun a => (a.1, a.1.length, a.1.isEmpty, a.2) :=
  Lists.history ⟨⟨[], consistent_empty capacity⟩, rfl, rfl⟩ commands hcalm

/-- Reading the older of two keys makes the other one the next to go. -/
theorem history_refines_eviction :
    let commands : List (Command Nat Nat) :=
      [.put 1 10 (some "a"), .put 2 20 none, .get 1, .put 3 30 none, .remove 1, .put 4 40 none]
    (∀ answered ∈ (empty 2).history commands, answered.2.interrupted = false) ∧
      ((empty 2).history commands).map
          (fun a => (a.1.toList, a.1.size, a.1.map.isEmpty, a.2)) =
        (Recency.history 2 [] commands).map fun a => (a.1, a.1.length, a.1.isEmpty, a.2) :=
  ⟨by decide, history_refines 2 _ (by decide)⟩

end TimedCache.Lru
