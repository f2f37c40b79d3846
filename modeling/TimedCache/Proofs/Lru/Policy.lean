import TimedCache.Proofs.Lru.Refinement
import TimedCache.Proofs.Lru.Stack

/-!
# Which keys a bounded cache keeps

A put touches its key, and so does a look-up that finds it. Without removals a bounded cache keeps the
keys that were touched last: a key is present exactly if fewer other keys than the capacity were touched
after it, and the cache lists its keys in the order of their last touches. The proof follows a list
without any bound, the stack, of which the cache is always the end that fits.
-/

namespace TimedCache.Lru

variable {K V : Type}

/-- The touch that a command and its answer amount to: a put of a key with its value, or a look-up that
found the key. -/
def Command.touch? : Command K V → Reply K V → Option (K × Option V)
  | .put key value _, _ => some (key, some value)
  | .get key, .value (some _) => some (key, none)
  | _, _ => none

/-- The command neither touches a key nor removes any: it only reads, or it looks up a key in vain. -/
def Command.isIdle : Command K V → Reply K V → Bool
  | .peek _, _ | .contains _, _ | .get _, .value none => true
  | _, _ => false

/-- The command takes entries out. -/
def Command.removes : Command K V → Bool
  | .remove _ | .clear => true
  | _ => false

section Policy

variable [DecidableEq K]

/-- The touches of a run. -/
def touches (c : Lru K V) : List (Command K V) → List (K × Option V)
  | [] => []
  | command :: rest => (command.touch? (c.step command).2).toList ++ (c.step command).1.touches rest

/-- The commands of a run without those that were idle. -/
def withoutIdle (c : Lru K V) : List (Command K V) → List (Command K V)
  | [] => []
  | command :: rest =>
    if command.isIdle (c.step command).2 then (c.step command).1.withoutIdle rest
    else command :: (c.step command).1.withoutIdle rest

/-- The other keys that were touched after the last touch of a key, each of them once. -/
def othersSince (touches : List (K × Option V)) (key : K) : List K :=
  ((touches.map Prod.fst).rtakeWhile (· != key)).dedup

end Policy

section Policy

variable [DecidableEq K] {capacity : Nat} {touched : List (K × Option V)} {c : Lru K V}

/-- The cache lists what fits of the stack of the keys touched so far. -/
structure Recent (capacity : Nat) (touched : List (K × Option V)) (c : Lru K V) : Prop where
  lists : Lists capacity (Recency.trim capacity (Recency.stack touched)) c
  inOrder : Recency.InOrder touched

namespace Recent

/-- A touch of a key with a value brings the cache on. -/
theorem touch (h : Recent capacity touched c) {c' : Lru K V} {key : K} {v : Option V} {value : V}
    (htouch : Recency.touch (Recency.stack touched) (key, v)
      = Recency.use (Recency.stack touched) key value)
    (hlists : Lists capacity (Recency.trim capacity
      (Recency.use (Recency.trim capacity (Recency.stack touched)) key value)) c') :
    Recent capacity (touched ++ [(key, v)]) c' := by
  refine ⟨?_, h.inOrder.concat htouch⟩
  rw [Recency.stack_concat, htouch, ← Recency.trim_use h.inOrder.nodup]
  exact hlists

/-- A command that touches nothing and lists what was listed leaves the cache where it is. -/
theorem untouched (h : Recent capacity touched c) {c' : Lru K V} {t : Option (K × Option V)}
    (ht : t = none) (hlists : Lists capacity (Recency.trim capacity (Recency.stack touched)) c') :
    Recent capacity (touched ++ t.toList) c' := by
  rw [ht, Option.toList_none, List.append_nil]
  exact ⟨hlists, h.inOrder⟩

/-- A look-up touches its key if it is listed, and nothing otherwise. -/
theorem get (h : Recent capacity touched c) {c' : Lru K V} {key : K}
    (hlists : Lists capacity (Recency.get (Recency.trim capacity (Recency.stack touched)) key) c') :
    Recent capacity (touched ++ (Command.touch? (.get key)
      (.value ((Recency.trim capacity (Recency.stack touched)).lookup key))).toList) c' := by
  rw [Recency.get] at hlists
  cases hfound : (Recency.trim capacity (Recency.stack touched)).lookup key with
  | none =>
    rw [hfound] at hlists
    exact h.untouched rfl hlists
  | some value =>
    rw [hfound] at hlists
    have hstack : (Recency.stack touched).lookup key = some value :=
      (lookup_eq_some_iff_mem h.inOrder.nodup).mpr
        ((Recency.trim_sublist _ _).subset (mem_of_lookup hfound))
    have hused : Recency.touch (Recency.stack touched) (key, none)
        = Recency.use (Recency.stack touched) key value := by
      rw [Recency.touch, Recency.get, hstack]
    -- nothing falls off, since the key was listed before
    have hlength : (Recency.use (Recency.trim capacity (Recency.stack touched)) key value).length
        ≤ capacity :=
      Nat.le_trans (Recency.length_use_le (by rw [hfound]; rfl)) (Recency.length_trim_le _ _)
    refine h.touch hused ?_
    rw [Recency.trim_of_length_le hlength]
    exact hlists

/-- A command that takes nothing out brings the cache on by what it touches. -/
theorem step (h : Recent capacity touched c) {command : Command K V} (hkept : command.removes = false)
    (hcalm : (c.step command).2.interrupted = false) :
    Recent capacity (touched ++ (command.touch? (c.step command).2).toList) (c.step command).1 := by
  obtain ⟨hlists, hreply⟩ := h.lists.step command hcalm
  cases command with
  | put key value listener =>
    rw [Recency.step, Recency.put_eq (Recency.length_trim_le _ _)] at hlists
    exact h.touch rfl hlists
  | get key =>
    rw [hreply]
    exact h.get hlists
  | peek | contains | setObserver | arm => exact h.untouched rfl hlists
  | remove | clear => cases hkept

/-- A run that takes nothing out brings the cache on by what it touches. -/
theorem run (h : Recent capacity touched c) {commands : List (Command K V)}
    (hkept : ∀ command ∈ commands, command.removes = false)
    (hcalm : ∀ answered ∈ c.history commands, answered.2.interrupted = false) :
    Recent capacity (touched ++ c.touches commands) (c.run commands) := by
  induction commands generalizing c touched with
  | nil => rwa [touches, List.append_nil]
  | cons command rest ih =>
    obtain ⟨hfirst, hrest⟩ := List.forall_mem_cons.mp hkept
    obtain ⟨hcalm, hlater⟩ := List.forall_mem_cons.mp hcalm
    rw [touches, ← List.append_assoc]
    exact ih (h.step hfirst hcalm) hrest hlater

/-- The keys of the cache are the last of those that were touched, in the order of their last touches. -/
theorem keys_eq (h : Recent capacity touched c) : c.toList.map Prod.fst
    = (touched.map Prod.fst).dedup.drop ((touched.map Prod.fst).dedup.length - capacity) := by
  rw [h.lists.2.2, Recency.trim, List.map_drop, h.inOrder, ← h.inOrder, List.length_map]

/-- A key is present exactly if it is listed. -/
theorem contains_iff (h : Recent capacity touched c) (key : K) :
    c.contains key ↔ key ∈ c.toList.map Prod.fst := by
  obtain ⟨⟨order, hconsistent⟩, -⟩ := h.lists
  rw [← hconsistent.isSome_lookup_toList, Option.isSome_iff_ne_none, Ne, lookup_eq_none_iff_not_mem,
    not_not]

/-- A key is present exactly if it was put and fewer other keys than fit were touched after it. -/
theorem contains_iff_lt (h : Recent capacity touched c) (key : K) : c.contains key
    ↔ (∃ value, (key, some value) ∈ touched) ∧ (othersSince touched key).length < capacity := by
  rw [h.contains_iff, h.keys_eq]
  have hnodup := List.nodup_dedup (touched.map Prod.fst)
  by_cases hmem : key ∈ touched.map Prod.fst
  · obtain ⟨front, hsplit⟩ := dedup_split hmem
    rw [hsplit] at hnodup ⊢
    rw [mem_drop_iff hnodup, othersSince]
    exact (and_iff_right (h.inOrder.exists_put hmem)).symm
  · refine iff_of_false (fun hlisted => ?_) fun ⟨⟨value, hput⟩, _⟩ => ?_
    · exact hmem (List.mem_dedup.mp ((List.drop_sublist _ _).subset hlisted))
    · exact hmem (List.mem_map_of_mem hput)

/-- Each pair that is listed holds the value that was last put under its key. -/
theorem lastPut?_eq (h : Recent capacity touched c) {p : K × V} (hp : p ∈ c.toList) :
    lastPut? touched p.1 = some p.2 := by
  rw [h.lists.2.2] at hp
  rw [← Recency.lookup_stack, lookup_eq_some_iff_mem h.inOrder.nodup]
  exact (Recency.trim_sublist _ _).subset hp

/-- The cache lists the keys that are present in the order of their last touches, with the values that
were last put. -/
theorem toList_eq (h : Recent capacity touched c) : c.toList.map (fun p => (p.1, some p.2))
    = ((touched.map Prod.fst).dedup.filter fun key => c.contains key).map
      fun key => (key, lastPut? touched key) := by
  have hkeys : (touched.map Prod.fst).dedup.filter (fun key => c.contains key)
      = c.toList.map Prod.fst := by
    have hlisted : (fun key => c.contains key) = fun key => decide (key ∈ c.toList.map Prod.fst) := by
      funext key
      rw [Bool.eq_iff_iff, h.contains_iff, decide_eq_true_iff]
    rw [hlisted, h.keys_eq]
    exact filter_mem_drop (List.nodup_dedup _) _
  rw [hkeys, List.map_map]
  exact List.map_congr_left fun p hp => by rw [Function.comp_apply, h.lastPut?_eq hp]

/-- The value of a key that is present is the one that was last put. -/
theorem peek_eq (h : Recent capacity touched c) {key : K} (hpresent : c.contains key) :
    c.peek key = lastPut? touched key := by
  obtain ⟨p, hp, rfl⟩ := List.mem_map.mp ((h.contains_iff key).mp hpresent)
  rw [h.lastPut?_eq hp]
  obtain ⟨⟨order, hconsistent⟩, -⟩ := h.lists
  rw [← hconsistent.lookup_toList, lookup_eq_some_iff_mem hconsistent.nodup_toList]
  exact hp

end Recent

/-- A key that is looked up in vain is not in the map. -/
theorem lookup_map_of_get {key : K} (h : (c.step (.get key)).2 = .value none) :
    c.map.lookup key = none := by
  rw [step, get] at h
  cases hkey : c.map.lookup key with
  | none => rfl
  | some i =>
    -- with a slot the answer is a value or the report of a vacant slot
    exfalso
    rw [hkey] at h
    dsimp only at h
    generalize (if c.slab.tail = some i then some c.slab else c.refresh? i) = slab at h
    cases slab with
    | none => cases h
    | some slab =>
      rw [withSlab] at h
      split at h <;> cases h

/-- An idle command leaves the cache as it is. -/
theorem step_of_isIdle {command : Command K V} (h : command.isIdle (c.step command).2) :
    (c.step command).1 = c := by
  cases command with
  | peek | contains => rfl
  | get key =>
    cases hreply : (c.step (.get key)).2 with
    | value v =>
      rw [hreply] at h
      cases v with
      | none => rw [step, get, lookup_map_of_get hreply]; rfl
      | some value => cases h
    | nothing | flag | panicked => rw [hreply] at h; cases h
  | put | remove | clear | setObserver | arm => cases h

/-- Without its idle commands a run leads to the same cache. -/
theorem run_withoutIdle (c : Lru K V) (commands : List (Command K V)) :
    c.run (c.withoutIdle commands) = c.run commands := by
  induction commands generalizing c with
  | nil => rfl
  | cons command rest ih =>
    rw [withoutIdle]
    split
    · next hidle =>
      calc
        c.run ((c.step command).1.withoutIdle rest)
            = (c.step command).1.run ((c.step command).1.withoutIdle rest) := by
          rw [step_of_isIdle hidle]
        _ = (c.step command).1.run rest := ih _
    · exact ih _

/-- The cache holds what the touches so far say: the keys that were put and that fewer other keys than
the capacity were touched after, with the values last put, in the order of the last touches. -/
structure FollowsTouches (capacity : Nat) (touched : List (K × Option V)) (c : Lru K V) : Prop where
  contains_iff : ∀ key, c.contains key
    ↔ (∃ value, (key, some value) ∈ touched) ∧ (othersSince touched key).length < capacity
  peek_eq : ∀ key, c.contains key → c.peek key = lastPut? touched key
  toList_eq : c.toList.map (fun p => (p.1, some p.2))
    = ((touched.map Prod.fst).dedup.filter fun key => c.contains key).map
      fun key => (key, lastPut? touched key)

/-- A run from the empty cache that takes nothing out, and in which no hook panics, leads to the keys
that fewer others than the capacity were touched after, in the order of their last touches and with the
values last put. What only reads, or looks up a key in vain, has no part in it. -/
theorem run_keeps_last_touched (capacity : Nat) {commands : List (Command K V)}
    (hkept : ∀ command ∈ commands, command.removes = false)
    (hcalm : ∀ answered ∈ (empty capacity).history commands, answered.2.interrupted = false) :
    FollowsTouches capacity ((empty capacity).touches commands) ((empty capacity).run commands)
      ∧ (empty capacity).run ((empty capacity).withoutIdle commands)
        = (empty capacity).run commands := by
  have hnothing : Recency.trim capacity ([] : Recency K V) = [] := List.drop_nil
  have hempty : Recent capacity [] (empty capacity : Lru K V) := ⟨hnothing ▸ lists_empty capacity, rfl⟩
  have hrun := hempty.run hkept hcalm
  rw [List.nil_append] at hrun
  exact ⟨⟨hrun.contains_iff_lt, fun _ => hrun.peek_eq, hrun.toList_eq⟩, run_withoutIdle _ commands⟩

/-- A key is kept by a look-up, another one is evicted and looked up in vain, and the first one is put
again. -/
theorem run_keeps_last_touched_refreshed :
    let commands : List (Command Nat Nat) :=
      [.put 1 10 none, .put 2 20 none, .get 1, .put 3 30 (some "a"), .get 2, .peek 3, .put 1 11 none,
        .contains 2]
    ((empty 2).run commands).toList = [(3, 30), (1, 11)]
      ∧ FollowsTouches 2 ((empty 2).touches commands) ((empty 2).run commands)
      ∧ (empty 2).run ((empty 2).withoutIdle commands) = (empty 2).run commands :=
  ⟨by decide, run_keeps_last_touched 2 (by decide) (by decide)⟩

end Policy
end TimedCache.Lru
