import TimedCache.Proofs.Lru.Recency
import TimedCache.Proofs.Lru.Refinement

/-!
# A larger cache includes a smaller one

Two bounded caches of different capacity carry out the same commands. They soon hold different
entries, since a key may be gone from the smaller one and still be used in the larger one. But what
the smaller one lists is always a part of what the larger one lists, in the same order, and the larger
one is never ahead by more entries than its capacity is larger. More room never costs a hit.
-/

namespace TimedCache.Lru

variable {K V : Type}

namespace Recency

/-- The small list is a part of the large one, which has no more than some pairs more. -/
structure Nested (slack : Nat) (small large : Recency K V) : Prop where
  sublist : small.Sublist large
  gap : large.length ≤ small.length + slack

namespace Nested

variable {slack : Nat} {small large : Recency K V}

/-- What fits of both lists is nested, if the capacities are as far apart as the lists may be. -/
theorem trim (h : Nested slack small large) (capacity : Nat) :
    Nested slack (trim capacity small) (trim (capacity + slack) large) := by
  have hgap := h.gap
  have hshort : large.length - (capacity + slack) ≤ small.length - capacity := by omega
  refine ⟨?_, ?_⟩
  · -- the smaller list loses at least as much of its front
    exact (List.drop_sublist_drop_left small hshort).trans (h.sublist.drop _)
  · rw [trim_length, trim_length]
    omega

variable [DecidableEq K]

/-- Without a key the lists are nested: where the small one loses it, so does the large one. -/
theorem remove (h : Nested slack small large) (key : K) :
    Nested slack (remove small key) (remove large key) := by
  have hcount := h.sublist.countP_le (p := fun p => !(p.1 != key))
  have hsmall := List.length_eq_countP_add_countP (fun p : K × V => p.1 != key) (l := small)
  have hlarge := List.length_eq_countP_add_countP (fun p : K × V => p.1 != key) (l := large)
  have hgap := h.gap
  refine ⟨h.sublist.filter _, ?_⟩
  rw [Recency.remove, Recency.remove, ← List.countP_eq_length_filter, ← List.countP_eq_length_filter]
  simp only [Bool.not_eq_true, Bool.decide_eq_false] at hsmall hlarge
  omega

/-- Using a key in both lists keeps them nested. -/
theorem use (h : Nested slack small large) (key : K) (value : V) :
    Nested slack (use small key value) (use large key value) := by
  have hremoved := h.remove key
  refine ⟨hremoved.sublist.append_right _, ?_⟩
  have hgap := hremoved.gap
  rw [Recency.use, Recency.use, List.length_append, List.length_append]
  omega

/-- What is found in the small list is found in the large one, if that has each key once. -/
theorem lookup (h : Nested slack small large) (hnodup : (large.map Prod.fst).Nodup) {key : K} {value : V}
    (hfound : small.lookup key = some value) : large.lookup key = some value :=
  (lookup_eq_some_iff_mem hnodup).mpr (h.sublist.subset (mem_of_lookup hfound))

variable {capacity : Nat}

/-- Putting a key in both lists keeps them nested. -/
theorem put (h : Nested slack small large) (hsmall : Fits capacity small)
    (hlarge : Fits (capacity + slack) large) (key : K) (value : V) :
    Nested slack (put capacity small key value) (put (capacity + slack) large key value) := by
  rw [put_eq hsmall.length_le, put_eq hlarge.length_le]
  exact (h.use key value).trim capacity

/-- Reading a key keeps the lists nested, also where only the large one has it. -/
theorem get (h : Nested slack small large) (hnodup : (large.map Prod.fst).Nodup) (key : K) :
    Nested slack (get small key) (get large key) := by
  rw [Recency.get, Recency.get]
  cases hsmall : small.lookup key with
  | some value =>
    rw [h.lookup hnodup hsmall]
    exact h.use key value
  | none =>
    cases hlarge : large.lookup key with
    | none => exact h
    | some value =>
      -- the key moves to the end of the large list, past everything that the small one has
      have hremoved := (h.remove key).sublist
      rw [remove_of_absent hsmall] at hremoved
      have hlength : (Recency.use large key value).length ≤ large.length :=
        length_use_le (by rw [hlarge]; rfl)
      exact ⟨hremoved.trans (List.sublist_append_left _ _), Nat.le_trans hlength h.gap⟩

/-- A command keeps the lists nested. -/
theorem step (h : Nested slack small large) (hsmall : Fits capacity small)
    (hlarge : Fits (capacity + slack) large) (command : Command K V) :
    Nested slack (step capacity small command).1 (step (capacity + slack) large command).1 := by
  cases command with
  | put key value listener => exact h.put hsmall hlarge key value
  | get key => exact h.get hlarge.nodup key
  | remove key => exact h.remove key
  | clear => exact ⟨List.Sublist.refl _, Nat.zero_le _⟩
  | peek | contains | setObserver | arm => exact h

end Nested

end Recency

/-- What the first answer finds, the second one finds too, with the same value. -/
structure Reply.Covered (small large : Reply K V) : Prop where
  value : ∀ v, small = .value (some v) → large = .value (some v)
  flag : small = .flag true → large = .flag true

variable [DecidableEq K]

/-- A command finds in the large list what it finds in the small one. -/
theorem Recency.Nested.covered {slack capacity capacity' : Nat} {small large : Recency K V}
    (h : Nested slack small large) (hnodup : (large.map Prod.fst).Nodup) (command : Command K V) :
    Reply.Covered (Recency.step capacity small command).2 (Recency.step capacity' large command).2 := by
  have hvalue (key : K) (v : V) (hfound : (.value (small.lookup key) : Reply K V) = .value (some v)) :
      (.value (large.lookup key) : Reply K V) = .value (some v) :=
    congrArg _ (h.lookup hnodup (Reply.value.inj hfound))
  cases command with
  | put key | get key | peek key | remove key => exact ⟨hvalue key, fun hflag => by cases hflag⟩
  | contains key =>
    refine ⟨fun _ hreply => (by cases hreply), fun hflag => ?_⟩
    obtain ⟨v, hfound⟩ := Option.isSome_iff_exists.mp (Reply.flag.inj hflag)
    simp only [Recency.step, h.lookup hnodup hfound, Option.isSome_some]
  | clear | setObserver | arm => exact ⟨fun _ hreply => (by cases hreply), fun hreply => by cases hreply⟩

/-- What the small cache lists is part of what the large one lists, which has at most some entries more,
and what the last command found in the small one it found in the large one. -/
structure Included (slack : Nat) (small large : Lru K V × Reply K V) : Prop where
  sublist : small.1.toList.Sublist large.1.toList
  gap : large.1.size ≤ small.1.size + slack
  covered : Reply.Covered small.2 large.2

/-- Two caches that list nested sequences go on to do so, if their capacities are as far apart as the
sequences may be. -/
theorem Lists.included {slack capacity : Nat} {small large : Recency K V} {c d : Lru K V}
    (hc : Lists capacity small c) (hd : Lists (capacity + slack) large d)
    (h : Recency.Nested slack small large) (hsmall : Recency.Fits capacity small)
    (hlarge : Recency.Fits (capacity + slack) large) (commands : List (Command K V))
    (hcalm : ∀ answered ∈ c.history commands, answered.2.interrupted = false)
    (hcalm' : ∀ answered ∈ d.history commands, answered.2.interrupted = false) :
    List.Forall₂ (Included slack) (c.history commands) (d.history commands) := by
  induction commands generalizing small large c d with
  | nil => exact .nil
  | cons command rest ih =>
    obtain ⟨hfirst, hrest⟩ := List.forall_mem_cons.mp hcalm
    obtain ⟨hfirst', hrest'⟩ := List.forall_mem_cons.mp hcalm'
    obtain ⟨hc, hreply⟩ := hc.step command hfirst
    obtain ⟨hd, hreply'⟩ := hd.step command hfirst'
    have hnested := h.step hsmall hlarge command
    refine .cons ⟨?_, ?_, ?_⟩ (ih hc hd hnested (hsmall.step command) (hlarge.step command) hrest hrest')
    · rw [hc.2.2, hd.2.2]
      exact hnested.sublist
    · obtain ⟨⟨_, hconsistent⟩, -, hlist⟩ := hc
      obtain ⟨⟨_, hconsistent'⟩, -, hlist'⟩ := hd
      rw [← hconsistent.length_toList, ← hconsistent'.length_toList, hlist, hlist']
      exact hnested.gap
    · rw [hreply, hreply']
      exact h.covered hlarge.nodup command

/-- The same commands, as long as no hook panics, lead two empty caches of different capacity through
states in which the smaller one lists a part of what the larger one lists, and is behind by no more
entries than its capacity is smaller. Whatever a command finds in the smaller one, it finds in the
larger one, with the same value. -/
theorem larger_includes_smaller {small large : Nat} (hcapacity : small ≤ large)
    (commands : List (Command K V))
    (hsmall : ∀ answered ∈ (empty small).history commands, answered.2.interrupted = false)
    (hlarge : ∀ answered ∈ (empty large).history commands, answered.2.interrupted = false) :
    List.Forall₂ (Included (large - small)) ((empty small).history commands)
      ((empty large).history commands) := by
  obtain ⟨slack, rfl⟩ := Nat.exists_eq_add_of_le hcapacity
  rw [Nat.add_sub_cancel_left]
  exact Lists.included (lists_empty small) (lists_empty _) ⟨List.Sublist.refl _, Nat.zero_le _⟩
    (Recency.fits_nil _) (Recency.fits_nil _) commands hsmall hlarge

/-- A key is read that only the larger cache still has, and another one is removed. -/
def divergingRun : List (Command Nat Nat) :=
  [.put 1 10 none, .put 2 20 (some "a"), .put 3 30 none, .get 1, .remove 2, .put 4 40 none, .contains 3]

/-- The caches differ in what they hold and in its order, and the smaller one is a part of the larger. -/
theorem larger_includes_smaller_diverging :
    ((empty 2).run divergingRun).toList = [(3, 30), (4, 40)]
      ∧ ((empty 3).run divergingRun).toList = [(3, 30), (1, 10), (4, 40)]
      ∧ List.Forall₂ (Included 1) ((empty 2).history divergingRun) ((empty 3).history divergingRun) := by
  have hsmall : ∀ answered ∈ (empty 2).history divergingRun, answered.2.interrupted = false := by decide
  have hlarge : ∀ answered ∈ (empty 3).history divergingRun, answered.2.interrupted = false := by decide
  exact ⟨by decide, by decide, larger_includes_smaller (Nat.le_succ 2) divergingRun hsmall hlarge⟩

end TimedCache.Lru
