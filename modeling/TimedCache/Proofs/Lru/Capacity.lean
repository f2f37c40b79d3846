import TimedCache.Proofs.Lru.Course

/-!
# The capacity of a bounded cache

A bounded cache brings itself within its capacity after it has told the hooks of a new value. If one of
these hooks panics, the new entry is in and nothing is evicted for it, so the cache may hold one entry
more than before. It stays so until the next insertion of a new key that returns, which evicts whatever
is too much. Panics at all other calls come when the entry that they report is already out.
-/

namespace TimedCache.Lru

variable {K V : Type} [DecidableEq K]

section Sizes

variable {capacity : Nat} {l : Recency K (V × Option Name)}

/-- Only an insertion makes a cache larger. -/
theorem length_left_le {command : Command K V}
    (h : ∀ key value listener, command = .put key value listener → (l.lookup key).isSome) (made : Nat) :
    (left l made command).length ≤ l.length := by
  cases command with
  | put key value listener =>
    have hpresent := h key value listener rfl
    obtain ⟨old, hold⟩ := Option.isSome_iff_exists.mp hpresent
    rw [left_replace hold]
    exact Recency.length_use_le hpresent
  | get key =>
    rw [left, Recency.get]
    cases hkey : l.lookup key with
    | none => exact Nat.le_refl _
    | some old => exact Recency.length_use_le (by rw [hkey]; rfl)
  | remove key => exact List.length_filter_le _ _
  | clear => exact (List.drop_sublist _ _).length_le
  | peek | contains | setObserver | arm => exact Nat.le_refl _

/-- An insertion leaves the entries, the new one with them, that were not evicted. -/
theorem length_left_insert {key : K} (hkey : l.lookup key = none) (value : V) (listener : Option Name)
    (made : Nat) : (left l made (.put key value listener)).length = l.length + 1 - (made - 1) := by
  rw [left_insert hkey, List.length_drop, List.length_append, List.length_singleton]

end Sizes

namespace Occasion

/-- A hook of the new value panicked, so that nothing was evicted for it. -/
def cutShort (o : Occasion K V) : Bool := o.inserts && o.panicPhase? == some .cached

/-- A new key was inserted, and whatever was too much was evicted. -/
def settles (o : Occasion K V) : Bool := o.inserts && o.panicPhase? == none

/-- The insertions cut short since the last one that returned, after one more command. -/
def overdue (insertions : Nat) (o : Occasion K V) : Nat :=
  if o.cutShort then insertions + 1 else if o.settles then 0 else insertions

/-- A cut insertion adds an entry, an insertion that returns keeps to the capacity, and no other command
adds any. -/
theorem size_cases {o : Occasion K V} {capacity : Nat} (h : Holds capacity o.before.entries o.before) :
    (o.cutShort ∧ o.after.size = o.before.size + 1) ∨ (o.settles ∧ o.after.size ≤ capacity)
      ∨ (o.cutShort = false ∧ o.settles = false ∧ o.after.size ≤ o.before.size) := by
  obtain ⟨made, hcourse⟩ := h.course o.command
  have hsize : (left o.before.entries made o.command).length = o.after.size := hcourse.holds.length_eq
  rw [← hsize, ← h.length_eq]
  by_cases hinserts : o.inserts
  · rw [cutShort, settles, hinserts, panicPhase?]
    obtain ⟨key, value, listener, hput, hkey⟩ := (inserts_iff h).mp hinserts
    rw [hput] at hcourse ⊢
    rw [length_left_insert hkey]
    have hmade := hcourse.made_le
    rw [length_due_insert capacity hkey] at hmade
    obtain ⟨rfl, hphase⟩ | ⟨rfl, hphase⟩ | ⟨hmore, hphase⟩ := hcourse.insert_cases hkey
    all_goals rw [hphase]
    · exact .inr (.inl ⟨rfl, by omega⟩)
    · exact .inl ⟨rfl, rfl⟩
    · exact .inr (.inr ⟨rfl, rfl, by omega⟩)
  · rw [cutShort, settles, Bool.not_eq_true _ |>.mp hinserts]
    refine .inr (.inr ⟨rfl, rfl, length_left_le (fun key value listener hput => ?_) made⟩)
    by_contra hnone
    exact hinserts ((inserts_iff h).mpr ⟨key, value, listener, hput, Option.not_isSome_iff_eq_none.mp hnone⟩)

/-- A new value came into a full cache, and a panic kept the cache from making room for it. -/
def overflows (o : Occasion K V) : Bool := o.cutShort && decide (o.before.capacity ≤ o.before.size)

/-- From within its capacity, a cache leaves it exactly by a cut insertion when it is full. -/
theorem size_le_iff {o : Occasion K V} {capacity : Nat} (h : Holds capacity o.before.entries o.before)
    (hsize : o.before.size ≤ capacity) : o.after.size ≤ capacity ↔ o.overflows = false := by
  rw [overflows, h.capacity]
  obtain ⟨hcut, hafter⟩ | ⟨hsettles, hafter⟩ | ⟨hcut, -, hafter⟩ := size_cases h
  · rw [hafter, hcut, Bool.true_and, decide_eq_false_iff_not]
    omega
  · have hphase : o.panicPhase? = none := by
      rw [settles, Bool.and_eq_true, beq_iff_eq] at hsettles
      exact hsettles.2
    have hcut : o.cutShort = false := by
      rw [cutShort, hphase]
      exact Bool.and_false _
    rw [hcut, Bool.false_and]
    exact iff_of_true hafter rfl
  · rw [hcut, Bool.false_and]
    exact iff_of_true (Nat.le_trans hafter hsize) rfl

/-- What a cache holds beyond its capacity are insertions that were cut short. -/
theorem size_le_add_overdue {o : Occasion K V} {capacity insertions : Nat}
    (h : Holds capacity o.before.entries o.before) (hsize : o.before.size ≤ capacity + insertions) :
    o.after.size ≤ capacity + o.overdue insertions := by
  rw [overdue]
  obtain ⟨hcut, hafter⟩ | ⟨hsettles, hafter⟩ | ⟨hcut, hsettles, hafter⟩ := size_cases h
  · rw [if_pos hcut]
    omega
  · rw [hsettles, if_pos rfl]
    split <;> omega
  · rw [hcut, hsettles]
    exact Nat.le_trans hafter hsize

end Occasion

/-- The insertions of a run that were cut short since the last one that returned. -/
def overdue (c : Lru K V) (commands : List (Command K V)) : Nat :=
  (c.occasions commands).foldl Occasion.overdue 0

namespace Holds

variable {capacity : Nat} {c : Lru K V} {commands : List (Command K V)}

/-- Along a run, what a cache holds beyond its capacity are insertions that were cut short. -/
theorem size_le_run (h : Holds capacity c.entries c) {insertions : Nat}
    (hsize : c.size ≤ capacity + insertions) :
    (c.run commands).size ≤ capacity + (c.occasions commands).foldl Occasion.overdue insertions := by
  induction commands generalizing c insertions with
  | nil => exact hsize
  | cons command rest ih =>
    exact ih (h.step command) (Occasion.size_le_add_overdue (o := ⟨c, command⟩) h hsize)

/-- From within its capacity, a cache stays within it exactly if no insertion into it while it is full is
cut short. -/
theorem size_le_iff (h : Holds capacity c.entries c) (hsize : c.size ≤ capacity) :
    (∀ o ∈ c.occasions commands, o.after.size ≤ capacity)
      ↔ ∀ o ∈ c.occasions commands, o.overflows = false := by
  induction commands generalizing c with
  | nil => exact iff_of_true (List.forall_mem_nil _) (List.forall_mem_nil _)
  | cons command rest ih =>
    have hfirst := Occasion.size_le_iff (o := ⟨c, command⟩) h hsize
    rw [Lru.occasions, List.forall_mem_cons, List.forall_mem_cons, ← hfirst]
    exact and_congr_right fun hafter => ih (h.step command) hafter

end Holds

/-- After any run, whichever hooks panicked in it, a cache holds at most its capacity and one entry for
each insertion that a panic of the hooks of its new value cut short since the last one that returned. It
stays within its capacity all along exactly if none of these came upon a full cache. -/
theorem size_le_capacity (capacity : Nat) (commands : List (Command K V)) :
    let c : Lru K V := empty capacity
    (c.run commands).size ≤ (c.run commands).capacity + c.overdue commands
      ∧ ((∀ o ∈ c.occasions commands, o.after.size ≤ o.after.capacity)
        ↔ ∀ o ∈ c.occasions commands, o.overflows = false) := by
  intro c
  have hempty : Holds capacity c.entries c := .empty capacity
  have hnone : c.size ≤ capacity := Nat.zero_le _
  have hcapacity : ∀ o ∈ c.occasions commands, o.after.capacity = capacity :=
    fun o ho => ((hempty.occasions o ho).step o.command).capacity
  refine ⟨?_, ?_⟩
  · rw [(hempty.run commands).capacity]
    exact hempty.size_le_run hnone
  · rw [← hempty.size_le_iff hnone]
    exact forall₂_congr fun o ho => by rw [hcapacity o ho]

/-- A listener panics when it is told of its value, and a cache that may hold nothing holds the value. -/
theorem interrupted_insertion_overfull :
    let c := (empty 0 : Lru Nat Nat).run [.arm ⟨"a", .cached, none⟩, .put 1 10 (some "a")]
    c.toList = [(1, 10)] ∧ ¬ c.size ≤ c.capacity := by
  decide

/-- Several insertions that are cut short add up, until one returns. -/
example :
    let cut : List (Command Nat Nat) := [.put 1 10 none, .arm ⟨"a", .cached, none⟩,
      .arm ⟨"a", .cached, none⟩, .put 2 20 (some "a"), .put 3 30 (some "a")]
    let c : Lru Nat Nat := empty 1
    ((c.run cut).size, c.overdue cut) = (3, 2)
      ∧ ((c.run (cut ++ [.put 4 40 none])).toList, c.overdue (cut ++ [.put 4 40 none])) = ([(4, 40)], 0) := by
  decide

end TimedCache.Lru
