import TimedCache.Proofs.Lru.Pairing
import TimedCache.Proofs.Transitions

/-!
# The events of a bounded cache

While no hook panics, every command makes all the calls that it owes, and the observer is told each of
them directly after the listener. So what the observer is told of a key are the lives of the values under
it, and these alternate between in and out: what comes in under a key goes out before the next one.
-/

namespace TimedCache.Lru

variable {K V : Type} [DecidableEq K]

/-- What an observer was told of a key. -/
def observerPhases (observer : Name) (key : K) (log : List (Event K)) : List Phase :=
  (log.filter fun x => x.role == .observer && x.call.who == some observer && x.call.key == key).map
    fun x => x.call.phase

theorem observerPhases_append (observer : Name) (key : K) (log log' : List (Event K)) :
    observerPhases observer key (log ++ log')
      = observerPhases observer key log ++ observerPhases observer key log' := by
  simp [observerPhases]

/-- An observer is told what the listeners are told. -/
theorem observerPhases_paired (observer : Name) (key : K) (calls : List (Call K)) :
    observerPhases observer key (calls.flatMap (paired (some observer)))
      = (about key calls).map Call.phase := by
  induction calls with
  | nil => rfl
  | cons x rest ih =>
    rw [List.flatMap_cons, observerPhases_append, ih, about_cons, List.map_append]
    by_cases hkey : x.key = key <;> simp [observerPhases, paired, hkey]

/-- The calls that the listener of a value that is put gets while no hook panics. -/
def Command.lifeCycle : Command K V → List (Call K)
  | .put key _ listener => [⟨listener, .cached, key⟩, ⟨listener, .uncached, key⟩]
  | _ => []

/-- The command on a recency list whose values are pairs with their listeners. -/
def Command.tagged : Command K V → Command K (V × Option Name)
  | .put key value listener => .put key (value, listener) listener
  | .get key => .get key
  | .peek key => .peek key
  | .contains key => .contains key
  | .remove key => .remove key
  | .clear => .clear
  | .setObserver name => .setObserver name
  | .arm alarm => .arm alarm

/-- The entries that are left when all calls are made are those of a recency list. -/
theorem left_due (capacity : Nat) (l : Recency K (V × Option Name)) (command : Command K V) :
    left l (due capacity l command).length command = (Recency.step capacity l command.tagged).1 := by
  cases command with
  | put key value listener =>
    cases hkey : l.lookup key with
    | none =>
      rw [left_insert hkey, length_due_insert capacity hkey, Nat.add_sub_cancel]
      simp [Command.tagged, Recency.step, Recency.put, hkey, Recency.trim]
    | some old =>
      rw [left_replace hkey]
      simp [Command.tagged, Recency.step, Recency.put, hkey]
  | clear =>
    change l.drop (l.map farewell).length = []
    rw [List.length_map, List.drop_length]
  | get | peek | contains | remove | setObserver | arm => rfl

namespace Occasion

/-- The calls of listeners that the command owes. -/
def owed (o : Occasion K V) : List (Call K) := due o.before.capacity o.before.entries o.command

/-- While no hook panics, a value that is put is announced. -/
theorem arrival?_lifeCycle {o : Occasion K V} (h : o.panicPhase? = none) :
    o.arrival?.toList.flatMap Arrival.lifeCycle = o.command.lifeCycle := by
  rw [arrival?, h]
  cases o.command with
  | put key value listener => simp [Arrival.lifeCycle, Command.lifeCycle]
  | get | peek | contains | remove | clear | setObserver | arm => rfl

end Occasion

/-- What is told of a key in the lives of values is so many times in and out. -/
theorem exists_turns (key : K) (past : List (Occasion K V)) :
    ∃ n, (about key (past.flatMap fun o => o.command.lifeCycle)).map Call.phase = TimedCache.Event.turns n := by
  induction past with
  | nil => exact ⟨0, rfl⟩
  | cons o rest ih =>
    obtain ⟨n, hn⟩ := ih
    rw [List.flatMap_cons, about_append, List.map_append, hn]
    cases o.command with
    | put stored value listener =>
      by_cases hkey : stored = key
      · exact ⟨n + 1, by simp [Command.lifeCycle, about, hkey, TimedCache.Event.turns]⟩
      · exact ⟨n, by simp [Command.lifeCycle, about, hkey]⟩
    | get | peek | contains | remove | clear | setObserver | arm => exact ⟨n, rfl⟩

/-- What an observer and the listeners were told in a run, and which entries went with it. -/
structure Reported (observer : Name) (past : List (Occasion K V)) (c : Lru K V) : Prop where
  /-- The observer is told of a key in turn that it is in and that it is gone, first that it is in. -/
  alternating : ∀ key i phase, (observerPhases observer key c.log)[i]? = some phase →
    phase = if i % 2 = 0 then .cached else .uncached
  /-- A key is present exactly if that is what the observer was told of it last. -/
  present : ∀ key, c.contains key ↔ (observerPhases observer key c.log).getLast? = some .cached
  /-- The listeners of the values put under a key are told that these are in and that they are gone, one
  value after the other and once each; only the one that is present waits for its last call. -/
  lifeCycles : ∀ key, about key (listenerCalls c.log) ++ outstanding key c.entries
    = about key (past.flatMap fun o => o.command.lifeCycle)
  /-- Every command tells what it owes, each listener directly before the observer. -/
  told : ∀ o ∈ past, o.after.log = o.before.log ++ o.owed.flatMap (paired (some observer))
  /-- The entries, with their listeners, change as those of a recency list do. -/
  entries : ∀ o ∈ past,
    o.after.entries = (Recency.step o.before.capacity o.before.entries o.command.tagged).1

/-- An observer is in place, was told what the listeners were told, and was told all of it. -/
structure Observed (observer : Name) (past : List (Occasion K V)) (c : Lru K V) : Prop where
  observer_eq : c.observer = some observer
  holds : Holds c.capacity c.entries c
  lifeCycles : ∀ key, about key (listenerCalls c.log) ++ outstanding key c.entries
    = about key (past.flatMap fun o => o.command.lifeCycle)
  phases : ∀ key, observerPhases observer key c.log = (about key (listenerCalls c.log)).map Call.phase
  told : ∀ o ∈ past, o.after.log = o.before.log ++ o.owed.flatMap (paired (some observer))
  entries : ∀ o ∈ past,
    o.after.entries = (Recency.step o.before.capacity o.before.entries o.command.tagged).1

namespace Observed

variable {observer : Name} {past : List (Occasion K V)} {c : Lru K V}

/-- A command in which no hook panics tells all that it owes. -/
theorem step (h : Observed observer past c) {command : Command K V}
    (hkept : ∀ name, command ≠ .setObserver name)
    (hcalm : Occasion.panicPhase? ⟨c, command⟩ = none) :
    Observed observer (past ++ [⟨c, command⟩]) (c.step command).1 := by
  obtain ⟨made, hcourse⟩ := h.holds.course command
  obtain ⟨hmade, hlog⟩ := hcourse.returned hcalm
  have hafter := hcourse.holds
  have habout := hcourse.about_eq h.holds
  rw [Occasion.arrival?_lifeCycle hcalm] at habout
  rw [hmade, List.take_length] at habout
  rw [hmade, left_due] at hafter
  rw [h.observer_eq] at hlog
  refine ⟨(hcourse.observer_eq hkept).trans h.observer_eq, ?_, fun key => ?_, fun key => ?_, ?_, ?_⟩
  · rw [hafter.capacity]
    exact h.holds.step command
  · rw [hlog, listenerCalls_append, listenerCalls_paired, hafter.entries, ← left_due, about_append,
      List.append_assoc, habout, ← List.append_assoc, h.lifeCycles, List.flatMap_append, about_append,
      List.flatMap_singleton]
  · rw [hlog, observerPhases_append, observerPhases_paired, listenerCalls_append, listenerCalls_paired,
      about_append, List.map_append, h.phases]
  · exact List.forall_mem_append.mpr ⟨h.told, List.forall_mem_singleton.mpr hlog⟩
  · exact List.forall_mem_append.mpr ⟨h.entries, List.forall_mem_singleton.mpr hafter.entries⟩

/-- A run in which no hook panics tells all that it owes. -/
theorem run (h : Observed observer past c) {commands : List (Command K V)}
    (hkept : ∀ name, Command.setObserver name ∉ commands)
    (hcalm : ∀ o ∈ c.occasions commands, o.panicPhase? = none) :
    Observed observer (past ++ c.occasions commands) (c.run commands) := by
  induction commands generalizing c past with
  | nil => rwa [occasions, List.append_nil]
  | cons command rest ih =>
    obtain ⟨hfirst, hrest⟩ := List.forall_mem_cons.mp hcalm
    have hstep := h.step (fun name he => hkept name (he ▸ List.mem_cons_self)) hfirst
    have hlater := ih hstep (fun name hmem => hkept name (List.mem_cons_of_mem _ hmem)) hrest
    rwa [List.append_assoc] at hlater

/-- What the observer was told of a key, with the call that an entry there waits for, is so many times in
and out. -/
theorem exists_turns_eq (h : Observed observer past c) (key : K) : ∃ n,
    observerPhases observer key c.log ++ (c.entries.lookup key).toList.map (fun _ => .uncached)
      = TimedCache.Event.turns n := by
  obtain ⟨n, hn⟩ := exists_turns key past
  refine ⟨n, ?_⟩
  rw [← hn, ← h.lifeCycles, List.map_append, h.phases]
  congr 1
  cases hkey : c.entries.lookup key with
  | none => rw [outstanding_of_not_mem (lookup_eq_none_iff_not_mem.mp hkey)]; rfl
  | some old => rw [outstanding_of_present h.holds.nodup hkey]; rfl

/-- An observer that was told all was told it in turn. -/
theorem reported (h : Observed observer past c) : Reported observer past c where
  alternating key _ _ := by
    obtain ⟨n, hn⟩ := h.exists_turns_eq key
    exact TimedCache.Event.alternating_of_turns hn
  present key := by
    obtain ⟨n, hn⟩ := h.exists_turns_eq key
    rw [← h.holds.isSome_lookup, TimedCache.Event.present_of_turns hn]
  lifeCycles := h.lifeCycles
  told := h.told
  entries := h.entries

end Observed

/-- From an empty cache with an observer on, and while no hook panics, every command makes the calls that
it owes and no others: on a replacement those of the old value before those of the new one, on an
insertion those of the new value before those of the values it evicts, on clearing those of all values in
order. The observer is told of each key in turn that it is in and that it is gone. -/
theorem events_reported (capacity : Nat) (observer : Name) {commands : List (Command K V)}
    (hkept : ∀ name, Command.setObserver name ∉ commands)
    (hcalm : ∀ o ∈ ((empty capacity).setObserver (some observer)).occasions commands,
      o.panicPhase? = none) :
    Reported observer (((empty capacity).setObserver (some observer)).occasions commands)
      (((empty capacity).setObserver (some observer)).run commands) := by
  have hempty : Holds capacity [] (empty capacity : Lru K V) := .empty capacity
  have hstart : Observed observer [] ((empty capacity : Lru K V).setObserver (some observer)) :=
    ⟨rfl, hempty.congr rfl rfl rfl, fun _ => rfl, fun _ => rfl, List.forall_mem_nil _,
      List.forall_mem_nil _⟩
  exact (hstart.run hkept hcalm).reported

/-- A value is replaced, another one is evicted, one is removed and the rest is cleared; look-ups and the
removal of a key that is absent tell nothing. -/
theorem events_reported_turnover :
    let c : Lru Nat Nat := (empty 2).setObserver (some "o")
    let commands : List (Command Nat Nat) :=
      [.put 1 10 (some "a"), .put 2 20 none, .put 1 11 (some "b"), .get 2, .put 3 30 (some "c"), .remove 9,
        .remove 3, .peek 2, .put 4 40 none, .clear]
    observerPhases "o" 1 (c.run commands).log = [.cached, .uncached, .cached, .uncached]
      ∧ Reported "o" (c.occasions commands) (c.run commands) :=
  ⟨by decide, events_reported 2 "o" (by simp) (by decide)⟩

end TimedCache.Lru
