import Mathlib.Data.List.Perm.Basic
import TimedCache.Proofs.Lru.Course

/-!
# The pairing of listener calls

The listener of a value is told that the value came in, and then that it is gone. At any moment, and
whichever hooks panicked, the calls on record under a key, together with the one that an entry under it
still waits for, are the lives of the values that were put under the key, one after the other. Only one
kind of panic leaves a value out: when a key that is present is put, and a hook of the old value panics,
the new value is in and is not told so, though it is told when it goes.
-/

namespace TimedCache.Lru

variable {K V : Type}

/-- The calls of listeners on record. A value without a listener has its calls too, without a name. -/
def listenerCalls (log : List (Event K)) : List (Call K) :=
  (log.filter fun x => x.role == .listener).map Event.call

theorem listenerCalls_append (log log' : List (Event K)) :
    listenerCalls (log ++ log') = listenerCalls log ++ listenerCalls log' := by
  simp [listenerCalls]

/-- Calls recorded with those of the observer between them. -/
theorem listenerCalls_paired (observer : Option Name) (calls : List (Call K)) :
    listenerCalls (calls.flatMap (paired observer)) = calls := by
  induction calls with
  | nil => rfl
  | cons x rest ih =>
    rw [List.flatMap_cons, listenerCalls_append, ih]
    rfl

/-- The calls of listeners that a record is of. -/
theorem Told.listenerCalls_eq {observer : Option Name} {calls : List (Call K)} {events : List (Event K)}
    (h : Told observer calls events) : listenerCalls events = calls := by
  cases h with
  | whole => exact listenerCalls_paired observer calls
  | cut calls x =>
    rw [listenerCalls_append, listenerCalls_paired]
    rfl

/-- The number of calls that tell of a transition. -/
def toldCount (phase : Phase) (calls : List (Call K)) : Nat := calls.countP fun x => x.phase == phase

theorem toldCount_append (phase : Phase) (calls calls' : List (Call K)) :
    toldCount phase (calls ++ calls') = toldCount phase calls + toldCount phase calls' :=
  List.countP_append

/-- A value that was put, and whether its listener was told so. -/
structure Arrival (K : Type) where
  key : K
  listener : Option Name
  announced : Bool
deriving DecidableEq

/-- All that the listener of a value is told: that the value is in, and that it is gone. -/
def Arrival.lifeCycle (a : Arrival K) : List (Call K) :=
  (if a.announced then [⟨a.listener, .cached, a.key⟩] else []) ++ [⟨a.listener, .uncached, a.key⟩]

/-- There is one announcement for each value that was announced. -/
theorem toldCount_cached_lifeCycles (arrivals : List (Arrival K)) :
    toldCount .cached (arrivals.flatMap Arrival.lifeCycle) = arrivals.countP Arrival.announced := by
  induction arrivals with
  | nil => rfl
  | cons a rest ih =>
    rw [List.flatMap_cons, toldCount_append, ih, List.countP_cons, Nat.add_comm]
    cases hannounced : a.announced <;> simp [Arrival.lifeCycle, toldCount, hannounced]

/-- There is one farewell for each value. -/
theorem toldCount_uncached_lifeCycles (arrivals : List (Arrival K)) :
    toldCount .uncached (arrivals.flatMap Arrival.lifeCycle) = arrivals.length := by
  induction arrivals with
  | nil => rfl
  | cons a rest ih =>
    rw [List.flatMap_cons, toldCount_append, ih, List.length_cons, Nat.add_comm]
    cases hannounced : a.announced <;> simp [Arrival.lifeCycle, toldCount, hannounced]

/-- Entries wait for farewells only. -/
theorem toldCount_farewells (phase : Phase) (l : Recency K (V × Option Name)) :
    toldCount phase (l.map farewell) = if phase = .uncached then l.length else 0 := by
  induction l with
  | nil => simp [toldCount]
  | cons e rest ih =>
    have hcons := toldCount_append phase [farewell e] (rest.map farewell)
    rw [List.map_cons]
    refine hcons.trans ?_
    rw [ih]
    cases phase <;> simp [toldCount, farewell, Nat.add_comm]

section Keys

variable [DecidableEq K] {key : K} {l : Recency K (V × Option Name)}

/-- Those of some calls that are about a key. -/
def about (key : K) (calls : List (Call K)) : List (Call K) := calls.filter fun x => x.key == key

theorem about_append (key : K) (calls calls' : List (Call K)) :
    about key (calls ++ calls') = about key calls ++ about key calls' := List.filter_append ..

theorem about_cons (key : K) (x : Call K) (calls : List (Call K)) :
    about key (x :: calls) = (if x.key = key then [x] else []) ++ about key calls := by
  by_cases h : x.key = key <;> simp [about, h]

/-- Calls that agree key by key are the same ones in another order. -/
theorem perm_of_about {calls calls' : List (Call K)} (h : ∀ key, about key calls = about key calls') :
    calls.Perm calls' := by
  have hcount (x : Call K) (calls : List (Call K)) : (about x.key calls).count x = calls.count x :=
    List.count_filter (by simp)
  refine List.perm_iff_count.mpr fun x => ?_
  rw [← hcount x calls, h, hcount]

/-- The calls that the entries under a key still wait for. -/
def outstanding (key : K) (l : Recency K (V × Option Name)) : List (Call K) := about key (l.map farewell)

theorem outstanding_append (key : K) (l l' : Recency K (V × Option Name)) :
    outstanding key (l ++ l') = outstanding key l ++ outstanding key l' := by
  rw [outstanding, List.map_append, about_append]
  rfl

theorem outstanding_singleton (key : K) (e : K × V × Option Name) :
    outstanding key [e] = if e.1 = key then [farewell e] else [] := by
  by_cases h : e.1 = key <;> simp [outstanding, about, farewell, h]

/-- Under a key that is absent nothing waits for a call. -/
theorem outstanding_of_not_mem (hkey : key ∉ l.map Prod.fst) : outstanding key l = [] := by
  refine List.filter_eq_nil_iff.mpr fun x hx => ?_
  obtain ⟨e, he, rfl⟩ := List.mem_map.mp hx
  rw [beq_iff_eq]
  exact fun hk => hkey (hk ▸ List.mem_map_of_mem he)

/-- Under a key that is present the entry waits for its farewell. -/
theorem outstanding_of_present (hnodup : (l.map Prod.fst).Nodup) {old : V × Option Name}
    (hkey : l.lookup key = some old) : outstanding key l = [farewell (key, old)] := by
  obtain ⟨front, back, rfl⟩ := List.append_of_mem (mem_of_lookup hkey)
  rw [List.map_append, List.map_cons] at hnodup
  have hnot := (List.nodup_cons.mp (List.nodup_middle.mp hnodup)).1
  obtain ⟨hfront, hback⟩ := not_or.mp (List.mem_append.not.mp hnot)
  rw [outstanding_append, ← List.singleton_append, outstanding_append, outstanding_of_not_mem hfront,
    outstanding_of_not_mem hback, outstanding_singleton, if_pos rfl]
  rfl

/-- Removing a key leaves what waits under the others. -/
theorem outstanding_remove (key removed : K) (l : Recency K (V × Option Name)) :
    outstanding key (Recency.remove l removed) = if key = removed then [] else outstanding key l := by
  by_cases hkey : key = removed
  · subst hkey
    rw [if_pos rfl]
    exact outstanding_of_not_mem (by simp [Recency.remove])
  · rw [if_neg hkey, outstanding, outstanding, about, about, List.filter_map, List.filter_map,
      Recency.remove, List.filter_filter]
    congr 1
    refine List.filter_congr fun e _ => ?_
    by_cases he : e.1 = key <;> simp [farewell, he, hkey]

/-- Using a key makes its entry the one that waits there. -/
theorem outstanding_use (key used : K) (v : V × Option Name) (l : Recency K (V × Option Name)) :
    outstanding key (Recency.use l used v)
      = if key = used then [farewell (used, v)] else outstanding key l := by
  rw [Recency.use, outstanding_append, outstanding_remove, outstanding_singleton]
  by_cases hkey : key = used <;> simp [hkey, eq_comm]

/-- Reading a key leaves all entries waiting. -/
theorem outstanding_get (hnodup : (l.map Prod.fst).Nodup) (key read : K) :
    outstanding key (Recency.get l read) = outstanding key l := by
  rw [Recency.get]
  cases hkey : l.lookup read with
  | none => rfl
  | some old =>
    change outstanding key (Recency.use l read old) = _
    rw [outstanding_use]
    by_cases hread : key = read
    · subst hread
      rw [if_pos rfl, outstanding_of_present hnodup hkey]
    · rw [if_neg hread]

end Keys

section Arrivals

variable [DecidableEq K]

/-- The value that a command puts. It is not announced if a hook of the value it replaces panics. -/
def Occasion.arrival? (o : Occasion K V) : Option (Arrival K) :=
  match o.command with
  | .put key _ listener => some ⟨key, listener, o.inserts || o.panicPhase? != some .uncached⟩
  | _ => none

/-- The values that were put in a run. -/
def arrivals (c : Lru K V) (commands : List (Command K V)) : List (Arrival K) :=
  (c.occasions commands).filterMap Occasion.arrival?

/-- The listener calls on record and those that entries wait for are, key by key, the lives of the values
that arrived. -/
def Paired (arrived : List (Arrival K)) (c : Lru K V) : Prop :=
  ∀ key, about key (listenerCalls c.log) ++ outstanding key c.entries
    = about key (arrived.flatMap Arrival.lifeCycle)

variable {capacity made : Nat} {c : Lru K V} {key : K} {value : V} {listener : Option Name}

/-- A value under a new key is announced, even where the announcement panics. -/
theorem arrival?_insert (h : Holds capacity c.entries c) (hkey : c.entries.lookup key = none) :
    Occasion.arrival? ⟨c, .put key value listener⟩ = some ⟨key, listener, true⟩ := by
  have hinserts := (Occasion.inserts_iff (o := ⟨c, .put key value listener⟩) h).mpr
    ⟨key, value, listener, rfl, hkey⟩
  rw [Occasion.arrival?, hinserts, Bool.true_or]

/-- A value that replaces another one is announced unless a hook of that one panics. -/
theorem arrival?_replace (h : Holds capacity c.entries c) {old : V × Option Name}
    (hkey : c.entries.lookup key = some old) :
    Occasion.arrival? ⟨c, .put key value listener⟩
      = some ⟨key, listener, (c.step (.put key value listener)).2.panicPhase? != some .uncached⟩ := by
  have hinserts : Occasion.inserts ⟨c, .put key value listener⟩ = false := by
    rw [Bool.eq_false_iff, Ne, Occasion.inserts_iff h]
    rintro ⟨_, _, _, hput, hnone⟩
    cases hput
    rw [hkey] at hnone
    cases hnone
  rw [Occasion.arrival?, hinserts, Bool.false_or]
  rfl

/-- What is said under a key after an insertion: all that waits, the new value's call among it, is
evicted in part, and its calls are then made and not waited for. -/
theorem Course.about_insert (h : Course capacity c.entries (.put key value listener) c made)
    (hholds : Holds capacity c.entries c) (hkey : c.entries.lookup key = none) (other : K) :
    about other ((due capacity c.entries (.put key value listener)).take made)
        ++ outstanding other (left c.entries made (.put key value listener))
      = outstanding other c.entries ++ about other
        ((Occasion.arrival? ⟨c, .put key value listener⟩).toList.flatMap Arrival.lifeCycle) := by
  have hmade := h.made_le
  rw [length_due_insert capacity hkey] at hmade
  obtain ⟨gone, rfl⟩ : ∃ gone, made = gone + 1 := by
    obtain ⟨rfl, -⟩ | ⟨rfl, -⟩ | ⟨hmore, -⟩ := h.insert_cases hkey
    · exact ⟨_, rfl⟩
    · exact ⟨0, rfl⟩
    · exact ⟨made - 1, by omega⟩
  have hcalls : ((due capacity c.entries (.put key value listener)).take (gone + 1))
      = ⟨listener, .cached, key⟩ :: ((c.entries ++ [(key, value, listener)]).take gone).map farewell := by
    rw [due_insert capacity hkey, List.take_succ_cons, ← List.map_take, List.take_take,
      Nat.min_eq_left (by omega)]
  rw [hcalls, left_insert hkey, arrival?_insert hholds hkey, about_cons, List.append_assoc]
  change _ ++ (outstanding other _ ++ _) = _
  rw [← outstanding_append, Nat.add_sub_cancel, List.take_append_drop, outstanding_append,
    outstanding_singleton]
  by_cases hother : key = other
  · subst hother
    rw [outstanding_of_not_mem (lookup_eq_none_iff_not_mem.mp hkey)]
    simp [about, Arrival.lifeCycle, farewell]
  · simp [about, Arrival.lifeCycle, hother]

/-- What is said under a key after a replacement: the call of the old value is made, and where it does
not panic also the first one of the new value. -/
theorem Course.about_replace (h : Course capacity c.entries (.put key value listener) c made)
    (hholds : Holds capacity c.entries c) {old : V × Option Name}
    (hkey : c.entries.lookup key = some old) (other : K) :
    about other ((due capacity c.entries (.put key value listener)).take made)
        ++ outstanding other (left c.entries made (.put key value listener))
      = outstanding other c.entries ++ about other
        ((Occasion.arrival? ⟨c, .put key value listener⟩).toList.flatMap Arrival.lifeCycle) := by
  have hold := outstanding_of_present hholds.nodup hkey
  rw [due_replace capacity hkey, left_replace hkey, arrival?_replace hholds hkey, outstanding_use]
  obtain ⟨rfl, hphase⟩ | ⟨rfl, hphase⟩ := h.replace_cases hkey
  · have hannounced : ((c.step (.put key value listener)).2.panicPhase? != some .uncached) = true :=
      bne_iff_ne.mpr hphase
    rw [hannounced]
    by_cases hother : other = key
    · subst hother
      rw [hold]
      simp [about, Arrival.lifeCycle, farewell]
    · simp [about, Arrival.lifeCycle, farewell, hother, Ne.symm hother]
  · rw [hphase]
    by_cases hother : other = key
    · subst hother
      rw [hold]
      simp [about, Arrival.lifeCycle, farewell]
    · simp [about, Arrival.lifeCycle, farewell, hother, Ne.symm hother]

/-- The calls that a command made under a key, with those it leaves waiting, are those that waited before
and the life of the value that it put. -/
theorem Course.about_eq {command : Command K V} (h : Course capacity c.entries command c made)
    (hholds : Holds capacity c.entries c) (key : K) :
    about key ((due capacity c.entries command).take made) ++ outstanding key (left c.entries made command)
      = outstanding key c.entries ++ about key
        ((Occasion.arrival? ⟨c, command⟩).toList.flatMap Arrival.lifeCycle) := by
  cases command with
  | put stored value listener =>
    cases hkey : c.entries.lookup stored with
    | none => exact h.about_insert hholds hkey key
    | some old => exact h.about_replace hholds hkey key
  | get read =>
    change about key ([].take made) ++ outstanding key (Recency.get c.entries read) = _ ++ []
    rw [List.take_nil, List.append_nil, outstanding_get hholds.nodup]
    rfl
  | remove removed =>
    change _ ++ outstanding key (Recency.remove c.entries removed) = _ ++ []
    rw [List.append_nil]
    cases hkey : c.entries.lookup removed with
    | none =>
      rw [Recency.remove_of_absent hkey, due, hkey, Option.toList_none, List.map_nil, List.take_nil]
      rfl
    | some old =>
      have hdue := due_remove capacity hkey
      have hmade := h.made_le
      rw [hdue, List.length_singleton] at hmade
      obtain rfl := Nat.le_antisymm hmade (h.made_pos (by rw [hdue]; exact List.cons_ne_nil _ _))
      rw [hdue, List.take_one, outstanding_remove]
      by_cases hremoved : key = removed
      · subst hremoved
        rw [outstanding_of_present hholds.nodup hkey]
        simp [about, farewell]
      · simp [about, farewell, hremoved, Ne.symm hremoved]
  | clear =>
    change about key ((c.entries.map farewell).take made) ++ outstanding key (c.entries.drop made) = _ ++ []
    rw [← List.map_take, List.append_nil]
    change outstanding key _ ++ _ = _
    rw [← outstanding_append, List.take_append_drop]
  | peek | contains | setObserver | arm =>
    change about key ([].take made) ++ outstanding key c.entries = _ ++ []
    rw [List.take_nil, List.append_nil]
    rfl

namespace Paired

variable {arrived : List (Arrival K)}

/-- A command keeps the calls paired, with the life of the value that it put. -/
theorem step (h : Paired arrived c) (hholds : Holds capacity c.entries c) (command : Command K V) :
    Paired (arrived ++ (Occasion.arrival? ⟨c, command⟩).toList) (c.step command).1 := by
  intro key
  obtain ⟨made, hcourse⟩ := hholds.course command
  obtain ⟨events, htold, hlog⟩ := hcourse.told
  rw [hlog, listenerCalls_append, htold.listenerCalls_eq, hcourse.holds.entries, about_append,
    List.append_assoc, hcourse.about_eq hholds, ← List.append_assoc, h, List.flatMap_append, about_append]

/-- A run keeps the calls paired, with the lives of the values that it put. -/
theorem run (h : Paired arrived c) (hholds : Holds capacity c.entries c) (commands : List (Command K V)) :
    Paired (arrived ++ c.arrivals commands) (c.run commands) := by
  induction commands generalizing c arrived with
  | nil => rwa [arrivals, occasions, List.filterMap_nil, List.append_nil]
  | cons command rest ih =>
    have hrest := ih (h.step hholds command) (hholds.step command)
    have harrivals : (Occasion.arrival? ⟨c, command⟩).toList ++ (c.step command).1.arrivals rest
        = c.arrivals (command :: rest) := by
      rw [arrivals, arrivals, occasions, List.filterMap_cons]
      cases Occasion.arrival? ⟨c, command⟩ <;> rfl
    rwa [List.append_assoc, harrivals] at hrest

/-- A listener is told that its value is in for each value that was announced, and that it is gone for
each value that is no longer there. -/
theorem counts (h : Paired arrived c) (hholds : Holds capacity c.entries c) :
    toldCount .cached (listenerCalls c.log) = arrived.countP Arrival.announced
      ∧ toldCount .uncached (listenerCalls c.log) + c.size = arrived.length := by
  have hperm : (listenerCalls c.log ++ c.entries.map farewell).Perm (arrived.flatMap Arrival.lifeCycle) :=
    perm_of_about fun key => (about_append _ _ _).trans (h key)
  have hcount (phase : Phase) : toldCount phase (listenerCalls c.log) + toldCount phase (c.entries.map farewell)
      = toldCount phase (arrived.flatMap Arrival.lifeCycle) := by
    rw [← toldCount_append]
    exact hperm.countP_eq _
  have hcached := hcount .cached
  have huncached := hcount .uncached
  rw [toldCount_farewells, toldCount_cached_lifeCycles] at hcached
  rw [toldCount_farewells, toldCount_uncached_lifeCycles, if_pos rfl, hholds.length_eq] at huncached
  exact ⟨hcached, huncached⟩

end Paired

/-- What listeners were told after some values arrived, and how many of them. -/
structure Balanced (arrived : List (Arrival K)) (c : Lru K V) : Prop where
  /-- Under each key the listeners of the values put there were told their lives, one after the other; only
  the one of the entry there still waits for the end. -/
  lifeCycles : ∀ key, about key (listenerCalls c.log) ++ outstanding key c.entries
    = about key (arrived.flatMap Arrival.lifeCycle)
  /-- With the values that were not announced, as many came in as went out or are there. -/
  counted : toldCount .cached (listenerCalls c.log) + arrived.countP (fun a => !a.announced)
    = toldCount .uncached (listenerCalls c.log) + c.size
  /-- As many were told that they are in as were told that they are gone or are there, exactly if all of
  them were announced. -/
  balanced_iff : toldCount .cached (listenerCalls c.log) = toldCount .uncached (listenerCalls c.log) + c.size
    ↔ ∀ a ∈ arrived, a.announced

/-- After any run, whichever hooks panicked in it, the calls of listeners are paired, except that a value
that replaced another one was not announced if a hook of that one panicked. -/
theorem listeners_balance (capacity : Nat) (commands : List (Command K V)) :
    let c : Lru K V := empty capacity
    Balanced (c.arrivals commands) (c.run commands) := by
  intro c
  have hempty : Holds capacity c.entries c := .empty capacity
  have hpaired : Paired [] c := fun _ => rfl
  have hrun := hpaired.run hempty commands
  rw [List.nil_append] at hrun
  obtain ⟨hcached, huncached⟩ := hrun.counts (hempty.run commands)
  have hsplit : (c.arrivals commands).length = (c.arrivals commands).countP Arrival.announced
      + (c.arrivals commands).countP fun a => !a.announced := by
    rw [List.length_eq_countP_add_countP Arrival.announced]
    congr 1
    exact List.countP_congr fun a _ => by simp
  refine ⟨hrun, by omega, ?_⟩
  rw [hcached, huncached, List.countP_eq_length]

/-- A listener panics when it is told that its value is replaced: the new value is in without a word to
its own listener, which is told only when the value is removed. -/
theorem interrupted_replacement_unannounced :
    let c := (empty 2 : Lru Nat Nat).run
      [.put 1 10 (some "a"), .arm ⟨"a", .uncached, none⟩, .put 1 11 (some "b"), .remove 1]
    listenerCalls c.log
        = [⟨some "a", .cached, 1⟩, ⟨some "a", .uncached, 1⟩, ⟨some "b", .uncached, 1⟩]
      ∧ ¬ toldCount .cached (listenerCalls c.log) = toldCount .uncached (listenerCalls c.log) + c.size := by
  decide

end Arrivals

end TimedCache.Lru
