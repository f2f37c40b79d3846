import TimedCache.Proofs.Store.Ledger
import TimedCache.Proofs.Transitions

/-!
# Entries and delegates in step

While every hook returns, the delegate is told of each transition right after the entry. So what the
delegates of a store are told, one delegate after the other, are the transitions that the entries are
told, and those alternate under each key: an entry that came in goes out before another one comes in.
-/

namespace TimedCache

variable {V : Type}

namespace Event

/-- The call of a delegate's hook. -/
def isDelegateHook (x : Event V) : Bool :=
  match x.detail with
  | .sight .. => true
  | _ => false

/-- What entries are told in their lifetimes is to go in and out, once for each of them. -/
theorem map_phase_lifecycles (key : String) (entries : List (Entry V)) :
    (entries.flatMap (Entry.lifecycle key)).map Call.phase = turns entries.length := by
  induction entries with
  | nil => rfl
  | cons e rest ih => rw [List.flatMap_cons, List.map_append, ih, List.length_cons, turns]; rfl

/-- The transitions under a key that delegates were told. -/
def delegatePhases (key : String) (log : List (Event V)) : List Phase :=
  (log.filter fun x => x.isDelegateHook && x.call.key == key).map fun x => x.call.phase

theorem delegatePhases_append (key : String) (log log' : List (Event V)) :
    delegatePhases key (log ++ log') = delegatePhases key log ++ delegatePhases key log' := by
  simp [delegatePhases]

end Event

open Event

/-- Calls in which the hook of every entry is followed at once by that of the delegate, for the same
transition at the same time; custom entries may be told of accesses in between. -/
inductive InStep (delegate : Option Name) : List (Event V) → Prop
  | silent : InStep delegate []
  | access (t : WallTime) (id : Name) (key : String) {calls : List (Event V)} :
    InStep delegate calls →
      InStep delegate (⟨t, ⟨some id, .access, key⟩, .stamp t.stamp⟩ :: calls)
  | transition (t : WallTime) (listener : Option Name) (phase : Phase) (key entryKey : String)
    (expired : Bool) (object : Option V) {calls : List (Event V)} : InStep delegate calls →
      InStep delegate (⟨t, ⟨listener, phase, key⟩, .plain⟩
        :: ⟨t, ⟨delegate, phase, key⟩, .sight entryKey expired object⟩ :: calls)

namespace InStep

variable {delegate : Option Name} {calls calls' : List (Event V)}

theorem append (h : InStep delegate calls) (h' : InStep delegate calls') :
    InStep delegate (calls ++ calls') := by
  induction h with
  | silent => exact h'
  | access t id key _ ih => exact ih.access t id key
  | transition t listener phase key entryKey expired object _ ih =>
    exact ih.transition t listener phase key entryKey expired object

/-- The calls of a transition that was told in full are in step. -/
theorem of_told {t : WallTime} {phase : Phase} {key : String} {e : Entry V}
    (h : Told true delegate t phase key e calls) : InStep delegate calls := by
  cases h with
  | both expired object => exact .transition t e.listener phase key e.key expired object .silent
  | first hwhole => cases hwhole

/-- In step, delegates are told the transitions that the entries are told. -/
theorem delegatePhases_eq (h : InStep delegate calls) (key : String) :
    delegatePhases key calls = (entryCalls key calls).map Call.phase := by
  induction h with
  | silent => rfl
  | access t id other _ ih =>
    simpa [delegatePhases, entryCalls, isDelegateHook, isEntryHook] using ih
  | transition t listener phase other entryKey expired object _ ih =>
    by_cases hkey : other = key <;>
      simpa [delegatePhases, entryCalls, isDelegateHook, isEntryHook, hkey] using ih

end InStep

namespace Store

variable {s s' : Store V} {entered : List (String × Entry V)}

/-- The calls of whole moves are in step. -/
theorem Moves.inStep (h : Moves true entered s s') :
    ∃ calls, s'.log = s.log ++ calls ∧ InStep s.delegate calls := by
  induction h with
  | count | access => exact ⟨[], (List.append_nil _).symm, .silent⟩
  | report s t c alarms => exact ⟨_, rfl, .access t c.id c.key .silent⟩
  | enter _ _ htold => exact ⟨_, rfl, .of_told htold⟩
  | leave _ _ htold => exact ⟨_, rfl, .of_told htold⟩
  | trans h _ ih ih' =>
    obtain ⟨calls, hcalls, hstep⟩ := ih
    obtain ⟨calls', hcalls', hstep'⟩ := ih'
    refine ⟨calls ++ calls', ?_, hstep.append (h.surroundings.2 ▸ hstep')⟩
    rw [hcalls', hcalls, List.append_assoc]

/-- Making room under a key tells the entry that was there, and the delegate. -/
theorem displace_log {t : WallTime} {key : String} {old : Entry V} {incoming : List (Holder V)}
    (hfind : s.find? key = some old) (h : (s.displace t key incoming).returned) :
    ∃ expired object, (s.displace t key incoming).state.log
      = s.log ++ [entryEvent t .uncached key old,
        ⟨t, ⟨s.delegate, .uncached, key⟩, .sight old.key expired object⟩] := by
  obtain ⟨told, stats, alarms, hstate, htold⟩ := (s.erase key).discard_told t key old incoming
  rw [displace] at h ⊢
  simp only [hfind] at h ⊢
  rw [h] at htold
  rw [hstate]
  cases htold with
  | both expired object => exact ⟨expired, object, rfl⟩
  | first hwhole => cases hwhole

/-- Adding an entry tells that entry, and the delegate. -/
theorem admitEntry_log {t : WallTime} {key : String} {e : Entry V}
    (h : (s.admitEntry t key e).returned) :
    ∃ expired object, (s.admitEntry t key e).state.log = s.log ++
      [entryEvent t .cached key e, ⟨t, ⟨s.delegate, .cached, key⟩, .sight e.key expired object⟩] := by
  obtain ⟨told, alarms, hstate, htold⟩ := (s.append key e).announce_told t .cached key e []
  have hannounced := Ran.returned_of_andThen h
  obtain ⟨_, hresult⟩ := Ran.exists_of_returned hannounced
  rw [hannounced] at htold
  rw [admitEntry, Ran.andThen_of_ok hresult, hstate]
  cases htold with
  | both expired object => exact ⟨expired, object, rfl⟩
  | first hwhole => cases hwhole

/-- A put that replaces an entry tells of that entry before it tells of the new one. -/
theorem put_log {t : WallTime} {key : String} {e old : Entry V} (hfind : s.find? key = some old)
    (h : (s.put t key e).returned) : ∃ expired object expired' object',
    (s.put t key e).state.log = s.log ++ [entryEvent t .uncached key old,
      ⟨t, ⟨s.delegate, .uncached, key⟩, .sight old.key expired object⟩, entryEvent t .cached key e,
      ⟨t, ⟨s.delegate, .cached, key⟩, .sight e.key expired' object'⟩] := by
  have hroom := Ran.returned_of_andThen h
  obtain ⟨_, hresult⟩ := Ran.exists_of_returned hroom
  rw [put, Ran.andThen_of_ok hresult] at h ⊢
  obtain ⟨expired, object, hlog⟩ := displace_log (s := s.count (Stats.touch t.stamp)) hfind hroom
  obtain ⟨expired', object', hlog'⟩ := admitEntry_log h
  have hdelegate := (displace_moves (s.count (Stats.touch t.stamp)) t key e.holders).surroundings.2
  refine ⟨expired, object, expired', object', ?_⟩
  rw [hlog', hlog, hdelegate, List.append_assoc]
  rfl

end Store

namespace Occasion

variable {o : Occasion V}

/-- The calls of an action that returned are in step with the delegate that it met. -/
theorem inStep (hnodup : o.before.keys.Nodup) (h : o.returned) :
    ∃ calls, o.after.log = o.before.log ++ calls ∧ InStep o.before.delegate calls := by
  by_cases hoperation : o.isOperation
  · exact (o.moves_of_returned hnodup hoperation h).inStep
  · refine ⟨[], ?_, .silent⟩
    rw [List.append_nil]
    obtain ⟨s, a⟩ := o
    cases a <;> first | rfl | exact absurd rfl hoperation

end Occasion

namespace Store

/-- What delegates and entries were told in a history, and what the store has then. -/
structure HooksInStep (past : List (Occasion V)) (s : Store V) : Prop where
  /-- The delegates of a key are told transitions in turn, the first of them that it is in. -/
  alternating : ∀ key i phase, (delegatePhases key s.log)[i]? = some phase →
    phase = if i % 2 = 0 then .cached else .uncached
  /-- A key is in the store exactly if that is what a delegate was told of it last. -/
  present : ∀ key, (s.find? key).isSome ↔ (delegatePhases key s.log).getLast? = some .cached
  /-- The entries stored under a key are told their transitions one after the other, once each; only
  the one in the store waits for its last. -/
  lifecycles : ∀ key, entryCalls key s.log ++ s.outstanding key
    = (under key (past.flatMap fun o => o.action.stored)).flatMap (Entry.lifecycle key)
  /-- The entry in the store is the one that was stored last under its key. -/
  tenant : ∀ key e, s.find? key = some e → ∃ first,
    (under key (past.flatMap fun o => o.action.stored)).getLast? = some first ∧ e.Continues first
  /-- Each call of an entry is followed by one of the delegate that was installed. -/
  followed : ∀ o ∈ past, ∃ calls, o.after.log = o.before.log ++ calls ∧ InStep o.before.delegate calls
  /-- A replaced entry is told before the new one. -/
  replaced : ∀ o ∈ past, ∀ t key e old, o.action = .put t key e → o.before.find? key = some old →
    ∃ expired object expired' object', o.after.log = o.before.log ++ [entryEvent t .uncached key old,
      ⟨t, ⟨o.before.delegate, .uncached, key⟩, .sight old.key expired object⟩, entryEvent t .cached key e,
      ⟨t, ⟨o.before.delegate, .cached, key⟩, .sight e.key expired' object'⟩]

/-- Every entry was told of what the delegates were told, and every action that returned was in step. -/
structure Accompanied (past : List (Occasion V)) (s : Store V) : Prop where
  ledger : Ledger (past.flatMap fun o => o.action.stored) 0 s
  phases : ∀ key, delegatePhases key s.log = (entryCalls key s.log).map Call.phase
  nodup : ∀ o ∈ past, o.before.keys.Nodup
  returned : ∀ o ∈ past, o.returned

namespace Accompanied

variable {past : List (Occasion V)}

/-- An action that returns is accompanied. -/
theorem act {o : Occasion V} (h : Accompanied past o.before) (hfaithful : o.Faithful)
    (hreturned : o.returned) : Accompanied (past ++ [o]) o.after := by
  have hledger := h.ledger.act hfaithful
  rw [Occasion.entered_of_returned hreturned, Occasion.untold_of_returned hreturned] at hledger
  refine ⟨?_, ?_, ?_, ?_⟩
  · rw [List.flatMap_append, List.flatMap_singleton]
    exact hledger
  · intro key
    obtain ⟨calls, hcalls, hstep⟩ := o.inStep h.ledger.nodup hreturned
    rw [hcalls, delegatePhases_append, entryCalls_append, List.map_append, h.phases,
      hstep.delegatePhases_eq]
  · exact List.forall_mem_append.mpr ⟨h.nodup, List.forall_mem_singleton.mpr h.ledger.nodup⟩
  · exact List.forall_mem_append.mpr ⟨h.returned, List.forall_mem_singleton.mpr hreturned⟩

/-- Under each key the transitions that delegates were told, with the one that the entry there waits
for, are so many times in and out. -/
theorem turns_eq (h : Accompanied past s) (key : String) :
    delegatePhases key s.log ++ (s.find? key).toList.map (fun _ => .uncached)
      = turns (under key (past.flatMap fun o => o.action.stored)).length := by
  have hcalls := congrArg (List.map Call.phase) (h.ledger.calls rfl key)
  rw [map_phase_lifecycles, List.map_append, ← h.phases, outstanding, List.map_map] at hcalls
  exact hcalls

/-- A history that is accompanied has its hooks in step. -/
theorem hooksInStep (h : Accompanied past s) : HooksInStep past s where
  alternating key _ _ := alternating_of_turns (h.turns_eq key)
  present key := present_of_turns (h.turns_eq key)
  lifecycles := h.ledger.calls rfl
  tenant := h.ledger.tenant
  followed o ho := o.inStep (h.nodup o ho) (h.returned o ho)
  replaced o ho t key e old haction hfind := by
    have hreturned := h.returned o ho
    obtain ⟨met, a⟩ := o
    cases haction
    exact put_log hfind hreturned

end Accompanied

end Store

end TimedCache
