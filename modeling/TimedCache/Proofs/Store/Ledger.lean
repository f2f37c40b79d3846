import Mathlib.Algebra.GroupWithZero.Nat
import TimedCache.Proofs.Store.Moves

/-!
# The ledger of hook calls

Every entry that came into a store is told so once, and it is told once that it is out. At any
moment the calls on record, together with those that the entries in the store still wait for, are
exactly the calls of all entries that came in, one after the other. Only an interrupted drain leaves
a debt: the entries that it dropped and did not tell.
-/

namespace TimedCache

variable {V : Type}

namespace Event

/-- The call of an entry's own hook for a transition. -/
def isEntryHook (x : Event V) : Bool :=
  match x.detail with
  | .plain => true
  | _ => false

/-- The calls of the hooks of entries under a key. -/
def entryCalls (key : String) (log : List (Event V)) : List (Call String) :=
  (log.filter fun x => x.isEntryHook && x.call.key == key).map Event.call

/-- The number of entries that were told of a transition. -/
def toldCount (phase : Phase) (log : List (Event V)) : Nat :=
  log.countP fun x => x.isEntryHook && x.call.phase == phase

theorem entryCalls_append (key : String) (log log' : List (Event V)) :
    entryCalls key (log ++ log') = entryCalls key log ++ entryCalls key log' := by
  simp [entryCalls]

theorem toldCount_append (phase : Phase) (log log' : List (Event V)) :
    toldCount phase (log ++ log') = toldCount phase log + toldCount phase log' := List.countP_append

end Event

open Event

/-- A transition is one call of the entry's hook. -/
theorem Told.entryCalls {whole : Bool} {delegate : Option Name} {t : WallTime} {phase : Phase}
    {key : String} {e : Entry V} {told : List (Event V)} (h : Told whole delegate t phase key e told)
    (other : String) :
    Event.entryCalls other told = if key = other then [⟨e.listener, phase, key⟩] else [] := by
  by_cases hkey : key = other <;> cases h <;>
    simp [Event.entryCalls, Store.entryEvent, isEntryHook, hkey]

/-- A transition is told to one entry. -/
theorem Told.toldCount {whole : Bool} {delegate : Option Name} {t : WallTime} {phase : Phase}
    {key : String} {e : Entry V} {told : List (Event V)} (h : Told whole delegate t phase key e told)
    (other : Phase) : Event.toldCount other told = if phase = other then 1 else 0 := by
  by_cases hphase : phase = other <;> cases h <;>
    simp [Event.toldCount, Store.entryEvent, isEntryHook, hphase]

namespace Entry

/-- The entry is what became of another one: it may have been accessed since, or revised if it is a
custom one. -/
def Continues : Entry V → Entry V → Prop
  | .timed x, .timed e => ∃ accessedAt, x = { e with accessedAt }
  | .custom x, .custom e => x.number = e.number ∧ x.id = e.id ∧ x.hooks = e.hooks
  | _, _ => False

namespace Continues

variable {x y e : Entry V}

theorem refl (e : Entry V) : e.Continues e := by
  cases e with
  | timed e => exact ⟨e.accessedAt, rfl⟩
  | custom c => exact ⟨rfl, rfl, rfl⟩

theorem trans (h : x.Continues y) (h' : y.Continues e) : x.Continues e := by
  cases x <;> cases y <;> cases e <;> try contradiction
  case timed =>
    obtain ⟨accessedAt, rfl⟩ := h
    obtain ⟨_, rfl⟩ := h'
    exact ⟨accessedAt, rfl⟩
  case custom => exact ⟨h.1.trans h'.1, h.2.1.trans h'.2.1, h.2.2.trans h'.2.2⟩

/-- An entry keeps its listener. -/
theorem listener (h : x.Continues e) : x.listener = e.listener := by
  cases x <;> cases e <;> try contradiction
  case timed =>
    obtain ⟨_, rfl⟩ := h
    rfl
  case custom => rw [Entry.listener, Entry.listener, h.2.1, h.2.2]

/-- Noting an access does not make another entry. -/
theorem accessed (now : Timestamp) (e : Entry V) : (e.accessed now).Continues e := by
  cases e with
  | timed e => exact ⟨now, rfl⟩
  | custom c => exact ⟨rfl, rfl, rfl⟩

end Continues

/-- All that an entry is told: that it is in under a key, and that it is out. -/
def lifecycle (key : String) (e : Entry V) : List (Call String) :=
  [⟨e.listener, .cached, key⟩, ⟨e.listener, .uncached, key⟩]

end Entry

/-- The entries among some that are under a key. -/
def under (key : String) (entries : List (String × Entry V)) : List (Entry V) :=
  (entries.filter fun p => p.1 == key).map Prod.snd

theorem under_append (key : String) (entries entries' : List (String × Entry V)) :
    under key (entries ++ entries') = under key entries ++ under key entries' := by
  simp [under]

theorem under_singleton (key other : String) (e : Entry V) :
    under key [(other, e)] = if other = key then [e] else [] := by
  by_cases h : other = key <;> simp [under, h]

namespace Store

/-- What is in the store after some moves was brought in or was there before. -/
theorem Moves.continues {whole : Bool} {entered : List (String × Entry V)} {s s' : Store V}
    (h : Moves whole entered s s') : ∀ p ∈ s'.entries,
    ∃ e, ((p.1, e) ∈ entered ∨ (p.1, e) ∈ s.entries) ∧ p.2.Continues e := by
  intro p hp
  obtain ⟨e, horigin, hsame⟩ := h.origin p hp
  refine ⟨e, horigin, ?_⟩
  obtain hsame | ⟨now, hsame⟩ := hsame
  · exact hsame ▸ .refl e
  · exact hsame ▸ .accessed now e

/-- The call that the entry under a key still waits for. -/
def outstanding (s : Store V) (key : String) : List (Call String) :=
  (s.find? key).toList.map fun e => ⟨e.listener, .uncached, key⟩

/-- What a store owes to the entries that came in, some of which were dropped untold: the store has
told all of them that they are in, and those that are neither in nor dropped that they are out. An
entry in the store is the last one that came in under its key. -/
structure Ledger (entered : List (String × Entry V)) (untold : Nat) (s : Store V) : Prop where
  nodup : s.keys.Nodup
  cached : toldCount .cached s.log = entered.length
  uncached : toldCount .uncached s.log + s.size + untold = entered.length
  tenant : ∀ key e, s.find? key = some e →
    ∃ first, (under key entered).getLast? = some first ∧ e.Continues first
  calls : untold = 0 → ∀ key,
    entryCalls key s.log ++ s.outstanding key = (under key entered).flatMap (Entry.lifecycle key)

/-- A new store owes nothing. -/
theorem createdAt_ledger (t : WallTime) : Ledger [] 0 (createdAt t : Store V) :=
  ⟨List.nodup_nil, rfl, rfl, fun _ _ h => (nomatch h), fun _ _ => rfl⟩

namespace Ledger

variable {entered : List (String × Entry V)} {untold : Nat} {s s' : Store V}

/-- Entries that change while they remain what they are owe and are owed the same. -/
theorem continued (h : Ledger entered untold s) (hkeys : s'.keys = s.keys)
    (hfind : ∀ key, Option.Rel Entry.Continues (s'.find? key) (s.find? key)) (hlog : s'.log = s.log) :
    Ledger entered untold s' := by
  have hsize : s'.size = s.size := by
    have hlength := congrArg List.length hkeys
    rwa [keys, keys, List.length_map, List.length_map] at hlength
  refine ⟨hkeys ▸ h.nodup, hlog ▸ h.cached, hlog ▸ hsize ▸ h.uncached, ?_, ?_⟩
  · intro key e he
    have hrel := hfind key
    rw [he] at hrel
    generalize hbefore : s.find? key = before at hrel
    cases hrel with
    | some hcontinues =>
      obtain ⟨first, hfirst, hcontinues'⟩ := h.tenant key _ hbefore
      exact ⟨first, hfirst, hcontinues.trans hcontinues'⟩
  · intro huntold key
    have hout : s'.outstanding key = s.outstanding key := by
      have hrel := hfind key
      rw [outstanding, outstanding]
      generalize s'.find? key = after, s.find? key = before at hrel
      cases hrel with
      | none => rfl
      | some hcontinues => simp [hcontinues.listener]
    rw [hlog, hout]
    exact h.calls huntold key

/-- A record of calls that are not for entries changes nothing. -/
theorem reported (h : Ledger entered untold s) (x : Event V) (hx : x.isEntryHook = false)
    (alarms : List (Alarm String)) :
    Ledger entered untold { s with log := s.log ++ [x], alarms } := by
  have hcalls (key : String) : entryCalls key (s.log ++ [x]) = entryCalls key s.log := by
    simp [entryCalls, hx]
  have hcount (phase : Phase) : toldCount phase (s.log ++ [x]) = toldCount phase s.log := by
    simp [toldCount, hx]
  exact ⟨h.nodup, (hcount _).trans h.cached, (hcount .uncached).symm ▸ h.uncached, h.tenant,
    fun huntold key => (hcalls key).symm ▸ h.calls huntold key⟩

/-- An entry that comes in under a free key is told that it is in. -/
theorem enter {key : String} {e : Entry V} {t : WallTime} {whole : Bool} {told : List (Event V)}
    (h : Ledger entered untold s) (hfree : s.find? key = none)
    (htold : Told whole s.delegate t .cached key e told) (alarms : List (Alarm String)) :
    Ledger (entered ++ [(key, e)]) untold { s.append key e with log := s.log ++ told, alarms } := by
  refine ⟨nodup_keys_concat h.nodup (lookup_eq_none_iff_not_mem.mp hfree) e, ?_, ?_, ?_, ?_⟩
  · rw [toldCount_append, htold.toldCount, h.cached, List.length_append]
    rfl
  · have hsize : (s.append key e).size = s.size + 1 := List.length_append
    have huncached := h.uncached
    rw [toldCount_append, htold.toldCount, List.length_append]
    change _ + (s.append key e).size + _ = _
    simp only [hsize, reduceCtorEq, if_false, List.length_singleton]
    omega
  · intro other x hx
    change (s.append key e).find? other = some x at hx
    rw [find?_append] at hx
    rw [under_append, under_singleton]
    by_cases hkey : other = key
    · subst hkey
      rw [hfree, Option.none_or, if_pos rfl] at hx
      rw [if_pos rfl, List.getLast?_concat]
      exact ⟨e, rfl, Option.some.inj hx ▸ .refl e⟩
    · rw [if_neg hkey, Option.or_none] at hx
      rw [if_neg (Ne.symm hkey), List.append_nil]
      exact h.tenant other x hx
  · intro huntold other
    have hcalls := h.calls huntold other
    change entryCalls other (s.log ++ told) ++ ((s.append key e).find? other).toList.map _ = _
    rw [find?_append, entryCalls_append, htold.entryCalls, under_append, under_singleton,
      List.flatMap_append, ← hcalls, outstanding]
    by_cases hkey : other = key
    · subst hkey
      simp [hfree, Entry.lifecycle]
    · simp [hkey, Ne.symm hkey]

/-- An entry that goes out is told that it is out. -/
theorem leave {key : String} {e : Entry V} {t : WallTime} {whole : Bool} {told : List (Event V)}
    (h : Ledger entered untold s) (hfind : s.find? key = some e)
    (htold : Told whole s.delegate t .uncached key e told) (alarms : List (Alarm String)) :
    Ledger entered untold { s.erase key with log := s.log ++ told, alarms } := by
  refine ⟨nodup_keys_filter h.nodup _, ?_, ?_, ?_, ?_⟩
  · rw [toldCount_append, htold.toldCount, h.cached]
    rfl
  · have hsize : (s.erase key).size + 1 = s.size := length_filter_ne h.nodup
      (List.mem_map_of_mem (mem_of_lookup hfind))
    have huncached := h.uncached
    rw [toldCount_append, htold.toldCount]
    change _ + (s.erase key).size + _ = _
    simp only [if_true]
    omega
  · intro other x hx
    change (s.erase key).find? other = some x at hx
    rw [find?_erase] at hx
    by_cases hkey : other = key
    · rw [if_pos hkey] at hx
      cases hx
    · rw [if_neg hkey] at hx
      exact h.tenant other x hx
  · intro huntold other
    have hcalls := h.calls huntold other
    change entryCalls other (s.log ++ told) ++ ((s.erase key).find? other).toList.map _ = _
    rw [find?_erase, entryCalls_append, htold.entryCalls, ← hcalls, outstanding]
    by_cases hkey : other = key
    · subst hkey
      simp [hfind]
    · simp [hkey, Ne.symm hkey]

/-- Noting an access leaves every entry what it is. -/
theorem access (h : Ledger entered untold s) (key : String) (now : Timestamp) :
    Ledger entered untold (s.alter key (Entry.accessed now)) := by
  apply h.continued (alter_keys s key _)
  · intro other
    rw [find?_alter]
    cases s.find? other with
    | none =>
      rw [Option.map_none, ite_self]
      exact .none
    | some e =>
      split
      · exact .some (.accessed now e)
      · exact .some (.refl e)
  · rfl

/-- Moves keep the ledger, with the entries that they bring in. -/
theorem moves {whole : Bool} {brought : List (String × Entry V)} (h : Ledger entered untold s)
    (hmoves : Moves whole brought s s') : Ledger (entered ++ brought) untold s' := by
  induction hmoves generalizing entered with
  | count s stats =>
    rw [List.append_nil]
    exact ⟨h.nodup, h.cached, h.uncached, h.tenant, h.calls⟩
  | access s key now =>
    rw [List.append_nil]
    exact h.access key now
  | report s t c alarms =>
    rw [List.append_nil]
    exact h.reported _ rfl alarms
  | enter alarms hfree htold => exact h.enter hfree htold alarms
  | leave alarms hfind htold =>
    rw [List.append_nil]
    exact h.leave hfind htold alarms
  | trans _ _ ih ih' =>
    rw [← List.append_assoc]
    exact ih' (ih h)

/-- Entries that are dropped are owed. -/
theorem emptied (h : Ledger entered untold s) : Ledger entered (untold + s.size) s.emptied := by
  refine ⟨List.nodup_nil, h.cached, ?_, fun _ _ h => (nomatch h), ?_⟩
  · have huncached := h.uncached
    change toldCount .uncached s.log + 0 + _ = _
    omega
  · intro hnone key
    have hsize : s.size = 0 := by omega
    have hsame : s.emptied = s := by rw [Store.emptied, ← List.length_eq_zero_iff.mp hsize]
    rw [hsame]
    exact h.calls (by omega) key

end Ledger

end Store

namespace Occasion

/-- A revision makes no other entry of those in the store. -/
def Faithful (o : Occasion V) : Prop :=
  ∀ later, o.action = .revise later → ∀ p ∈ o.before.entries, (p.2.revisedTo later).Continues p.2

/-- What is in the store after an operation was brought in or was there before. -/
theorem continues {o : Occasion V} (hnodup : o.before.keys.Nodup) (hoperation : o.isOperation) :
    ∀ p ∈ o.after.entries,
      ∃ e, ((p.1, e) ∈ o.entered ∨ (p.1, e) ∈ o.before.entries) ∧ p.2.Continues e := by
  obtain ⟨s₁, hmoves, ⟨hafter, -⟩ | ⟨hafter, -⟩⟩ := o.moves hnodup hoperation
  · exact hafter ▸ hmoves.continues
  · rw [hafter]
    exact fun _ hp => nomatch hp

end Occasion

namespace Store.Ledger

variable {entered : List (String × Entry V)} {untold : Nat} {s : Store V}

/-- A revision that makes no other entry leaves every entry what it is. -/
theorem revise (h : Ledger entered untold s) {later : CustomEntry V}
    (hfaithful : ∀ p ∈ s.entries, (p.2.revisedTo later).Continues p.2) :
    Ledger entered untold (s.reviseCustom later) := by
  apply h.continued
  · exact List.map_map
  · intro key
    change Option.Rel _ ((s.reviseCustom later).entries.lookup key) (s.entries.lookup key)
    rw [reviseCustom, lookup_map_value s.entries fun p => p.2.revisedTo later]
    cases hlookup : s.entries.lookup key with
    | none => exact .none
    | some e => exact .some (hfaithful _ (mem_of_lookup hlookup))
  · rfl

/-- Every action keeps the ledger: what comes in is entered, and what is dropped is owed. -/
theorem act {o : Occasion V} (h : Ledger entered untold o.before) (hfaithful : o.Faithful) :
    Ledger (entered ++ o.entered) (untold + o.untold) o.after := by
  by_cases hoperation : o.isOperation
  · obtain ⟨s₁, hmoves, ⟨hafter, huntold⟩ | ⟨hafter, huntold⟩⟩ := o.moves h.nodup hoperation
    · rw [hafter, huntold]
      exact h.moves hmoves
    · rw [hafter, huntold]
      exact (h.moves hmoves).emptied
  · have hnone : entered ++ o.entered = entered ∧ untold + o.untold = untold := by
      obtain ⟨s, a⟩ := o
      cases a <;> first | exact ⟨List.append_nil _, rfl⟩ | exact absurd rfl hoperation
    rw [hnone.1, hnone.2]
    obtain ⟨s, a⟩ := o
    cases a with
    | revise later => exact h.revise (hfaithful later rfl)
    | refer | delegateTo | arm => exact ⟨h.nodup, h.cached, h.uncached, h.tenant, h.calls⟩
    | put | get | uncache | uncacheLike | sweep | drain => exact absurd rfl hoperation

/-- The ledger of a run: the entries that came in are those of its occasions, and so are those that
are owed. -/
theorem follow (h : Ledger [] 0 s) {script : List (Action V)}
    (hfaithful : ∀ o ∈ s.history script, o.Faithful) :
    Ledger ((s.history script).flatMap Occasion.entered) ((s.history script).map Occasion.untold).sum
      (s.follow script) := by
  refine history_induction (P := fun past s =>
    Ledger (past.flatMap Occasion.entered) (past.map Occasion.untold).sum s) h ?_ hfaithful
  intro past met a hpast hfaithful
  simp only [List.flatMap_append, List.flatMap_singleton, List.map_append, List.sum_append,
    List.map_singleton, List.sum_singleton]
  exact hpast.act hfaithful

end Store.Ledger

end TimedCache
