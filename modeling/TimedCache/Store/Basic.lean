import TimedCache.Owners
import TimedCache.Stats

/-!
# The store

A store keeps at most one entry per key, in the order in which they are walked; the order
means nothing and any other is as good. Besides the entries it has its counters and one
delegate that is told of every transition. The record of hook calls, the armed alarms and
the references outside belong to the application around it.
-/

namespace TimedCache

/-- What a hook could see at the moment of its call. -/
inductive Detail (V : Type) where
  /-- An entry's own hook sees nothing but the key. -/
  | plain
  /-- A delegate sees the entry: its own key, whether it is expired and its value. -/
  | sight (entryKey : String) (expired : Bool) (object : Option V)
  /-- A custom entry is told the time of a hit. -/
  | stamp (now : Timestamp)
deriving DecidableEq, Repr

/-- A recorded hook call. -/
structure Event (V : Type) where
  time : WallTime
  call : Call String
  detail : Detail V
deriving DecidableEq, Repr

/-- Entries by key, counters, delegate, and what surrounds them. -/
structure Store (V : Type) where
  entries : List (String × Entry V) := []
  stats : Stats := {}
  delegate : Option Name := none
  alarms : List (Alarm String) := []
  log : List (Event V) := []
  owners : Owners V := {}

variable {V : Type}

namespace Store

/-- An operation that leaves a store. -/
abbrev Op (V α : Type) := Ran String (Store V) α

/-- An empty store that was created at the given time. -/
def createdAt (t : WallTime) : Store V := { stats := Stats.startedAt t.stamp }

/-- The entry under a key. -/
def find? (s : Store V) (key : String) : Option (Entry V) := s.entries.lookup key

/-- The number of entries, expired ones included. -/
def size (s : Store V) : Nat := s.entries.length

/-- The keys in the order in which they are walked. -/
def keys (s : Store V) : List String := s.entries.map Prod.fst

/-- All references that exist: those outside, those of the entries and those of entries on
their way in or out. -/
def moment (s : Store V) (inFlight : List (Holder V)) : Moment V :=
  { slots := s.owners.slots
    holders := s.owners.holders ++ s.entries.flatMap (fun p => p.2.holders) ++ inFlight }

/-- The store without the entry under a key. -/
def erase (s : Store V) (key : String) : Store V :=
  { s with entries := s.entries.filter fun p => p.1 != key }

/-- The store with one more entry; the key must be new. -/
def append (s : Store V) (key : String) (e : Entry V) : Store V :=
  { s with entries := s.entries ++ [(key, e)] }

/-- The store with the entry under a key changed in place. -/
def alter (s : Store V) (key : String) (f : Entry V → Entry V) : Store V :=
  { s with entries := s.entries.map fun p => if p.1 = key then (p.1, f p.2) else p }

/-- The store with changed counters. -/
def count (s : Store V) (f : Stats → Stats) : Store V := { s with stats := f s.stats }

/-- Notes the present number of entries. -/
def observe (s : Store V) : Store V := s.count (Stats.observeSize s.size)

/-- Calls a hook: the call is recorded, and then it panics if an alarm waits for it. -/
def notify (s : Store V) (e : Event V) : Op V Unit :=
  let s := { s with log := s.log ++ [e] }
  match Alarm.trip? e.call s.alarms with
  | none => ⟨s, .ok ()⟩
  | some rest =>
    ⟨{ s with alarms := rest }, .error (.armed (e.call.who.getD "") e.call.phase e.call.key)⟩

/-- The call of an entry's own hook. -/
def entryEvent (t : WallTime) (phase : Phase) (key : String) (e : Entry V) : Event V :=
  ⟨t, ⟨e.listener, phase, key⟩, .plain⟩

/-- The call of the delegate's hook. -/
def delegateEvent (s : Store V) (t : WallTime) (phase : Phase) (key : String) (e : Entry V)
    (inFlight : List (Holder V)) : Event V :=
  let m := s.moment inFlight
  ⟨t, ⟨s.delegate, phase, key⟩, .sight e.key (e.isExpired m t.stamp) (e.object m)⟩

/-- Tells the entry and then the delegate of a transition. -/
def announce (s : Store V) (t : WallTime) (phase : Phase) (key : String) (e : Entry V)
    (inFlight : List (Holder V)) : Op V Unit :=
  (s.notify (entryEvent t phase key e)).andThen fun s _ =>
    s.notify (s.delegateEvent t phase key e inFlight)

end Store

end TimedCache
