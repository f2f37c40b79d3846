import TimedCache.Store.Basic

/-!
# Operations of the store

Putting, reading and removing entries. Every removal goes through `discard`, which tells
the entry and the delegate after the entry has left the store. A hook that panics ends the
operation where it stands: what was done before stays done, what would have come after is
not done.
-/

namespace TimedCache.Store

variable {V : Type}

/-- Tells the hooks of an entry that has just left the store, and notes the size. -/
def discard (s : Store V) (t : WallTime) (key : String) (e : Entry V)
    (inFlight : List (Holder V)) : Op V Unit :=
  (s.announce t .uncached key e (e.holders ++ inFlight)).andThen fun s _ =>
    .done s.observe ()

/-- Removes what is under a key to make room for an entry on its way in. -/
def displace (s : Store V) (t : WallTime) (key : String) (incoming : List (Holder V)) :
    Op V Unit :=
  match s.find? key with
  | none => .done s ()
  | some e => (s.erase key).discard t key e incoming

/-- Adds an entry under a key that is free, tells its hooks and counts the put. -/
def admitEntry (s : Store V) (t : WallTime) (key : String) (e : Entry V) : Op V Unit :=
  ((s.append key e).announce t .cached key e []).andThen fun s _ =>
    .done (s.count Stats.recordPut).observe ()

/-- Stores an entry under a key; a previous entry under it is uncached first. -/
def put (s : Store V) (t : WallTime) (key : String) (e : Entry V) : Op V Unit :=
  ((s.count (Stats.touch t.stamp)).displace t key e.holders).andThen fun s _ =>
    s.admitEntry t key e

/-- Tells a custom entry of a hit; other entries just note the time. -/
def noteAccess (s : Store V) (t : WallTime) (key : String) (e : Entry V) : Op V Unit :=
  match e with
  | .timed _ => .done (s.alter key (Entry.accessed t.stamp)) ()
  | .custom c => s.notify ⟨t, ⟨some c.id, .access, c.key⟩, .stamp t.stamp⟩

/-- Removes an entry that was found dead by a look-up. -/
def expire (s : Store V) (t : WallTime) (key : String) (e : Entry V) :
    Op V (Option (Cell V)) :=
  (((s.erase key).count Stats.recordExpiration).discard t key e []).andThen fun s _ =>
    .done (s.count Stats.recordMiss) none

/-- Looks a key up. An entry that can no longer be served is removed and counts as a miss. -/
def get (s : Store V) (t : WallTime) (key : String) : Op V (Option (Cell V)) :=
  let s := s.count (Stats.touch t.stamp)
  match s.find? key with
  | none => .done (s.count Stats.recordMiss) none
  | some e =>
    let m := s.moment []
    if e.isLive m t.stamp then
      (s.noteAccess t key e).andThen fun s _ => .done (s.count Stats.recordHit) (e.cell m)
    else s.expire t key e

/-- Removes an entry by key; an unknown key is nothing to remove. -/
def uncache (s : Store V) (t : WallTime) (key : String) : Op V Unit :=
  (s.count (Stats.touch t.stamp)).displace t key []

/-- Removes the entries under the given keys, one after the other, adjusting the counters
for each just before its hooks are called. -/
def removeEach (t : WallTime) (adjust : Stats → Stats) : List String → Store V → Op V Unit
  | [], s => .done s ()
  | key :: rest, s =>
    match s.find? key with
    | none => removeEach t adjust rest s
    | some e =>
      (((s.erase key).count adjust).discard t key e []).andThen fun s _ =>
        removeEach t adjust rest s

/-- Removes the entries under some keys and notes the size; the result is their number. -/
def removeAll (s : Store V) (t : WallTime) (adjust : Stats → Stats) (keys : List String) :
    Op V Nat :=
  (removeEach t adjust keys s).andThen fun s _ => .done s.observe keys.length

/-- The key starts with the pattern. -/
def startsWith (pattern key : String) : Bool := pattern.toList.isPrefixOf key.toList

/-- The keys that start with a pattern. -/
def keysLike (s : Store V) (pattern : String) : List String := s.keys.filter (startsWith pattern)

/-- Removes every entry whose key starts with the pattern; this is no use of the store. -/
def uncacheLike (s : Store V) (t : WallTime) (pattern : String) : Op V Nat :=
  s.removeAll t id (s.keysLike pattern)

/-- The keys of the entries that are expired. -/
def expiredKeys (s : Store V) (now : Timestamp) : List String :=
  (s.entries.filter fun p => p.2.isExpired (s.moment []) now).map Prod.fst

/-- Removes every expired entry. -/
def sweep (s : Store V) (t : WallTime) : Op V Nat :=
  s.removeAll t Stats.recordExpiration (s.expiredKeys t.stamp)

/-- Tells the hooks of entries that have all left the store already. Entries that were not
reached yet still hold their values. -/
def discardEach (t : WallTime) : List (String × Entry V) → Store V → Op V Unit
  | [], s => .done s ()
  | (key, e) :: rest, s =>
    (s.discard t key e (rest.flatMap fun p => p.2.holders)).andThen fun s _ =>
      discardEach t rest s

/-- Removes every entry; all of them leave the store before the first hook is called. -/
def drain (s : Store V) (t : WallTime) : Op V Nat :=
  (discardEach t s.entries { s with entries := [] }).andThen fun emptied _ =>
    .done (emptied.count (Stats.observeSize 0)) s.size

/-- The counters with the present number of entries. -/
def report (s : Store V) : Stats := { s.stats with totalEntries := s.size }

/-- Milliseconds since the latest put, look-up or removal by key. -/
def useAge (s : Store V) (t : WallTime) : Nat := s.stats.useAge t.stamp

/-- Changes what a custom entry answers, wherever it is kept. -/
def reviseCustom (s : Store V) (later : CustomEntry V) : Store V :=
  { s with
    entries := s.entries.map fun p => (p.1, p.2.revisedTo later)
    owners := s.owners.enroll later }

end TimedCache.Store
