import TimedCache.Lru.Slab

/-!
# The bounded cache

A cache of limited capacity that gives up the entry that was used the longest time ago.
Every value may have a listener, and the whole cache one observer; both are told of each
insertion and removal, the listener first. Hooks are called after the change they report,
so a hook that panics leaves the change in place, and an insertion that is interrupted
this way does not get to evict.
-/

namespace TimedCache

/-- In which role a hook was called. -/
inductive Lru.Role where
  | listener
  | observer
deriving DecidableEq, Repr

/-- A recorded hook call. -/
structure Lru.Event (K : Type) where
  role : Lru.Role
  call : Call K
deriving DecidableEq, Repr

/-- A bounded cache, with the record of hook calls and the armed alarms around it. -/
structure Lru (K V : Type) where
  map : List (K × Nat) := []
  slab : Lru.Slab K V := {}
  capacity : Nat
  observer : Option Name := none
  alarms : List (Alarm K) := []
  log : List (Lru.Event K) := []
deriving DecidableEq

namespace Lru

variable {K V : Type} [DecidableEq K]

/-- An operation on a bounded cache. -/
abbrev Op (K V α : Type) := Ran K (Lru K V) α

/-- The empty cache. -/
def empty (capacity : Nat) : Lru K V := { capacity }

/-- The number of entries. -/
def size (c : Lru K V) : Nat := c.map.length

/-- Keys and values from the least to the most recently used one. -/
def toList (c : Lru K V) : List (K × V) := c.slab.chain.map fun n => (n.key, n.value)

/-- The operation met a link to a vacant slot. -/
def broken {α : Type} (c : Lru K V) (i : Nat) : Op K V α := ⟨c, .error (.vacantSlot i)⟩

/-- Goes on with a changed slab, unless the change met a vacant slot. -/
def withSlab {α : Type} (c : Lru K V) (i : Nat) (slab : Option (Slab K V))
    (next : Lru K V → Op K V α) : Op K V α :=
  match slab with
  | none => c.broken i
  | some slab => next { c with slab }

/-- Calls a hook: the call is recorded, and then it panics if an alarm waits for it. -/
def notify (c : Lru K V) (e : Event K) : Op K V Unit :=
  let c := { c with log := c.log ++ [e] }
  match Alarm.trip? e.call c.alarms with
  | none => .done c ()
  | some rest =>
    ⟨{ c with alarms := rest }, .error (.armed (e.call.who.getD "") e.call.phase e.call.key)⟩

/-- Tells a listener and then the observer of a transition. -/
def announce (c : Lru K V) (phase : Phase) (listener : Option Name) (key : K) : Op K V Unit :=
  (c.notify ⟨.listener, listener, phase, key⟩).andThen fun c _ =>
    c.notify ⟨.observer, c.observer, phase, key⟩

/-- Makes a slot the most recently used one. -/
def refresh? (c : Lru K V) (i : Nat) : Option (Slab K V) :=
  (c.slab.detach? i).bind (·.attachTail? i)

/-- Takes the node of a slot out of the cache, whose key is no longer in the map. -/
def release (c : Lru K V) (i : Nat) : Op K V V :=
  c.withSlab i (c.slab.detach? i) fun c =>
    match c.slab.vacate? i with
    | none => c.broken i
    | some (slab, n) =>
      ({ c with slab }.announce .uncached n.listener n.key).andThen fun c _ => .done c n.value

/-- The cache without a key in its map. -/
def unmap (c : Lru K V) (key : K) : Lru K V :=
  { c with map := c.map.filter fun p => p.1 != key }

/-- Gives up the least recently used entry, if there is one. -/
def evict (c : Lru K V) : Op K V Unit :=
  match c.slab.head with
  | none => .done c ()
  | some i =>
    match c.slab.node? i with
    | none => c.broken i
    | some n => ((c.unmap n.key).release i).andThen fun c _ => .done c ()

/-- Evicts while the condition holds, at most `fuel` times. -/
def evictWhile (condition : Lru K V → Bool) : Nat → Lru K V → Op K V Unit
  | 0, c => .done c ()
  | fuel + 1, c =>
    if condition c then c.evict.andThen fun c _ => evictWhile condition fuel c else .done c ()

/-- The cache holds more entries than it may. -/
def isOverfull (c : Lru K V) : Bool := c.capacity < c.size

/-- Evicts until the cache is within its capacity. -/
def shrink (c : Lru K V) : Op K V Unit := evictWhile isOverfull c.size c

/-- Replaces the value of a key that is present. -/
def replace (c : Lru K V) (i : Nat) (key : K) (value : V) (listener : Option Name) :
    Op K V (Option V) :=
  c.withSlab i (c.refresh? i) fun c =>
    match c.slab.node? i with
    | none => c.broken i
    | some old =>
      c.withSlab i (c.slab.update? i fun n => { n with value, listener }) fun c =>
        (c.announce .uncached old.listener key).andThen fun c _ =>
          (c.announce .cached listener key).andThen fun c _ => .done c (some old.value)

/-- Inserts a key that is absent, and evicts if that makes the cache too large. -/
def insertNew (c : Lru K V) (key : K) (value : V) (listener : Option Name) : Op K V (Option V) :=
  let (slab, i) := c.slab.occupy { key, value, listener }
  let c := { c with slab, map := c.map ++ [(key, i)] }
  c.withSlab i (c.slab.attachTail? i) fun c =>
    (c.announce .cached listener key).andThen fun c _ =>
      c.shrink.andThen fun c _ => .done c none

/-- Inserts or replaces a value and makes it the most recently used one. The result is the
value that was replaced. -/
def put (c : Lru K V) (key : K) (value : V) (listener : Option Name) : Op K V (Option V) :=
  match c.map.lookup key with
  | some i => c.replace i key value listener
  | none => c.insertNew key value listener

/-- The value of a key, which becomes the most recently used one. -/
def get (c : Lru K V) (key : K) : Op K V (Option V) :=
  match c.map.lookup key with
  | none => .done c none
  | some i =>
    let slab := if c.slab.tail = some i then some c.slab else c.refresh? i
    c.withSlab i slab fun c =>
      match c.slab.node? i with
      | none => c.broken i
      | some n => .done c (some n.value)

/-- The value of a key, without using it. -/
def peek (c : Lru K V) (key : K) : Option V :=
  (c.map.lookup key).bind fun i => (c.slab.node? i).map Node.value

/-- The key is present. -/
def contains (c : Lru K V) (key : K) : Bool := (c.map.lookup key).isSome

/-- Removes a key; the result is its value. -/
def remove (c : Lru K V) (key : K) : Op K V (Option V) :=
  match c.map.lookup key with
  | none => .done c none
  | some i => ((c.unmap key).release i).andThen fun c v => .done c (some v)

/-- Removes all entries, the least recently used one first. -/
def clear (c : Lru K V) : Op K V Unit :=
  evictWhile (fun c => c.slab.head.isSome) c.slab.slots.length c

/-- Puts an observer in the place of the present one. -/
def setObserver (c : Lru K V) (name : Option Name) : Lru K V := { c with observer := name }

/-- The diagnostic text of a cache. -/
def text (c : Lru K V) : String :=
  "LruCache \x7b len: " ++ String.ofList (Nat.toDigits 10 c.size) ++ ", capacity: "
    ++ String.ofList (Nat.toDigits 10 c.capacity) ++ ", .. \x7d"

end Lru

end TimedCache
