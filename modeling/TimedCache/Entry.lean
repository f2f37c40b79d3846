import TimedCache.Hook
import TimedCache.Holder
import TimedCache.Numeric.Word
import TimedCache.Time.Clock
import TimedCache.Time.Duration

/-!
# Entries

What a store keeps under a key. The usual entry holds a value, with an optional time after
which it must not be served and an optional listener. A custom entry answers for itself
whether it has expired and what its value is; whoever made it may change the answers later.
-/

namespace TimedCache

/-- A held value with an optional expiration time. -/
structure TimedEntry (V : Type) where
  key : String
  holder : Holder V
  createdAt : Timestamp
  accessedAt : Timestamp
  expiresAt : Option Timestamp
  listener : Option Name := none
deriving DecidableEq, Repr

/-- An entry that decides for itself whether it is expired and what its value is. It owns
its value. Entries may have the same name, but never the same number. -/
structure CustomEntry (V : Type) where
  number : Nat
  key : String
  id : Name
  expired : Bool
  value : Option (Cell V)
  hooks : Bool
deriving DecidableEq, Repr

/-- Anything a store can keep under a key. -/
inductive Entry (V : Type) where
  | timed (entry : TimedEntry V)
  | custom (entry : CustomEntry V)
deriving DecidableEq, Repr

variable {V : Type}

/-- When a lifetime that starts now is over; a zero lifetime never is. -/
def expiryOf (now : Timestamp) (ttl : Duration) : Option Timestamp :=
  if ttl.isZero then none else some (Word.addCapped now ttl.wordMillis)

namespace TimedEntry

/-- A new entry with the given lifetime. -/
def create (now : Timestamp) (key : String) (holder : Holder V) (ttl : Duration) : TimedEntry V :=
  { key, holder, createdAt := now, accessedAt := now, expiresAt := expiryOf now ttl }

/-- The expiration time lies strictly in the past. -/
def isTimeExpired (e : TimedEntry V) (now : Timestamp) : Bool :=
  match e.expiresAt with
  | some limit => limit < now
  | none => false

/-- The remaining lifetime in milliseconds, `none` if it is unlimited. -/
def remaining (e : TimedEntry V) (now : Timestamp) : Option Nat := e.expiresAt.map (· - now)

/-- The diagnostic text of an entry. -/
def text (slots : Slots String) (e : TimedEntry String) : String :=
  let number (n : Nat) := String.ofList (Nat.toDigits 10 n)
  let expires := match e.expiresAt with
    | some n => "Some(" ++ number n ++ ")"
    | none => "None"
  "CacheEntry \x7b key: " ++ Text.quoted e.key ++ ", holder: " ++ e.holder.text slots
    ++ ", created_at: " ++ number e.createdAt ++ ", accessed_at: " ++ number e.accessedAt
    ++ ", expires_at: " ++ expires ++ ", .. \x7d"

end TimedEntry

/-- The reference by which a custom entry owns its value. -/
def CustomEntry.holders (e : CustomEntry V) : List (Holder V) := (e.value.map .strong).toList

namespace Entry

/-- The key the entry was made for, whatever key it is stored under. -/
def key : Entry V → String
  | .timed e => e.key
  | .custom e => e.key

/-- The references to values that the entry holds. -/
def holders : Entry V → List (Holder V)
  | .timed e => [e.holder]
  | .custom e => e.holders

/-- Who is told when the entry is cached or uncached. -/
def listener : Entry V → Option Name
  | .timed e => e.listener
  | .custom e => if e.hooks then some e.id else none

/-- The entry must not be served: its value is reclaimed or its time is over. -/
def isExpired (m : Moment V) (now : Timestamp) : Entry V → Bool
  | .timed e => e.holder.isReclaimed m || e.isTimeExpired now
  | .custom e => e.expired

/-- The cell with the value of the entry, `none` if it has been reclaimed. -/
def cell (m : Moment V) : Entry V → Option (Cell V)
  | .timed e => e.holder.resolve m
  | .custom e => e.value

/-- The value of the entry, `none` if it has been reclaimed. -/
def object (m : Moment V) (e : Entry V) : Option V := (e.cell m).map Cell.value

/-- The entry can be served. -/
def isLive (m : Moment V) (now : Timestamp) (e : Entry V) : Bool :=
  !e.isExpired m now && (e.object m).isSome

/-- Notes the time of a hit. -/
def accessed (now : Timestamp) : Entry V → Entry V
  | .timed e => .timed { e with accessedAt := now }
  | .custom e => .custom e

/-- The entry with the answers of a later version of a custom entry, if it is that one. -/
def revisedTo (later : CustomEntry V) : Entry V → Entry V
  | .timed e => .timed e
  | .custom e => .custom (if e.number = later.number then later else e)

end Entry

end TimedCache
