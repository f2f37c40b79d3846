import TimedCache.Hook

/-!
# A slab of linked nodes

Nodes live in numbered slots and are linked by slot numbers from the least to the most
recently used one. Vacant slots wait on a stack to be used again, the latest first. A link
to a vacant slot is a defect; the functions that follow links give `none` for it, and all
reachable slabs are free of it.
-/

namespace TimedCache.Lru

/-- A key with its value and listener, and the slots of its two neighbours. -/
structure Node (K V : Type) where
  key : K
  value : V
  listener : Option Name
  prev : Option Nat := none
  next : Option Nat := none
deriving DecidableEq, Repr

/-- Slots, the stack of vacant ones, and both ends of the chain of nodes. -/
structure Slab (K V : Type) where
  slots : List (Option (Node K V)) := []
  free : List Nat := []
  head : Option Nat := none
  tail : Option Nat := none
deriving DecidableEq, Repr

namespace Slab

variable {K V : Type}

/-- The node in a slot. -/
def node? (s : Slab K V) (i : Nat) : Option (Node K V) := (s.slots[i]?).join

/-- Changes the node in a slot; `none` if the slot is vacant. -/
def update? (s : Slab K V) (i : Nat) (f : Node K V → Node K V) : Option (Slab K V) :=
  (s.node? i).map fun n => { s with slots := s.slots.set i (some (f n)) }

/-- Makes `next` the successor of a slot, or the head if there is no slot before it. -/
def linkForward? (s : Slab K V) (prev next : Option Nat) : Option (Slab K V) :=
  match prev with
  | none => some { s with head := next }
  | some p => s.update? p fun n => { n with next }

/-- Makes `prev` the predecessor of a slot, or the tail if there is no slot after it. -/
def linkBackward? (s : Slab K V) (prev next : Option Nat) : Option (Slab K V) :=
  match next with
  | none => some { s with tail := prev }
  | some q => s.update? q fun n => { n with prev }

/-- Takes a slot out of the chain; its node stays in the slot, without neighbours. -/
def detach? (s : Slab K V) (i : Nat) : Option (Slab K V) := do
  let n ← s.node? i
  let s ← s.linkForward? n.prev n.next
  let s ← s.linkBackward? n.prev n.next
  s.update? i fun n => { n with prev := none, next := none }

/-- Puts a slot at the end of the chain. -/
def attachTail? (s : Slab K V) (i : Nat) : Option (Slab K V) := do
  let last := s.tail
  let s ← s.update? i fun n => { n with prev := last, next := none }
  let s ← s.linkForward? last (some i)
  some { s with tail := some i }

/-- Puts a node into a vacant slot, or into a new one if none is vacant. -/
def occupy (s : Slab K V) (n : Node K V) : Slab K V × Nat :=
  match s.free with
  | i :: rest => ({ s with slots := s.slots.set i (some n), free := rest }, i)
  | [] => ({ s with slots := s.slots ++ [some n] }, s.slots.length)

/-- Takes the node out of a slot that is no longer in the chain. -/
def vacate? (s : Slab K V) (i : Nat) : Option (Slab K V × Node K V) :=
  (s.node? i).map fun n => ({ s with slots := s.slots.set i none, free := i :: s.free }, n)

/-- The nodes from a slot on, following at most `fuel` links. -/
def walkFrom (s : Slab K V) : Nat → Option Nat → List (Node K V)
  | 0, _ => []
  | _, none => []
  | fuel + 1, some i =>
    match s.node? i with
    | none => []
    | some n => n :: s.walkFrom fuel n.next

/-- The nodes of the chain; a chain has no more of them than there are slots. -/
def chain (s : Slab K V) : List (Node K V) := s.walkFrom s.slots.length s.head

end Slab

end TimedCache.Lru
