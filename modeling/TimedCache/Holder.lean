import TimedCache.Text.Quoted

/-!
# Values and their owners

A value is shared between references. A strong reference owns it. A soft slot owns it until
the slot is reclaimed, for as long as some reference to the slot exists. A weak reference
owns nothing and resolves only while somebody else owns the value. Ownership is not
counted: it is read off the references that exist at a moment.
-/

namespace TimedCache

/-- A value with an identity of its own: equal values in two cells are different values. -/
structure Cell (V : Type) where
  id : Nat
  value : V
deriving DecidableEq, Repr

/-- A reference to a value, by which an entry or somebody outside holds it. -/
inductive Holder (V : Type) where
  | strong (cell : Cell V)
  | weak (cell : Cell V)
  | soft (slot : Nat)
deriving DecidableEq, Repr

/-- The contents of the soft slots by number; a reclaimed slot is empty. -/
abbrev Slots (V : Type) := List (Option (Cell V))

variable {V : Type}

/-- The content of a soft slot. -/
def Slots.read (slots : Slots V) (slot : Nat) : Option (Cell V) := (slots[slot]?).join

/-- Empties a soft slot. -/
def Slots.reclaim (slots : Slots V) (slot : Nat) : Slots V := slots.set slot none

/-- Everything that decides whether references resolve: the soft slots and all references
that exist. -/
structure Moment (V : Type) where
  slots : Slots V
  holders : List (Holder V)

namespace Holder

/-- The identity of the value that a reference keeps alive. -/
def owned (slots : Slots V) : Holder V → Option Nat
  | .strong cell => some cell.id
  | .weak _ => none
  | .soft slot => (slots.read slot).map Cell.id

/-- Some reference owns the value with this identity. -/
def isOwned (m : Moment V) (id : Nat) : Bool :=
  m.holders.any fun h => h.owned m.slots == some id

/-- The value of a reference, `none` once it has been reclaimed. -/
def resolve (m : Moment V) : Holder V → Option (Cell V)
  | .strong cell => some cell
  | .weak cell => if isOwned m cell.id then some cell else none
  | .soft slot => m.slots.read slot

/-- The reference no longer resolves. -/
def isReclaimed (m : Moment V) : Holder V → Bool
  | .strong _ => false
  | .weak cell => !isOwned m cell.id
  | .soft slot => (m.slots.read slot).isNone

/-- A reference is reclaimed exactly when it does not resolve. -/
theorem isReclaimed_eq (m : Moment V) (h : Holder V) :
    h.isReclaimed m = (h.resolve m).isNone := by
  cases h with
  | strong cell => rfl
  | weak cell => cases ho : isOwned m cell.id <;> simp [isReclaimed, resolve, ho]
  | soft slot => rfl

/-- The diagnostic text of a reference. -/
def text (slots : Slots String) : Holder String → String
  | .strong cell => "Strong(" ++ Text.quoted cell.value ++ ")"
  | .weak _ => "Weak((Weak))"
  | .soft slot =>
    let content := match slots.read slot with
      | some cell => "Some(" ++ Text.quoted cell.value ++ ")"
      | none => "None"
    "Soft(SoftRef \x7b slot: RwLock \x7b data: " ++ content ++ " \x7d \x7d)"

end Holder

end TimedCache
