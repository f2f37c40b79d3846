import TimedCache.Entry

/-!
# References outside the store

The application around a store keeps references of its own: owned values and handles of
soft slots by name, copies of holders by number, and of each name the custom entry it made
last, in order to revise it. A new value and a new custom entry get an identity that none
had before, and a new soft slot the next free number.
-/

namespace TimedCache

/-- How the application finds a reference again. -/
inductive Label where
  | owner (name : Name)
  | handle (name : Name)
  | copy (index : Nat)
deriving DecidableEq, Repr

/-- The references outside the store, the soft slots and the next identity. One name may
own several values. -/
structure Owners (V : Type) where
  slots : Slots V := []
  values : List (Name × Cell V) := []
  handles : List (Name × Nat) := []
  copies : List (Nat × Holder V) := []
  customs : List (CustomEntry V) := []
  fresh : Nat := 0

variable {V : Type}

namespace Owners

/-- The references outside the store. -/
def holders (o : Owners V) : List (Holder V) :=
  o.values.map (fun p => .strong p.2) ++ o.handles.map (fun p => .soft p.2)
    ++ o.copies.map Prod.snd ++ o.customs.flatMap CustomEntry.holders

/-- A cell for a new value. -/
def allocate (o : Owners V) (value : V) : Owners V × Cell V :=
  ({ o with fresh := o.fresh + 1 }, ⟨o.fresh, value⟩)

/-- A cell for a new value, if there is one. -/
def allocate? (o : Owners V) : Option V → Owners V × Option (Cell V)
  | none => (o, none)
  | some value =>
    let (o, cell) := o.allocate value
    (o, some cell)

/-- Keeps a custom entry in place of the one with its name. -/
def enroll (o : Owners V) (e : CustomEntry V) : Owners V :=
  { o with customs := o.customs.filter (fun c => c.id != e.id) ++ [e] }

/-- Makes a custom entry and keeps it. -/
def makeCustom (o : Owners V) (key : String) (id : Name) (expired : Bool) (value : Option V)
    (hooks : Bool) : Owners V × CustomEntry V :=
  let (o, cell) := o.allocate? value
  let e := { number := o.fresh, key, id, expired, value := cell, hooks }
  ({ o with fresh := o.fresh + 1 }.enroll e, e)

/-- The custom entry that was made last under a name. -/
def custom? (o : Owners V) (id : Name) : Option (CustomEntry V) := o.customs.find? (·.id == id)

/-- Lets go of the references under a label. -/
def drop (o : Owners V) : Label → Owners V
  | .owner name => { o with values := o.values.filter fun p => p.1 != name }
  | .handle name => { o with handles := o.handles.filter fun p => p.1 != name }
  | .copy index => { o with copies := o.copies.filter fun p => p.1 != index }

/-- Owns one more value under a name. -/
def own (o : Owners V) (name : Name) (cell : Cell V) : Owners V :=
  { o with values := o.values ++ [(name, cell)] }

/-- Owns a value under a name, in place of what the name owned. -/
def ownOnly (o : Owners V) (name : Name) (cell : Cell V) : Owners V :=
  (o.drop (.owner name)).own name cell

/-- Fills a new soft slot, with a handle in place of the one the name had. -/
def soften (o : Owners V) (name : Name) (cell : Cell V) : Owners V :=
  let o := o.drop (.handle name)
  { o with
    slots := o.slots ++ [some cell]
    handles := o.handles ++ [(name, o.slots.length)] }

/-- Keeps a second handle of the slot behind a handle, in place of the one its name had. -/
def share (o : Owners V) (source target : Name) : Owners V :=
  match o.handles.lookup source with
  | none => o
  | some slot =>
    let o := o.drop (.handle target)
    { o with handles := o.handles ++ [(target, slot)] }

/-- Keeps a holder under a number. -/
def file (o : Owners V) (index : Nat) (h : Holder V) : Owners V :=
  let o := o.drop (.copy index)
  { o with copies := o.copies ++ [(index, h)] }

/-- Empties the soft slot of a handle. -/
def reclaim (o : Owners V) (name : Name) : Owners V :=
  match o.handles.lookup name with
  | none => o
  | some slot => { o with slots := o.slots.reclaim slot }

/-- The value in the soft slot of a handle. -/
def behind? (o : Owners V) (name : Name) : Option (Cell V) :=
  (o.handles.lookup name).bind o.slots.read

end Owners

/-- How a new holder is obtained: with a value of its own, or from references that exist. -/
inductive Holding (V : Type) where
  | strong (value : V)
  | strongOf (owner : Name)
  | weakOf (owner : Name)
  | softOf (handle : Name)
  | weakOfSoft (handle : Name)
deriving DecidableEq, Repr

/-- The holder that is asked for, if the references it needs exist. -/
def Holding.make? (o : Owners V) : Holding V → Option (Owners V × Holder V)
  | .strong value =>
    let (o, cell) := o.allocate value
    some (o, .strong cell)
  | .strongOf owner => (o.values.lookup owner).map fun cell => (o, .strong cell)
  | .weakOf owner => (o.values.lookup owner).map fun cell => (o, .weak cell)
  | .softOf handle => (o.handles.lookup handle).map fun slot => (o, .soft slot)
  | .weakOfSoft handle => (o.behind? handle).map fun cell => (o, .weak cell)

end TimedCache
