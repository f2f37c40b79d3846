/-!
# Hooks and interrupted operations

Listeners, observers, delegates and self-made entries are told when an entry is cached,
uncached or read. Such a hook is foreign code: it may panic at any call, which ends the
operation that made the call and leaves the state that was reached so far. Here a hook is
a name, its calls are recorded, and a panic is an armed alarm that goes off once, at the
first call it matches. Calls that nobody listens to are recorded too, without a name.
-/

namespace TimedCache

/-- The name of a listener, an observer, a delegate or a self-made entry. -/
abbrev Name := String

/-- What a hook is told. -/
inductive Phase where
  | cached
  | uncached
  | access
deriving DecidableEq, Repr

/-- The word for a phase. -/
def Phase.text : Phase → String
  | .cached => "cached"
  | .uncached => "uncached"
  | .access => "access"

/-- One call of a hook, by whoever is listening. -/
structure Call (K : Type) where
  who : Option Name
  phase : Phase
  key : K
deriving DecidableEq, Repr

/-- A panic waiting for a call; without a key it waits for any key. -/
structure Alarm (K : Type) where
  who : Name
  phase : Phase
  key : Option K
deriving DecidableEq, Repr

/-- Why an operation ended early: a hook panicked, or a link led to a vacant slot. -/
inductive Panic (K : Type) where
  | armed (who : Name) (phase : Phase) (key : K)
  | vacantSlot (index : Nat)
deriving DecidableEq, Repr

variable {K : Type}

/-- The text of a panic, given the text of its key. -/
def Panic.text (keyText : K → String) : Panic K → String
  | .armed who phase key => "armed " ++ who ++ " " ++ phase.text ++ " " ++ keyText key
  | .vacantSlot _ => "linked slot must be occupied"

/-- The alarm waits for this call. -/
def Alarm.matches [DecidableEq K] (a : Alarm K) (c : Call K) : Bool :=
  c.who == some a.who && c.phase == a.phase && (a.key.isNone || a.key == some c.key)

/-- The alarms that remain once the first one matching a call has gone off, if any does. -/
def Alarm.trip? [DecidableEq K] (c : Call K) : List (Alarm K) → Option (List (Alarm K))
  | [] => none
  | a :: rest => if a.matches c then some rest else (trip? c rest).map (a :: ·)

/-- The state an operation left, with its result or the panic that ended it. -/
structure Ran (K σ α : Type) where
  state : σ
  result : Except (Panic K) α

namespace Ran

variable {σ α β : Type}

/-- An operation that returned. -/
def done (s : σ) (a : α) : Ran K σ α := ⟨s, .ok a⟩

/-- Goes on after an operation unless it panicked. -/
def andThen (r : Ran K σ α) (next : σ → α → Ran K σ β) : Ran K σ β :=
  match r.result with
  | .ok a => next r.state a
  | .error p => ⟨r.state, .error p⟩

/-- The operation returned. -/
def returned (r : Ran K σ α) : Bool := r.result.isOk

@[simp] theorem done_andThen (s : σ) (a : α) (next : σ → α → Ran K σ β) :
    (done s a).andThen next = next s a := rfl

@[simp] theorem error_andThen (s : σ) (p : Panic K) (next : σ → α → Ran K σ β) :
    (Ran.mk s (.error p) : Ran K σ α).andThen next = ⟨s, .error p⟩ := rfl

end Ran

end TimedCache
