import TimedCache.Lru.Basic

/-!
# Commands of the bounded cache

Everything that can be done with a bounded cache, as data. A run carries out a list of
commands one after the other; a command that ends in a panic leaves the state it reached,
and the run goes on from there.
-/

namespace TimedCache.Lru

/-- What can be asked of a bounded cache. -/
inductive Command (K V : Type) where
  | put (key : K) (value : V) (listener : Option Name)
  | get (key : K)
  | peek (key : K)
  | contains (key : K)
  | remove (key : K)
  | clear
  | setObserver (name : Option Name)
  /-- Makes a hook panic at a later call. -/
  | arm (alarm : Alarm K)
deriving DecidableEq, Repr

/-- The answer to a command. -/
inductive Reply (K V : Type) where
  | nothing
  | value (v : Option V)
  | flag (b : Bool)
  | panicked (p : Panic K)
deriving DecidableEq, Repr

variable {K V : Type} [DecidableEq K]

/-- The cache and the answer after an operation. -/
def answer {α : Type} (ran : Op K V α) (reply : α → Reply K V) : Lru K V × Reply K V :=
  (ran.state,
    match ran.result with
    | .ok a => reply a
    | .error p => .panicked p)

/-- Carries out a command. -/
def step (c : Lru K V) : Command K V → Lru K V × Reply K V
  | .put key value listener => answer (c.put key value listener) .value
  | .get key => answer (c.get key) .value
  | .peek key => (c, .value (c.peek key))
  | .contains key => (c, .flag (c.contains key))
  | .remove key => answer (c.remove key) .value
  | .clear => answer c.clear fun _ => .nothing
  | .setObserver name => (c.setObserver name, .nothing)
  | .arm alarm => ({ c with alarms := c.alarms ++ [alarm] }, .nothing)

/-- Carries out commands one after the other; the result is the cache they lead to. -/
def run (c : Lru K V) (commands : List (Command K V)) : Lru K V :=
  commands.foldl (fun c command => (c.step command).1) c

end TimedCache.Lru
