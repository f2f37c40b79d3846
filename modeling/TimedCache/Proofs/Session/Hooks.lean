import TimedCache.Proofs.Session.Registry
import TimedCache.Proofs.Store.InStep

/-!
# The hooks of a session

Hooks may panic at any call and a session goes on, and still the calls balance: the entries that
were told that they are in are those that were told that they are out, those that are in, and those
that an interrupted drain dropped. Only drains drop entries that way: they empty the store before
they tell the first entry, and a panic keeps the rest from being told. While no hook panics, entries
and delegates are told the same transitions, which alternate under each key.
-/

namespace TimedCache.Session

open Event Store

variable {V : Type}

/-- The hooks were called in balance: the entries that were told that they are in are as many as those that
were told that they are out, those in the store and those that interrupted drains left untold. While no
drain has left any, the calls under each key are those of the entries that came in there, one after the
other, of which only the last may still be in the store and wait for its last call. -/
structure HooksBalanced (past : List (Occasion V)) (s : Store V) : Prop where
  counts : toldCount .cached s.log = toldCount .uncached s.log + s.size + (past.map Occasion.untold).sum
  calls : (past.map Occasion.untold).sum = 0 → ∀ key, entryCalls key s.log ++ s.outstanding key
    = (under key (past.flatMap Occasion.entered)).flatMap (Entry.lifecycle key)

/-- At every point of a session, and so in the store that a run leaves, the hooks were called in balance,
whichever of them panicked. -/
theorem hooks_balance (settings : Settings) (hosted : Bool) (host : Host) (wall : WallTime)
    (commands : List (Command V)) :
    let start : Session V := opened settings hosted host wall
    let first : Store V := createdAt wall
    (∀ script, script <+: start.script commands →
      HooksBalanced (first.history script) (first.follow script))
    ∧ HooksBalanced (start.history commands) (start.run commands).cache.store := by
  intro start first
  have hwithin : ∀ script, script <+: start.script commands →
      HooksBalanced (first.history script) (first.follow script) := by
    intro script hscript
    have hfaithful : ∀ o ∈ first.history script, o.Faithful := fun o ho =>
      opened_faithful settings hosted host wall commands o ((first.history_initial hscript).subset ho)
    have hledger := (createdAt_ledger wall).follow hfaithful
    exact ⟨hledger.cached.trans hledger.uncached.symm, hledger.calls⟩
  refine ⟨hwithin, ?_⟩
  rw [run_store]
  exact hwithin _ (List.prefix_refl _)

/-- Three entries, and the hook of the first one panics when it is told that it is out. -/
def interruptedRun (removal : Command Nat) : List (Command Nat) :=
  [.store "a" 1 (.ofSeconds 0) (some "L"), .store "b" 2 (.ofSeconds 0) (some "M"),
    .store "c" 3 (.ofSeconds 0) (some "N"), .arm ⟨"L", .uncached, some "a"⟩, removal]

/-- The session in which that happens. -/
def interruptedStart : Session Nat := opened {} false { link := .connected } 0

/-- A removal by prefix that a panic interrupts has told every entry that is out. -/
theorem hooks_balance_uncacheLike :
    let commands := interruptedRun (.uncacheLike "")
    let s := (interruptedStart.run commands).cache.store
    s.size = 2 ∧ toldCount .cached s.log = toldCount .uncached s.log + s.size
      ∧ ∀ key, entryCalls key s.log ++ s.outstanding key
        = (under key ((interruptedStart.history commands).flatMap Occasion.entered)).flatMap
          (Entry.lifecycle key) := by
  intro commands s
  have hnone : ((interruptedStart.history commands).map Occasion.untold).sum = 0 := by decide
  obtain ⟨hcounts, hcalls⟩ := (hooks_balance {} false { link := .connected } 0 commands).2
  exact ⟨by decide, hcounts.trans (congrArg (_ + ·) hnone), hcalls hnone⟩

/-- A drain that a panic interrupts leaves entries that were never told that they are out. -/
theorem interrupted_drain_drops :
    let s := (interruptedStart.run (interruptedRun .drain)).cache.store
    s.size = 0 ∧ toldCount .uncached s.log = 1
      ∧ ¬ toldCount .cached s.log = toldCount .uncached s.log + s.size := by
  decide

/-- At every point of a session in which no hook has panicked so far, and so in the store that such a run
leaves, hooks are in step: under each key the transitions that the delegates were told alternate, each entry
was told once that it is in and once that it is out if it is, and every call of an entry was followed by that
of the delegate. -/
theorem hooks_in_step (settings : Settings) (hosted : Bool) (host : Host) (wall : WallTime)
    (commands : List (Command V)) :
    let start : Session V := opened settings hosted host wall
    let first : Store V := createdAt wall
    (∀ script, script <+: start.script commands → (∀ o ∈ first.history script, o.returned) →
      HooksInStep (first.history script) (first.follow script))
    ∧ ((∀ o ∈ start.history commands, o.returned) →
      HooksInStep (start.history commands) (start.run commands).cache.store) := by
  intro start first
  have hstart : Accompanied [] first :=
    ⟨createdAt_ledger wall, fun _ => rfl, fun _ ho => (nomatch ho), fun _ ho => (nomatch ho)⟩
  have hwithin : ∀ script, script <+: start.script commands → (∀ o ∈ first.history script, o.returned) →
      HooksInStep (first.history script) (first.follow script) := by
    intro script hscript hreturned
    have hinitial := first.history_initial hscript
    refine (history_induction hstart (C := fun o => o.Faithful ∧ o.returned) ?_ ?_).hooksInStep
    · intro past met a hpast hallowed
      exact hpast.act (o := ⟨met, a⟩) hallowed.1 hallowed.2
    · intro o ho
      exact ⟨opened_faithful settings hosted host wall commands o (hinitial.subset ho), hreturned o ho⟩
  refine ⟨hwithin, fun hreturned => ?_⟩
  rw [run_store]
  exact hwithin _ (List.prefix_refl _) hreturned

/-- A custom entry is replaced by one with another key of its own, another delegate takes over, and
the sweeper empties the store and retires. An alarm waits for a call that never comes. -/
def steppingRun : List (Command Nat) :=
  [.arm ⟨"X", .cached, none⟩, .setDelegate (some "D"), .storeCustom "k" "own" "C" false (some 1) true,
    .get "k" none, .setDelegate (some "E"), .storeEntry "k" "other" 2 (.ofSeconds 0) none (some "L"),
    .advance 7200000]

/-- The session in which that happens. -/
def steppingStart : Session Nat := opened {} true { link := .connected } 0

/-- The delegates of the session are told of two entries under the key, one after the other. -/
theorem hooks_in_step_retirement :
    let s := (steppingStart.run steppingRun).cache.store
    HooksInStep (steppingStart.history steppingRun) s
      ∧ delegatePhases "k" s.log = [.cached, .uncached, .cached, .uncached]
      ∧ entryCalls "k" s.log = [⟨some "C", .cached, "k"⟩, ⟨some "C", .uncached, "k"⟩,
        ⟨some "L", .cached, "k"⟩, ⟨some "L", .uncached, "k"⟩] := by
  intro s
  have hreturned : ∀ o ∈ steppingStart.history steppingRun, o.returned := by decide
  exact ⟨(hooks_in_step {} true { link := .connected } 0 steppingRun).2 hreturned, by decide, by decide⟩

end TimedCache.Session
