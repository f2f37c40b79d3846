import TimedCache.Proofs.Session.Script

/-!
# Plain sessions

A command is plain if it arms no alarm and does not deal in custom entries. What plain commands do
to the store is plain, so a new session stays calm through any run of them.
-/

namespace TimedCache

variable {V : Type}

/-- The command arms no alarm and does not deal in custom entries. -/
def Command.isPlain : Command V → Bool
  | .arm _ | .storeCustom .. | .reviseCustom .. => false
  | _ => true

/-- The command arms no alarm. -/
def Command.isQuiet : Command V → Bool
  | .arm _ => false
  | _ => true

/-- Plain commands arm no alarm. -/
theorem Command.isQuiet_of_isPlain {c : Command V} (h : c.isPlain) : c.isQuiet := by
  cases c <;> first | rfl | cases h

/-- All that the command does to the store is to remove entries. -/
def Command.isRemoval : Command V → Bool
  | .uncacheLike _ | .sweep | .drain | .advance _ | .shutdown | .datagram _ | .groupDatagram _
  | .send _ => true
  | _ => false

/-- The command does to the store what a sweeper does. -/
def Command.isUpkeep : Command V → Bool
  | .sweep | .drain | .advance _ | .shutdown => true
  | _ => false

/-- The command hands a datagram to listeners. -/
def Command.isRemote : Command V → Bool
  | .datagram _ | .groupDatagram _ | .send _ => true
  | _ => false

namespace Action

/-- The action does nothing but remove entries. -/
def isRemoval : Action V → Bool
  | .uncacheLike .. | .sweep _ | .drain _ => true
  | _ => false

/-- The action is one that a sweeper does. -/
def isUpkeep : Action V → Bool
  | .sweep _ | .drain _ => true
  | _ => false

/-- The action removes entries by prefix. -/
def isPruning : Action V → Bool
  | .uncacheLike .. => true
  | _ => false

/-- Removing entries is plain. -/
theorem isPlain_of_isRemoval {a : Action V} (h : a.isRemoval) : a.isPlain := by
  cases a <;> first | rfl | cases h

/-- A sweeper does nothing but remove entries. -/
theorem isRemoval_of_isUpkeep {a : Action V} (h : a.isUpkeep) : a.isRemoval := by
  cases a <;> first | rfl | cases h

/-- Entries with a prefix are removed and nothing else is done. -/
theorem isRemoval_of_isPruning {a : Action V} (h : a.isPruning) : a.isRemoval := by
  cases a <;> first | rfl | cases h

/-- What a datagram does is to remove entries by prefix. -/
theorem isPruning_of_mem_ofDatagram {t : WallTime} {payload : List UInt8} {a : Action V}
    (h : a ∈ ofDatagram t payload) : a.isPruning := by
  rw [ofDatagram] at h
  split at h
  · exact List.mem_singleton.mp h ▸ rfl
  · cases h

/-- What a datagram does is to remove entries. -/
theorem isRemoval_of_mem_ofDatagram {t : WallTime} {payload : List UInt8} {a : Action V}
    (h : a ∈ ofDatagram t payload) : a.isRemoval :=
  isRemoval_of_isPruning (isPruning_of_mem_ofDatagram h)

end Action

namespace Cache

variable {c : Cache V} {a : Action V}

/-- What a sweeper does when it wakes is upkeep. -/
theorem isUpkeep_of_mem_wakeActions (h : a ∈ c.wakeActions) : a.isUpkeep := by
  rw [wakeActions] at h
  split at h
  · cases h
  · split at h <;> exact List.mem_singleton.mp h ▸ rfl

/-- What happens while a cache settles is upkeep. -/
theorem isUpkeep_of_mem_settleActions (h : a ∈ c.settleActions) : a.isUpkeep := by
  rw [settleActions] at h
  split at h
  · cases h
  · split at h
    · exact isUpkeep_of_mem_wakeActions h
    · cases h

/-- What wake-ups do is upkeep. -/
theorem isUpkeep_of_mem_wakeUntilActions {target fuel : Nat}
    (h : a ∈ wakeUntilActions target fuel c) : a.isUpkeep := by
  induction fuel generalizing c with
  | zero => cases h
  | succ fuel ih =>
    rw [wakeUntilActions] at h
    split at h
    · cases h
    · dsimp only at h
      split at h
      · rcases List.mem_append.mp h with h | h
        · exact isUpkeep_of_mem_wakeActions h
        · exact ih h
      · cases h

/-- What closing a cache does is what sweepers do too. -/
theorem isUpkeep_of_mem_shutdownActions (h : a ∈ c.shutdownActions) : a.isUpkeep := by
  rw [shutdownActions] at h
  split at h
  · exact List.mem_singleton.mp h ▸ rfl
  · rcases List.mem_cons.mp h with rfl | h
    · rfl
    · exact List.mem_singleton.mp h ▸ rfl

/-- What a sweeper does when it wakes is to remove entries. -/
theorem isRemoval_of_mem_wakeActions (h : a ∈ c.wakeActions) : a.isRemoval :=
  Action.isRemoval_of_isUpkeep (isUpkeep_of_mem_wakeActions h)

/-- What happens while a cache settles is that entries are removed. -/
theorem isRemoval_of_mem_settleActions (h : a ∈ c.settleActions) : a.isRemoval :=
  Action.isRemoval_of_isUpkeep (isUpkeep_of_mem_settleActions h)

end Cache

namespace Session

variable {s : Session V} {a : Action V}

/-- What the application's own listener does is to remove entries by prefix. -/
theorem isPruning_of_mem_receiveActions {payload : List UInt8} (h : a ∈ s.receiveActions payload) :
    a.isPruning := by
  rw [receiveActions] at h
  split at h
  · exact Action.isPruning_of_mem_ofDatagram h
  · cases h

/-- What a datagram on the host itself does is what its delivery does. -/
theorem mem_of_mem_overLoopbackActions {payload : List UInt8} {actions : List (Action V)}
    (h : a ∈ s.overLoopbackActions payload actions) : a ∈ actions := by
  rw [overLoopbackActions] at h
  split at h
  · cases h
  · exact h

/-- What listeners do with a datagram is to remove entries by prefix. -/
theorem isPruning_of_mem_performActions {c : Command V} (hc : c.isRemote)
    (h : a ∈ s.performActions c) : a.isPruning := by
  cases c with
  | datagram payload => exact isPruning_of_mem_receiveActions (mem_of_mem_overLoopbackActions h)
  | groupDatagram payload =>
    obtain ⟨_, _, h⟩ := List.mem_flatMap.mp (mem_of_mem_overLoopbackActions h)
    exact Action.isPruning_of_mem_ofDatagram h
  | send pattern =>
    rw [performActions, sendActions] at h
    split at h
    · cases h
    · exact isPruning_of_mem_receiveActions h
  | _ => cases hc

/-- What a command for upkeep does is upkeep. -/
theorem isUpkeep_of_mem_performActions {c : Command V} (hc : c.isUpkeep)
    (h : a ∈ s.performActions c) : a.isUpkeep := by
  cases c with
  | sweep | drain => exact List.mem_singleton.mp h ▸ rfl
  | advance millis => exact Cache.isUpkeep_of_mem_wakeUntilActions h
  | shutdown => exact Cache.isUpkeep_of_mem_shutdownActions h
  | _ => cases hc

/-- What a command for removal does is to remove entries. -/
theorem isRemoval_of_mem_performActions {c : Command V} (hc : c.isRemoval)
    (h : a ∈ s.performActions c) : a.isRemoval := by
  cases c with
  | uncacheLike => exact List.mem_singleton.mp h ▸ rfl
  | sweep | drain | advance | shutdown =>
    exact Action.isRemoval_of_isUpkeep (isUpkeep_of_mem_performActions rfl h)
  | datagram | groupDatagram | send =>
    exact Action.isRemoval_of_isPruning (isPruning_of_mem_performActions rfl h)
  | _ => cases hc

/-- Setting the references outside and putting a usual entry is plain. -/
theorem isPlain_of_mem_putActions {owners : Owners V} {t : WallTime} {key : String}
    {e : TimedEntry V} (h : a ∈ [Action.refer owners, Action.put t key (.timed e)]) : a.isPlain := by
  rcases List.mem_cons.mp h with rfl | h
  · rfl
  · exact List.mem_singleton.mp h ▸ rfl

/-- What a plain command does is plain. -/
theorem isPlain_of_mem_performActions {c : Command V} (hc : c.isPlain)
    (h : a ∈ s.performActions c) : a.isPlain := by
  cases c with
  | store key value ttl listener => exact isPlain_of_mem_putActions h
  | storeEntry key entryKey value ttl expires listener => exact isPlain_of_mem_putActions h
  | storeHeld key holding ttl =>
    rw [performActions, putHeldActions] at h
    split at h
    · cases h
    · exact isPlain_of_mem_putActions h
  | get key keep =>
    rcases List.mem_cons.mp h with rfl | h
    · rfl
    · exact List.mem_singleton.mp h ▸ rfl
  | uncacheLike | sweep | drain | advance | shutdown | datagram | groupDatagram | send =>
    exact Action.isPlain_of_isRemoval (isRemoval_of_mem_performActions rfl h)
  | storeCustom | reviseCustom | arm => cases hc
  | uncache | setDelegate | own | soften | softenOwned | share | refer | copy | keepValue | drop
  | reclaim => exact List.mem_singleton.mp h ▸ rfl
  | readSoft | size | stats | useAge | skew | ensureSweeper | running | settings | setHost | listen
  | unlisten | listenerAlive => cases h

/-- What a plain command does, the wake-up after it included, is plain. -/
theorem isPlain_of_mem_actions {c : Command V} (hc : c.isPlain) (h : a ∈ s.actions c) :
    a.isPlain := by
  rcases List.mem_append.mp h with h | h
  · exact isPlain_of_mem_performActions hc h
  · exact Action.isPlain_of_isRemoval (Cache.isRemoval_of_mem_settleActions h)

/-- Plain commands have a plain script. -/
theorem isPlain_of_mem_script {commands : List (Command V)} (hcommands : ∀ c ∈ commands, c.isPlain)
    (h : a ∈ s.script commands) : a.isPlain := by
  induction commands generalizing s with
  | nil => cases h
  | cons c rest ih =>
    obtain ⟨hc, hrest⟩ := List.forall_mem_cons.mp hcommands
    rcases List.mem_append.mp h with h | h
    · exact isPlain_of_mem_actions hc h
    · exact ih hrest h

/-- A session whose store is calm stays so through plain commands. -/
theorem run_calm (hs : s.cache.store.Calm) {commands : List (Command V)}
    (hcommands : ∀ c ∈ commands, c.isPlain) : (s.run commands).cache.store.Calm := by
  rw [run_store]
  exact hs.follow fun _ => isPlain_of_mem_script hcommands

/-- What a command does that arms no alarm sets none. -/
theorem isQuiet_of_mem_performActions {c : Command V} (hc : c.isQuiet)
    (h : a ∈ s.performActions c) : a.isQuiet := by
  cases hplain : c.isPlain with
  | true => exact Action.isQuiet_of_isPlain (isPlain_of_mem_performActions hplain h)
  | false =>
    cases c with
    | storeCustom key entryKey id expired value hooks =>
      rcases List.mem_cons.mp h with rfl | h
      · rfl
      · exact List.mem_singleton.mp h ▸ rfl
    | reviseCustom id expired value =>
      rw [performActions, reviseCustomActions] at h
      split at h
      · cases h
      · dsimp only at h
        split at h
        · exact List.mem_singleton.mp h ▸ rfl
        · rcases List.mem_cons.mp h with rfl | h
          · rfl
          · exact List.mem_singleton.mp h ▸ rfl
    | arm => cases hc
    | _ => cases hplain

/-- A session whose store is calm stays so through a command that arms no alarm. -/
theorem step_calm (hs : s.cache.store.Calm) {c : Command V} (hc : c.isQuiet) :
    (s.step c).1.cache.store.Calm := by
  rw [step_store]
  apply hs.follow_of_isQuiet
  intro a ha
  rcases List.mem_append.mp ha with ha | ha
  · exact isQuiet_of_mem_performActions hc ha
  · exact Action.isQuiet_of_isPlain
      (Action.isPlain_of_isRemoval (Cache.isRemoval_of_mem_settleActions ha))

end Session

end TimedCache
