import TimedCache.Proofs.Session.Lookup
import TimedCache.Proofs.Session.Reports

/-!
# What a session was asked and answered

A run is a list of exchanges: commands, each with the session that carried it out and so with the
answer. What an application can count for itself, by what it asked for, whether the key was in the
store and what it was answered, is what happened to the store in the course of the run; and what
sweeps and drains returned was answered, or reported by a sweeper.
-/

namespace TimedCache

variable {V : Type}

/-- The action asks for one entry. -/
def Action.isKeyed : Action V → Bool
  | .put .. | .get .. | .uncache .. => true
  | _ => false

/-- Where no single entry is asked for, there are no look-ups, puts and removals by key. -/
theorem Occasion.countP_of_not_isKeyed {past : List (Occasion V)}
    (h : ∀ o ∈ past, ¬ o.action.isKeyed) :
    past.countP isGet = 0 ∧ past.countP isHit = 0 ∧ past.countP isExpiry = 0 ∧ past.countP isPut = 0
      ∧ past.countP isReplacement = 0 ∧ past.countP isUncached = 0 := by
  have hnone (p : Occasion V → Bool) (hp : ∀ o, p o → o.action.isKeyed) : past.countP p = 0 :=
    List.countP_eq_zero.mpr fun o ho hpo => h o ho (hp o hpo)
  refine ⟨hnone _ ?_, hnone _ ?_, hnone _ ?_, hnone _ ?_, hnone _ ?_, hnone _ ?_⟩
  all_goals
    rintro ⟨s, a⟩ ho
    cases a <;> first | rfl | cases ho

namespace Session

/-- A command together with the session that carries it out. -/
structure Exchange (V : Type) where
  before : Session V
  command : Command V

/-- The exchanges in which some commands are carried out, one after the other. -/
def exchanges (s : Session V) : List (Command V) → List (Exchange V)
  | [] => []
  | c :: rest => ⟨s, c⟩ :: (s.step c).1.exchanges rest

namespace Exchange

section Answers

variable (x : Exchange V)

/-- The session after the command. -/
def after : Session V := (x.before.step x.command).1

/-- The answer to the command. -/
def reply : Reply V := (x.before.step x.command).2

/-- What happens to the store while the command is carried out. -/
def performed : List (Occasion V) := x.before.cache.store.history (x.before.performActions x.command)

/-- What happens to the store while the cache settles after the command. -/
def settled : List (Occasion V) :=
  (x.before.perform x.command).1.cache.store.history (x.before.perform x.command).1.cache.settleActions

/-- What happens to the store in the course of the exchange. -/
def occasions : List (Occasion V) := x.performed ++ x.settled

/-- The number that was answered. -/
def answered : Nat :=
  match x.reply with
  | .count n => n
  | _ => 0

/-- A look-up was asked for. -/
def isGet : Bool :=
  match x.command with
  | .get .. => true
  | _ => false

/-- A look-up was answered with a value. -/
def isHit : Bool :=
  match x.command, x.reply with
  | .get .., .value found => found.isSome
  | _, _ => false

/-- A look-up under a key that was in the store was answered with nothing. -/
def isExpiry : Bool :=
  match x.command, x.reply with
  | .get key _, .value none => (x.before.cache.store.find? key).isSome
  | _, _ => false

/-- The key under which the command stores something. Nothing can be stored through a holder of what
does not exist. -/
def storedUnder? : Option String :=
  match x.command with
  | .store key .. | .storeEntry key .. | .storeCustom key .. => some key
  | .storeHeld key holding _ => if (holding.make? x.before.owners).isSome then some key else none
  | _ => none

/-- Something was stored. -/
def isPut : Bool := x.storedUnder?.isSome

/-- Something was stored under a key that was in the store. -/
def isReplacement : Bool := x.storedUnder?.any fun key => (x.before.cache.store.find? key).isSome

/-- A key that was in the store was removed. -/
def isUncached : Bool :=
  match x.command with
  | .uncache key => (x.before.cache.store.find? key).isSome
  | _ => false

/-- The results of removals by prefix: what was answered to whoever asked for one, and what the store
returned to listeners. -/
def removedLike : Nat :=
  match x.command with
  | .uncacheLike _ => x.answered
  | .datagram _ | .groupDatagram _ | .send _ => (x.performed.map Occasion.removedLike).sum
  | _ => 0

/-- The answer to a sweep. -/
def swept : Nat :=
  match x.command with
  | .sweep => x.answered
  | _ => 0

/-- The answer to a drain, or the result of the drain that closes the cache. -/
def drained : Nat :=
  match x.command with
  | .drain => x.answered
  | .shutdown => x.before.cache.closingDrain
  | _ => 0

/-- These occasions are what was asked for and answered in the exchange. -/
structure Tells (past : List (Occasion V)) : Prop where
  gets : past.countP Occasion.isGet = x.isGet.toNat
  hits : past.countP Occasion.isHit = x.isHit.toNat
  expiries : past.countP Occasion.isExpiry = x.isExpiry.toNat
  puts : past.countP Occasion.isPut = x.isPut.toNat
  replacements : past.countP Occasion.isReplacement = x.isReplacement.toNat
  uncached : past.countP Occasion.isUncached = x.isUncached.toNat
  removedLike : (past.map Occasion.removedLike).sum = x.removedLike

end Answers

variable {x : Exchange V} {past later : List (Occasion V)}

/-- Upkeep was not asked for, and answers nothing. -/
theorem Tells.append_upkeep (h : x.Tells past) (hlater : ∀ o ∈ later, o.action.isUpkeep) :
    x.Tells (past ++ later) := by
  have hkeyed : ∀ o ∈ later, ¬ o.action.isKeyed := by
    rintro ⟨s, a⟩ ho
    have hupkeep := hlater _ ho
    cases a <;> first | exact Bool.false_ne_true | cases hupkeep
  have hlike : (later.map Occasion.removedLike).sum = 0 := by
    refine List.sum_eq_zero (List.forall_mem_map.mpr ?_)
    rintro ⟨s, a⟩ ho
    have hupkeep := hlater _ ho
    cases a <;> first | rfl | cases hupkeep
  obtain ⟨hgets, hhits, hexpiries, hputs, hreplacements, huncached⟩ := Occasion.countP_of_not_isKeyed hkeyed
  constructor
  · rw [List.countP_append, hgets]
    exact h.gets
  · rw [List.countP_append, hhits]
    exact h.hits
  · rw [List.countP_append, hexpiries]
    exact h.expiries
  · rw [List.countP_append, hputs]
    exact h.puts
  · rw [List.countP_append, hreplacements]
    exact h.replacements
  · rw [List.countP_append, huncached]
    exact h.uncached
  · rw [List.map_append, List.sum_append, hlike]
    exact h.removedLike

/-- What an operation on the store returned is the number that is answered. -/
theorem answered_of_answer {f : Cache.Op V Nat} (h : x.before.perform x.command = x.before.answer f .count) :
    x.answered = f.number := by
  have hreply : x.reply = (x.before.answer f .count).2 := congrArg (fun p => p.2) h
  rw [answered, hreply, answer, Ran.number]
  cases f.result <;> rfl

/-- A look-up that returns is answered with what the store returned. -/
theorem tells_get {s : Session V} {key : String} {keep : Option Name}
    (h : (s.cache.store.get s.cache.wall key).returned) :
    Tells ⟨s, .get key keep⟩ (performed ⟨s, .get key keep⟩) := by
  obtain ⟨found, hfound⟩ := Ran.exists_of_returned h
  have hreply : (Exchange.mk s (.get key keep)).reply = .value (found.map Cell.value) :=
    get_answer ((Cache.touching_result _ _).trans hfound) keep
  have hhit : (Exchange.mk s (.get key keep)).isHit = found.isSome := by
    rw [isHit, hreply]
    exact Option.isSome_map ..
  have hexpiry : (Exchange.mk s (.get key keep)).isExpiry
      = ((s.cache.store.find? key).isSome && !found.isSome) := by
    rw [isExpiry, hreply]
    cases found with
    | none => exact (Bool.and_true _).symm
    | some cell => exact (Bool.and_false _).symm
  have hfirst : (Occasion.mk s.cache.store (.get s.cache.wall key)).isHit = found.isSome := by
    simp only [Occasion.isHit, hfound]
  refine ⟨rfl, ?_, ?_, rfl, rfl, rfl, rfl⟩
  · rw [hhit, ← hfirst]
    rfl
  · rw [hexpiry, ← hfirst]
    rfl

/-- Something is put through a holder exactly if there is one. -/
theorem tells_storeHeld (s : Session V) (key : String) (holding : Holding V) (ttl : Duration) :
    Tells ⟨s, .storeHeld key holding ttl⟩ (s.cache.store.history (s.putHeldActions key holding ttl)) := by
  have hunder : storedUnder? ⟨s, .storeHeld key holding ttl⟩
      = if (holding.make? s.owners).isSome then some key else none := rfl
  rw [putHeldActions]
  cases hmade : holding.make? s.owners with
  | none =>
    rw [hmade] at hunder
    refine ⟨rfl, rfl, rfl, ?_, ?_, rfl, rfl⟩
    · rw [isPut, hunder]
      rfl
    · rw [isReplacement, hunder]
      rfl
  | some made =>
    rw [hmade] at hunder
    refine ⟨rfl, rfl, rfl, ?_, ?_, rfl, rfl⟩
    · rw [isPut, hunder]
      rfl
    · rw [isReplacement, hunder]
      rfl

/-- Changing what a custom entry answers asks for nothing that is counted. -/
theorem tells_reviseCustom (s : Session V) (id : Name) (expired : Option Bool)
    (value : Option (Option V)) :
    Tells ⟨s, .reviseCustom id expired value⟩
      (s.cache.store.history (s.reviseCustomActions id expired value)) := by
  rw [reviseCustomActions]
  cases s.owners.custom? id with
  | none => exact ⟨rfl, rfl, rfl, rfl, rfl, rfl, rfl⟩
  | some e => cases value <;> exact ⟨rfl, rfl, rfl, rfl, rfl, rfl, rfl⟩

/-- Upkeep alone tells of nothing that is counted. -/
theorem tells_upkeep (hc : x.command.isUpkeep) (hempty : x.Tells []) : x.Tells x.performed :=
  hempty.append_upkeep fun _ ho => isUpkeep_of_mem_performActions hc (Store.action_mem_of_mem_history ho)

/-- A datagram asks for no single entry. -/
theorem tells_remote (hc : x.command.isRemote) : x.Tells x.performed := by
  have hkeyed : ∀ o ∈ x.performed, ¬ o.action.isKeyed := by
    rintro ⟨s, a⟩ ho
    have hpruning := isPruning_of_mem_performActions hc (Store.action_mem_of_mem_history ho)
    cases a <;> first | exact Bool.false_ne_true | cases hpruning
  obtain ⟨hgets, hhits, hexpiries, hputs, hreplacements, huncached⟩ := Occasion.countP_of_not_isKeyed hkeyed
  -- nobody is answered what a listener removed, so that is read off the store
  obtain ⟨s, c⟩ := x
  cases c with
  | datagram | groupDatagram | send =>
    exact ⟨hgets, hhits, hexpiries, hputs, hreplacements, huncached, rfl⟩
  | _ => cases hc

/-- What happens while a command is carried out is what was asked for and answered, if the hooks
return. -/
theorem performed_tells (x : Exchange V) (h : ∀ o ∈ x.performed, o.returned) : x.Tells x.performed := by
  obtain ⟨s, c⟩ := x
  cases c with
  | store | storeEntry | storeCustom | uncache => exact ⟨rfl, rfl, rfl, rfl, rfl, rfl, rfl⟩
  | storeHeld key holding ttl => exact tells_storeHeld s key holding ttl
  | reviseCustom id expired value => exact tells_reviseCustom s id expired value
  | get key keep => exact tells_get (h _ (List.mem_cons_self ..))
  | uncacheLike pattern =>
    have hanswered : answered ⟨s, .uncacheLike pattern⟩ = (s.cache.uncacheLike pattern).number :=
      answered_of_answer rfl
    exact ⟨rfl, rfl, rfl, rfl, rfl, rfl, hanswered.symm⟩
  | datagram | groupDatagram | send => exact tells_remote rfl
  | sweep | drain | advance | shutdown => exact tells_upkeep rfl ⟨rfl, rfl, rfl, rfl, rfl, rfl, rfl⟩
  | _ => exact ⟨rfl, rfl, rfl, rfl, rfl, rfl, rfl⟩

/-- What happens in the course of an exchange is what was asked for and answered, if the hooks return. -/
theorem tells (x : Exchange V) (h : ∀ o ∈ x.occasions, o.returned) : x.Tells x.occasions := by
  obtain ⟨hperformed, -⟩ := List.forall_mem_append.mp h
  exact (x.performed_tells hperformed).append_upkeep fun o ho =>
    Cache.isUpkeep_of_mem_settleActions (Store.action_mem_of_mem_history ho)

/-- What sweeps and drains return while a command is carried out is answered or reported, if the hooks
return. -/
theorem performed_reports (x : Exchange V) (h : ∀ o ∈ x.performed, o.returned) :
    Cache.Reports x.before.cache (x.before.perform x.command).1.cache x.performed x.swept x.drained := by
  obtain ⟨s, c⟩ := x
  have hother (hc : c.isUpkeep = false) (hswept : swept ⟨s, c⟩ = 0) (hdrained : drained ⟨s, c⟩ = 0) :
      Cache.Reports s.cache (s.perform c).1.cache (performed ⟨s, c⟩) (swept ⟨s, c⟩) (drained ⟨s, c⟩) := by
    rw [hswept, hdrained]
    refine (s.perform_reports hc).of_not_isUpkeep fun o ho => ?_
    simpa using List.all_eq_true.mp (s.all_not_isUpkeep hc) _ (Store.action_mem_of_mem_history ho)
  cases c with
  | sweep =>
    have hanswered : answered ⟨s, .sweep⟩ = s.cache.sweep.number := answered_of_answer rfl
    exact ⟨congrArg (s.cache.sweptReports + ·) hanswered.symm, rfl⟩
  | drain =>
    have hanswered : answered ⟨s, .drain⟩ = s.cache.drain.number := answered_of_answer rfl
    exact ⟨rfl, congrArg (s.cache.drainedReports + ·) hanswered.symm⟩
  | advance millis => exact s.cache.advance_reports millis h
  | shutdown => exact s.cache.shutdown_reports h
  | _ => exact hother rfl rfl rfl

/-- What sweeps and drains return in the course of an exchange is answered or reported, if the hooks
return. -/
theorem reports (x : Exchange V) (h : ∀ o ∈ x.occasions, o.returned) :
    Cache.Reports x.before.cache x.after.cache x.occasions x.swept x.drained := by
  obtain ⟨hperformed, hsettled⟩ := List.forall_mem_append.mp h
  exact (x.performed_reports hperformed).trans (Cache.settle_reports _ hsettled)

section Past

variable {past : List (Exchange V)} (htells : ∀ x ∈ past, x.Tells x.occasions)

include htells

/-- What each exchange tells of once at most can be counted by exchanges. -/
theorem countP_occasions {p : Occasion V → Bool} {q : Exchange V → Bool}
    (h : ∀ x : Exchange V, x.Tells x.occasions → x.occasions.countP p = (q x).toNat) :
    (past.flatMap occasions).countP p = past.countP q := by
  induction past with
  | nil => rfl
  | cons x rest ih =>
    obtain ⟨hx, hrest⟩ := List.forall_mem_cons.mp htells
    rw [List.flatMap_cons, List.countP_append, List.countP_cons, ih hrest, h x hx, Nat.add_comm]
    cases q x <;> rfl

/-- What removals by prefix returned was answered, or returned to listeners. -/
theorem sum_removedLike : ((past.flatMap occasions).map Occasion.removedLike).sum
    = (past.map Exchange.removedLike).sum := by
  induction past with
  | nil => rfl
  | cons x rest ih =>
    obtain ⟨hx, hrest⟩ := List.forall_mem_cons.mp htells
    rw [List.flatMap_cons, List.map_append, List.sum_append, hx.removedLike, ih hrest]
    rfl

end Past

end Exchange

variable (s : Session V)

/-- What happens in the course of a run happens in its exchanges. -/
theorem history_eq_flatMap (commands : List (Command V)) :
    s.history commands = (s.exchanges commands).flatMap Exchange.occasions := by
  induction commands generalizing s with
  | nil => rfl
  | cons c rest ih =>
    rw [exchanges, List.flatMap_cons, ← ih, history, script, Store.history_append, ← step_store, actions,
      Store.history_append, ← perform_store]
    rfl

/-- In every exchange of a run the hooks return if they do in the run. -/
theorem returned_of_mem_exchanges {commands : List (Command V)}
    (h : ∀ o ∈ s.history commands, o.returned) :
    ∀ x ∈ s.exchanges commands, ∀ o ∈ x.occasions, o.returned := by
  intro x hx o ho
  rw [history_eq_flatMap] at h
  exact h o (List.mem_flatMap.mpr ⟨x, hx, ho⟩)

/-- What sweeps and drains returned in a run was answered or reported, if the hooks returned. -/
theorem run_reports {commands : List (Command V)} (h : ∀ o ∈ s.history commands, o.returned) :
    Cache.Reports s.cache (s.run commands).cache (s.history commands)
      ((s.exchanges commands).map Exchange.swept).sum ((s.exchanges commands).map Exchange.drained).sum := by
  have hexchanges := s.returned_of_mem_exchanges h
  rw [history_eq_flatMap]
  clear h
  -- each command leaves the session, and so the notices, that the next one meets
  induction commands generalizing s with
  | nil => exact .of_notices rfl
  | cons c rest ih =>
    obtain ⟨hfirst, hrest⟩ := List.forall_mem_cons.mp hexchanges
    exact (Exchange.reports ⟨s, c⟩ hfirst).trans (ih _ hrest)

end Session

end TimedCache
