import TimedCache.Proofs.Session.Lasting

/-!
# Sessions that hold nothing weakly

An entry that holds its value strongly or in a soft slot refers to nothing that lives by the store
alone. So the store of a session that stores nothing weakly is independent all the time.
-/

namespace TimedCache

variable {V : Type}

/-- The reference owns nothing. -/
def Holder.isWeak : Holder V → Bool
  | .weak _ => true
  | _ => false

/-- The entry holds nothing weakly. -/
def Entry.Firm (e : Entry V) : Prop := ∀ h ∈ e.holders, h.isWeak = false

/-- The action puts no entry that holds something weakly. -/
def Action.PutsFirmly (a : Action V) : Prop := ∀ t key e, a = .put t key e → e.Firm

/-- The command stores nothing weakly. -/
def Command.isFirm : Command V → Bool
  | .storeHeld _ (.weakOf _) _ | .storeHeld _ (.weakOfSoft _) _ => false
  | _ => true

/-- Removing entries puts none that holds something weakly. -/
theorem Action.putsFirmly_of_isRemoval {a : Action V} (h : a.isRemoval) : a.PutsFirmly := by
  rintro t key e rfl
  cases h

namespace Store

variable {s : Store V}

/-- The entries hold nothing weakly. -/
def AllFirm (s : Store V) : Prop := ∀ p ∈ s.entries, p.2.Firm

/-- A store that holds nothing weakly is independent. -/
theorem AllFirm.isIndependent (h : s.AllFirm) : s.isIndependent := by
  refine List.all_eq_true.mpr fun p hp => List.all_eq_true.mpr fun holder hholder => beq_iff_eq.mpr ?_
  have hfirm := h p hp holder hholder
  cases holder with
  | strong cell => rfl
  | weak cell => cases hfirm
  | soft slot => rfl

/-- A store goes on holding nothing weakly if nothing else is put. -/
theorem Calm.act_allFirm (hs : s.Calm) (hfirm : s.AllFirm) {a : Action V} (ha : a.isPlain)
    (hputs : a.PutsFirmly) : (s.act a).AllFirm := by
  intro p hp holder hholder
  rcases hs.act_holders ha hp with ⟨t, rfl⟩ | ⟨q, hq, hsame⟩
  · exact hputs _ _ _ rfl holder hholder
  · exact hfirm q hq holder (hsame ▸ hholder)

/-- A script that puts nothing else leads through stores that hold nothing weakly. -/
theorem Calm.follow_independent (hs : s.Calm) (hfirm : s.AllFirm) {script : List (Action V)}
    (hplain : ∀ a ∈ script, a.isPlain) (hputs : ∀ a ∈ script, a.PutsFirmly) :
    (∀ o ∈ s.history script, o.before.isIndependent) ∧ (s.follow script).isIndependent := by
  induction script generalizing s with
  | nil => exact ⟨fun _ h => (nomatch h), hfirm.isIndependent⟩
  | cons a rest ih =>
    obtain ⟨ha, hrest⟩ := List.forall_mem_cons.mp hplain
    obtain ⟨hput, hlater⟩ := List.forall_mem_cons.mp hputs
    obtain ⟨hhistory, hend⟩ := ih (hs.act ha) (hs.act_allFirm hfirm ha hput) hrest hlater
    exact ⟨List.forall_mem_cons.mpr ⟨hfirm.isIndependent, hhistory⟩, hend⟩

end Store

namespace Session

variable {s : Session V} {a : Action V}

/-- Setting the references outside and putting an entry puts nothing weakly if the entry holds its
value otherwise. -/
theorem putsFirmly_of_mem_putActions {owners : Owners V} {t : WallTime} {key : String}
    {e : TimedEntry V} (he : e.holder.isWeak = false)
    (h : a ∈ [Action.refer owners, Action.put t key (.timed e)]) : a.PutsFirmly := by
  rintro t' key' e' rfl
  rcases List.mem_cons.mp h with h | h
  · cases h
  · cases List.mem_singleton.mp h
    exact List.forall_mem_singleton.mpr he

/-- What a plain command does puts nothing weakly if the command stores nothing so. -/
theorem putsFirmly_of_mem_performActions {c : Command V} (hc : c.isPlain) (hfirm : c.isFirm)
    (h : a ∈ s.performActions c) : a.PutsFirmly := by
  cases c with
  | store key value ttl listener =>
    exact putsFirmly_of_mem_putActions rfl h
  | storeEntry key entryKey value ttl expires listener =>
    exact putsFirmly_of_mem_putActions rfl h
  | storeHeld key holding ttl =>
    have hmade (made : Owners V × Holder V) (hmake : holding.make? s.owners = some made) :
        made.2.isWeak = false := by
      cases holding with
      | strong value =>
        cases hmake
        rfl
      | strongOf owner | softOf handle =>
        obtain ⟨_, -, rfl⟩ := Option.map_eq_some_iff.mp hmake
        rfl
      | weakOf owner | weakOfSoft handle => cases hfirm
    rw [performActions, putHeldActions] at h
    split at h
    · cases h
    · next hmake => exact putsFirmly_of_mem_putActions (hmade _ hmake) h
  | uncacheLike | sweep | drain | advance | shutdown | datagram | groupDatagram | send =>
    exact Action.putsFirmly_of_isRemoval (isRemoval_of_mem_performActions rfl h)
  | storeCustom | reviseCustom | arm => cases hc
  | _ =>
    rintro t key e rfl
    simp [performActions] at h

/-- What plain commands do puts nothing weakly if they store nothing so. -/
theorem putsFirmly_of_mem_script {commands : List (Command V)}
    (hcommands : ∀ c ∈ commands, c.isPlain ∧ c.isFirm) (h : a ∈ s.script commands) :
    a.PutsFirmly := by
  induction commands generalizing s with
  | nil => cases h
  | cons c rest ih =>
    obtain ⟨⟨hc, hfirm⟩, hrest⟩ := List.forall_mem_cons.mp hcommands
    rcases List.mem_append.mp h with h | h
    · rcases List.mem_append.mp h with h | h
      · exact putsFirmly_of_mem_performActions hc hfirm h
      · exact Action.putsFirmly_of_isRemoval (Cache.isRemoval_of_mem_settleActions h)
    · exact ih hrest h

/-- A new session stays independent through plain commands that store nothing weakly. -/
theorem opened_independent (settings : Settings) (hosted : Bool) (host : Host) (wall : WallTime)
    {commands : List (Command V)} (hcommands : ∀ c ∈ commands, c.isPlain ∧ c.isFirm) :
    let start : Session V := opened settings hosted host wall
    (∀ o ∈ start.history commands, o.before.isIndependent)
      ∧ (start.run commands).cache.store.isIndependent := by
  intro start
  rw [run_store]
  exact (Store.createdAt_calm wall).follow_independent (fun _ h => nomatch h)
    (fun _ => isPlain_of_mem_script fun c hc => (hcommands c hc).1)
    fun _ => putsFirmly_of_mem_script hcommands

end Session

end TimedCache
