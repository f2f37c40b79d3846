import Mathlib.Algebra.BigOperators.Group.List.Basic
import TimedCache.Proofs.Session.Plain
import TimedCache.Proofs.Store.Tally

/-!
# What sweepers report

A sweeper reports whatever it takes out of the store: a pass the entries that it swept, if there were
any, and a retirement those that it drained. While no hook panics, the numbers in the notices of a cache
are those that the sweeps and drains of its sweepers returned.
-/

namespace TimedCache

variable {V : Type}

/-- The number of entries that were swept according to a notice. -/
def Notice.swept : Notice → Nat
  | .removed count => count
  | _ => 0

/-- The number of entries that were drained according to a notice. -/
def Notice.drained : Notice → Nat
  | .retired _ _ drained _ => drained
  | _ => 0

namespace Cache

/-- The number of entries that sweepers have swept according to the notices. -/
def sweptReports (c : Cache V) : Nat := (c.notices.map Notice.swept).sum

/-- The number of entries that sweepers have drained according to the notices. -/
def drainedReports (c : Cache V) : Nat := (c.notices.map Notice.drained).sum

/-- From one cache to the other, what sweeps and drains returned is in the notices, apart from what was
answered to whoever asked for them. -/
structure Reports (c c' : Cache V) (past : List (Occasion V)) (swept drained : Nat) : Prop where
  swept : c.sweptReports + (past.map Occasion.swept).sum = c'.sweptReports + swept
  drained : c.drainedReports + (past.map Occasion.drained).sum = c'.drainedReports + drained

variable {c c' c'' : Cache V} {past later : List (Occasion V)} {swept drained : Nat}

namespace Reports

/-- One after the other. -/
theorem trans {swept' drained' : Nat} (h : Reports c c' past swept drained)
    (h' : Reports c' c'' later swept' drained') :
    Reports c c'' (past ++ later) (swept + swept') (drained + drained') := by
  obtain ⟨hswept, hdrained⟩ := h
  obtain ⟨hswept', hdrained'⟩ := h'
  constructor
  · rw [List.map_append, List.sum_append]
    omega
  · rw [List.map_append, List.sum_append]
    omega

/-- Where nothing was taken out, nothing need be reported. -/
theorem of_notices (h : c'.notices = c.notices) : Reports c c' [] 0 0 := by
  constructor
  · rw [sweptReports, sweptReports, h]
    rfl
  · rw [drainedReports, drainedReports, h]
    rfl

/-- Whatever else changed, the notices are the same. -/
theorem congr {d d' : Cache V} (h : Reports c c' past swept drained) (hend : c'.notices = d'.notices)
    (hstart : c.notices = d.notices) : Reports d d' past swept drained := by
  have hswept := h.swept
  have hdrained := h.drained
  rw [sweptReports, sweptReports, hstart, hend] at hswept
  rw [drainedReports, drainedReports, hstart, hend] at hdrained
  exact ⟨hswept, hdrained⟩

/-- One notice tells what was taken out. -/
theorem of_note {n : Notice} (h : c'.notices = c.notices ++ [n])
    (hswept : (past.map Occasion.swept).sum = n.swept)
    (hdrained : (past.map Occasion.drained).sum = n.drained) : Reports c c' past 0 0 := by
  constructor
  · rw [sweptReports, sweptReports, h, List.map_append, List.sum_append, hswept]
    rfl
  · rw [drainedReports, drainedReports, h, List.map_append, List.sum_append, hdrained]
    rfl

/-- Nothing is swept or drained but by upkeep. -/
theorem of_not_isUpkeep (h : Reports c c' [] 0 0) (hpast : ∀ o ∈ past, o.action.isUpkeep = false) :
    Reports c c' past 0 0 := by
  have hnone (count : Occasion V → Nat) (hcount : ∀ o, o.action.isUpkeep = false → count o = 0) :
      (past.map count).sum = 0 :=
    List.sum_eq_zero (List.forall_mem_map.mpr fun o ho => hcount o (hpast o ho))
  have hswept : (past.map Occasion.swept).sum = 0 := by
    apply hnone
    rintro ⟨s, a⟩ ha
    cases a <;> first | rfl | cases ha
  have hdrained : (past.map Occasion.drained).sum = 0 := by
    apply hnone
    rintro ⟨s, a⟩ ha
    cases a <;> first | rfl | cases ha
  constructor
  · rw [hswept]
    exact h.swept
  · rw [hdrained]
    exact h.drained

end Reports

/-- The result of the drain that closes a cache, which comes after that of its sweeper. -/
def closingDrain (c : Cache V) : Nat :=
  match c.sweeper with
  | none => c.drain.number
  | some sw => (c.retire sw).drain.number

variable (c)

/-- An attempt at a listener tells of nothing that was taken out. -/
theorem acquireListener_reports (sw : Sweeper) : Reports c (c.acquireListener sw) [] 0 0 := by
  rw [acquireListener]
  cases c.settings.multicast with
  | none => exact .of_notices rfl
  | some group =>
    dsimp only
    cases Listener.bind c.host group with
    | ok address => exact .of_notices rfl
    | error fault =>
      cases fault with
      | io failure =>
        dsimp only
        split
        · split
          · exact .of_notices rfl
          · exact .of_note rfl rfl rfl
        · exact .of_note rfl rfl rfl
      | _ => exact .of_note rfl rfl rfl

/-- Starting a sweeper tells of nothing that was taken out. -/
theorem ensureSweeper_reports : Reports c c.ensureSweeper [] 0 0 := by
  rw [ensureSweeper]
  split
  · exact .of_notices rfl
  · have hstarted : Reports c (c.note (.started c.settings.sweepInterval)) [] 0 0 :=
      .of_note rfl rfl rfl
    exact hstarted.trans (acquireListener_reports _ _)

/-- Renewing a listener tells of nothing that was taken out. -/
theorem renewListener_reports (sw : Sweeper) : Reports c (c.renewListener sw) [] 0 0 := by
  rw [renewListener]
  split
  · exact acquireListener_reports _ _
  · exact .of_notices rfl

/-- An operation that starts a sweeper tells of nothing that was taken out. -/
theorem touching_reports {α : Type} (f : Store V → WallTime → Store.Op V α) :
    Reports c (c.touching f).state [] 0 0 := by
  rw [touching, onStore, Ran.andThen]
  cases (f c.store c.wall).result with
  | ok a =>
    have hstore : Reports c { c with store := (f c.store c.wall).state } [] 0 0 := .of_notices rfl
    exact hstore.trans (ensureSweeper_reports _)
  | error p => exact .of_notices rfl

/-- A retirement whose hooks return tells what it drained. -/
theorem retire_reports (sw : Sweeper) (h : (c.store.drain c.wall).returned) :
    Reports c (c.retire sw) [⟨c.store, .drain c.wall⟩] 0 0 := by
  obtain ⟨drained, hdrained⟩ := Ran.exists_of_returned h
  have hnumber : (c.store.drain c.wall).number = drained := Ran.number_of_ok hdrained
  rw [retire, hdrained]
  exact .of_note rfl rfl hnumber

/-- A pass whose hooks return tells what it swept. -/
theorem pass_reports (sw : Sweeper) (h : (c.store.sweep c.wall).returned) :
    Reports c (c.pass sw) [⟨c.store, .sweep c.wall⟩] 0 0 := by
  obtain ⟨count, hcount⟩ := Ran.exists_of_returned h
  have hnumber : (c.store.sweep c.wall).number = count := Ran.number_of_ok hcount
  rw [pass, hcount]
  cases count with
  | zero =>
    -- a pass that finds nothing is not worth a notice
    exact ⟨congrArg (c.sweptReports + ·) hnumber, rfl⟩
  | succ count => exact .of_note rfl hnumber rfl

/-- A wake-up whose hooks return tells what it took out. -/
theorem wake_reports (h : ∀ o ∈ c.store.history c.wakeActions, o.returned) :
    Reports c c.wake (c.store.history c.wakeActions) 0 0 := by
  rw [wakeActions] at h ⊢
  rw [wake]
  cases hsweeper : c.sweeper with
  | none => exact .of_notices rfl
  | some sw =>
    rw [hsweeper] at h
    dsimp only at h ⊢
    split
    · next hidle =>
      rw [if_pos hidle] at h
      have hnoted : Reports c (c.note (.idle (c.store.useAge c.wall))) [] 0 0 := .of_note rfl rfl rfl
      exact hnoted.trans (retire_reports _ sw (h _ (List.mem_singleton_self _)))
    · next hbusy =>
      rw [if_neg hbusy] at h
      have hreturned := h _ (List.mem_singleton_self _)
      let later := { sw with wakesAt := sw.wakesAt + c.settings.sweepInterval.pause }
      obtain ⟨_, _, _, _, hsame⟩ := c.renewListener_eq later
      have hstore : (c.renewListener later).store = c.store := by rw [hsame]
      have hwall : (c.renewListener later).wall = c.wall := by rw [hsame]
      have hpass := pass_reports (c.renewListener later) ((c.renewListener later).sweeper.getD later)
      rw [hstore, hwall] at hpass
      exact (c.renewListener_reports later).trans (hpass hreturned)

/-- While a cache settles and hooks return, the notices tell what was taken out. -/
theorem settle_reports (h : ∀ o ∈ c.store.history c.settleActions, o.returned) :
    Reports c c.settle (c.store.history c.settleActions) 0 0 := by
  rw [settleActions] at h ⊢
  rw [settle]
  cases hsweeper : c.sweeper with
  | none => exact .of_notices rfl
  | some sw =>
    rw [hsweeper] at h
    dsimp only at h ⊢
    split
    · next hdue =>
      rw [if_pos hdue] at h
      exact c.wake_reports h
    · exact .of_notices rfl

/-- The notices tell what the wake-ups up to a timer position took out, while hooks return. -/
theorem wakeUntil_reports (target fuel : Nat)
    (h : ∀ o ∈ c.store.history (wakeUntilActions target fuel c), o.returned) :
    Reports c (wakeUntil target fuel c) (c.store.history (wakeUntilActions target fuel c)) 0 0 := by
  induction fuel generalizing c with
  | zero => exact .of_notices rfl
  | succ fuel ih =>
    rw [wakeUntilActions] at h ⊢
    rw [wakeUntil]
    cases hsweeper : c.sweeper with
    | none => exact .of_notices rfl
    | some sw =>
      rw [hsweeper] at h
      dsimp only at h ⊢
      split
      · next hreached =>
        rw [if_pos hreached, Store.history_append] at h
        obtain ⟨hnow, hlater⟩ := List.forall_mem_append.mp h
        have hran : Reports c (c.runTo (c.nextWake sw)) [] 0 0 := .of_notices rfl
        have hwake := hran.trans ((c.runTo (c.nextWake sw)).wake_reports hnow)
        have hstore : (c.runTo (c.nextWake sw)).wake.store
            = c.store.follow (c.runTo (c.nextWake sw)).wakeActions := wake_store _
        rw [Store.history_append, ← hstore]
        exact hwake.trans (ih _ (hstore ▸ hlater))
      · exact .of_notices rfl

/-- The notices tell what was taken out while time passed, while hooks return. -/
theorem advance_reports (millis : Nat)
    (h : ∀ o ∈ c.store.history (c.advanceActions millis), o.returned) :
    Reports c (c.advance millis) (c.store.history (c.advanceActions millis)) 0 0 := by
  obtain ⟨hswept, hdrained⟩ := c.wakeUntil_reports (c.timer + millis) millis h
  exact ⟨hswept, hdrained⟩

/-- A drain that is asked for is answered and not reported. -/
theorem drain_reports : Reports c c.drain.state [⟨c.store, .drain c.wall⟩] 0 c.drain.number := ⟨rfl, rfl⟩

/-- A drain after a retirement drains what the retirement has left. -/
theorem retire_drain (sw : Sweeper) : (c.retire sw).drain.number
    = ((c.store.drain c.wall).state.drain c.wall).number := by
  change ((c.retire sw).store.drain (c.retire sw).wall).number = _
  rw [retire_store, retire_wall]

/-- As a cache is closed its sweeper tells what it drained, while hooks return, and then there is the
last drain. -/
theorem shutdown_reports (h : ∀ o ∈ c.store.history c.shutdownActions, o.returned) :
    Reports c c.shutdown.state (c.store.history c.shutdownActions) 0 c.closingDrain := by
  rw [shutdownActions] at h ⊢
  rw [shutdown_state, closingDrain]
  cases hsweeper : c.sweeper with
  | none => exact ⟨rfl, rfl⟩
  | some sw =>
    rw [hsweeper] at h
    dsimp only
    let requested := { c with closed := true, sweeper := some sw }.note .shutdownRequested
    have hrequested : Reports c requested [] 0 0 := .of_note rfl rfl rfl
    have hretired := hrequested.trans (requested.retire_reports sw (h _ (List.mem_cons_self ..)))
    have hclosed := hretired.trans (requested.retire sw).drain_reports
    simp only [retire_store, retire_wall, retire_drain, Nat.zero_add] at hclosed
    rw [retire_drain]
    exact hclosed

/-- A datagram tells of nothing that was swept or drained. -/
theorem receive_notices (payload : List UInt8) : (c.receive payload).1.notices = c.notices := by
  rw [receive]
  split <;> rfl

/-- A datagram to several listeners tells of nothing that was swept or drained. -/
theorem deliverToEach_notices (payload : List UInt8) (listeners : List Nat) :
    (deliverToEach payload listeners c).1.notices = c.notices := by
  induction listeners generalizing c with
  | nil => rfl
  | cons listener rest ih =>
    have hfirst : (c.deliverTo payload listener).1.notices = c.notices := by
      rw [deliverTo, ← receive_notices c payload]
      dsimp only
      split <;> rfl
    rw [deliverToEach, ← hfirst]
    exact ih _

end Cache

namespace Session

/-- A datagram to the application's own listener is not reported. -/
theorem receive_notices (s : Session V) (payload : List UInt8) :
    (s.receive payload).1.cache.notices = s.cache.notices := by
  rw [receive]
  split
  · exact s.cache.receive_notices payload
  · rfl

/-- A datagram that is handed on is not reported if its delivery is not. -/
theorem overLoopback_notices (s : Session V) {payload : List UInt8}
    {deliver : Session V → List UInt8 → Session V × Reply V}
    (h : (deliver s payload).1.cache.notices = s.cache.notices) :
    (s.overLoopback payload deliver).1.cache.notices = s.cache.notices := by
  rw [overLoopback]
  split
  · rfl
  · exact h

/-- A command that is not upkeep tells of nothing that was swept or drained. -/
theorem perform_reports (s : Session V) {c : Command V} (hc : c.isUpkeep = false) :
    Cache.Reports s.cache (s.perform c).1.cache [] 0 0 := by
  cases c with
  | store | storeEntry | storeCustom => exact (Cache.touching_reports _ _).congr rfl rfl
  | storeHeld key holding ttl =>
    rw [perform, putHeld]
    cases holding.make? s.owners with
    | none => exact .of_notices rfl
    | some made => exact (Cache.touching_reports _ _).congr rfl rfl
  | reviseCustom id expired value =>
    rw [perform, reviseCustom]
    cases s.owners.custom? id with
    | none => exact .of_notices rfl
    | some e => cases value <;> exact .of_notices rfl
  | get key keep =>
    have hlooked : Cache.Reports s.cache (s.cache.get key).state [] 0 0 := Cache.touching_reports _ _
    have hnotices : (s.get key keep).1.cache.notices = (s.cache.get key).state.notices := by
      rw [get]
      cases (s.cache.get key).result with
      | error p => rfl
      | ok found =>
        cases found with
        | none => rfl
        | some cell => cases keep <;> rfl
    exact hlooked.congr hnotices.symm rfl
  | uncache key => exact Cache.touching_reports _ _
  | ensureSweeper => exact s.cache.ensureSweeper_reports
  | readSoft handle =>
    rw [perform]
    split <;> exact .of_notices rfl
  | datagram payload => exact .of_notices (s.overLoopback_notices (s.receive_notices payload))
  | groupDatagram payload =>
    exact .of_notices (s.overLoopback_notices (s.cache.deliverToEach_notices payload _))
  | send pattern =>
    rw [perform, send]
    split
    · exact .of_notices rfl
    · exact .of_notices (s.receive_notices _)
  | sweep | drain | advance | shutdown => cases hc
  | _ => exact .of_notices rfl

/-- A command that is not upkeep makes no sweep and no drain. -/
theorem all_not_isUpkeep (s : Session V) {c : Command V} (hc : c.isUpkeep = false) :
    (s.performActions c).all fun a => !a.isUpkeep := by
  cases c with
  | storeHeld key holding ttl =>
    rw [performActions, putHeldActions]
    cases holding.make? s.owners <;> rfl
  | reviseCustom id expired value =>
    rw [performActions, reviseCustomActions]
    cases s.owners.custom? id with
    | none => rfl
    | some e => cases value <;> rfl
  | datagram | groupDatagram | send =>
    refine List.all_eq_true.mpr fun a ha => ?_
    have hpruning := isPruning_of_mem_performActions rfl ha
    cases a <;> first | rfl | cases hpruning
  | sweep | drain | advance | shutdown => cases hc
  | _ => rfl

end Session

end TimedCache
