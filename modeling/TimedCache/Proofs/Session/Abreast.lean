import TimedCache.Proofs.Session.Lasting
import TimedCache.Proofs.Session.Twin

/-!
# Sessions that go on alike

Two sessions whose caches differ in what the stores hold, but whose references and look-ups agree,
do the same to their stores on every plain command. Only a command that keeps the value of a weak
copy is left out, since the entries of the store may be what keeps that value alive.
-/

namespace TimedCache

variable {V : Type}

/-- The command keeps the value that a copy resolves to. -/
def Command.keepsCopy : Command V → Bool
  | .keepValue .. => true
  | _ => false

namespace Session

/-- The sessions differ in nothing but what the stores hold and what was reported of that; the
references outside are the same. -/
structure Abreast (s s' : Session V) : Prop where
  listener : s'.listener = s.listener
  cache : s.cache.Abreast s'.cache
  owners : s'.owners = s.owners

/-- The sessions came out alike but for their stores, and these went through the same actions. -/
structure Alike (s s' : Session V) (actions actions' : List (Action V)) : Prop where
  listener : s'.listener = s.listener
  twin : s.cache.Twin s'.cache
  actions : actions' = actions

/-- The references outside after a look-up that found something or nothing. -/
theorem get_owners {s : Session V} (hs : s.cache.store.Calm) {key : String} {found : Option (Cell V)}
    (h : (s.cache.store.get s.cache.wall key).result = .ok found) (keep : Option Name) :
    (s.get key keep).1.owners
      = (found.bind fun cell => keep.map fun name => s.owners.ownOnly name cell).getD s.owners := by
  have hresult : (s.cache.get key).result = .ok found := (Cache.touching_result _ _).trans h
  have hstore : (s.cache.get key).state.store = s.cache.store.act (.get s.cache.wall key) :=
    Cache.touching_store _ _
  have howners : (s.cache.get key).state.store.owners = s.owners := by
    rw [hstore]
    exact hs.act_owners rfl fun _ h => nomatch h
  rw [get, hresult, ← howners]
  cases found with
  | none => rfl
  | some cell => cases keep <;> rfl

/-- A look-up goes on from the cache it leaves, with the references of whoever keeps the value. -/
theorem get_cache (s : Session V) (key : String) (keep : Option Name) :
    (s.get key keep).1.listener = s.listener
      ∧ ∃ store, (s.get key keep).1.cache = { (s.cache.get key).state with store } := by
  rw [get]
  cases (s.cache.get key).result with
  | error p => exact ⟨rfl, _, rfl⟩
  | ok found =>
    cases found with
    | none => exact ⟨rfl, _, rfl⟩
    | some cell => cases keep <;> exact ⟨rfl, _, rfl⟩

namespace Abreast

variable {s s' : Session V}

/-- Both sessions change the references outside in the same way. -/
theorem mapOwners (h : s.Abreast s') (f : Owners V → Owners V) :
    Alike (s.mapOwners f) (s'.mapOwners f) [.refer (s.mapOwners f).owners]
      [.refer (s'.mapOwners f).owners] :=
  ⟨h.listener, h.cache.twin.withStore _ _, congrArg (fun o => [Action.refer (f o)]) h.owners⟩

/-- Both sessions store an entry, which always returns. -/
theorem put (h : s.Abreast s') {owners owners' : Owners V} (howners : owners' = owners) (key : String)
    {e e' : Entry V} (he : e' = e) :
    Alike ((s.mapOwners fun _ => owners).put key e).1 ((s'.mapOwners fun _ => owners').put key e').1
      [.refer owners, .put s.cache.wall key e] [.refer owners', .put s'.cache.wall key e'] := by
  subst howners he
  have hreturns (st : Store V) (hst : st.Calm) (t : WallTime) :
      ∃ a, ({ st with owners := owners' }.put t key e').result = .ok a := by
    obtain ⟨log, h⟩ := (hst.act (a := .refer owners') rfl).put_eq t key e'
    exact ⟨(), congrArg Ran.result h⟩
  refine ⟨h.listener, ?_, by rw [h.cache.twin.wall]⟩
  exact (h.cache.twin.withStore _ _).touching (hreturns _ h.cache.calm _) (hreturns _ h.cache.calm' _)

/-- Both sessions store an entry with a new value of its own. -/
theorem putValue (h : s.Abreast s') (key entryKey : String) (value : V) (ttl : Duration)
    (revise : TimedEntry V → TimedEntry V) :
    Alike (s.putValue key entryKey value ttl revise).1 (s'.putValue key entryKey value ttl revise).1
      (s.putValueActions key entryKey value ttl revise)
      (s'.putValueActions key entryKey value ttl revise) := by
  have hnow : s'.now = s.now := congrArg WallTime.stamp h.cache.twin.wall
  have hentry : Entry.timed (revise (.create s'.now entryKey (.strong (s'.owners.allocate value).2) ttl))
      = .timed (revise (.create s.now entryKey (.strong (s.owners.allocate value).2) ttl)) := by
    rw [h.owners, hnow]
  have howners : (s'.owners.allocate value).1 = (s.owners.allocate value).1 := by rw [h.owners]
  have hput := h.put howners key hentry
  exact hput

/-- Both sessions store an entry through a holder, if that can be made. -/
theorem putHeld (h : s.Abreast s') (key : String) (holding : Holding V) (ttl : Duration) :
    Alike (s.putHeld key holding ttl).1 (s'.putHeld key holding ttl).1
      (s.putHeldActions key holding ttl) (s'.putHeldActions key holding ttl) := by
  have hnow : s'.now = s.now := congrArg WallTime.stamp h.cache.twin.wall
  rw [Session.putHeld, Session.putHeld, putHeldActions, putHeldActions, h.owners]
  cases holding.make? s.owners with
  | none => exact ⟨h.listener, h.cache.twin, rfl⟩
  | some made =>
    exact h.put rfl key (congrArg (fun now => Entry.timed (.create now key made.2 ttl)) hnow)

/-- Both sessions look a key up and find the same. -/
theorem lookUp (h : s.Abreast s') {key : String} (hget : (s'.cache.store.get s.cache.wall key).result
      = (s.cache.store.get s.cache.wall key).result) (keep : Option Name) :
    Alike (s.get key keep).1 (s'.get key keep).1 (s.performActions (.get key keep))
      (s'.performActions (.get key keep)) := by
  have hwall : s'.cache.wall = s.cache.wall := h.cache.twin.wall
  obtain ⟨found, hfound⟩ : ∃ found, (s.cache.store.get s.cache.wall key).result = .ok found :=
    ⟨_, h.cache.calm.get_result ..⟩
  have hfound' : (s'.cache.store.get s'.cache.wall key).result = .ok found := by
    rw [hwall, hget, hfound]
  obtain ⟨hlistener, store, hcache⟩ := s.get_cache key keep
  obtain ⟨hlistener', store', hcache'⟩ := s'.get_cache key keep
  refine ⟨by rw [hlistener, hlistener', h.listener], ?_, ?_⟩
  · rw [hcache, hcache']
    exact (h.cache.twin.touching ⟨_, hfound⟩ ⟨_, hfound'⟩).withStore _ _
  · have howners : (s'.get key keep).1.owners = (s.get key keep).1.owners := by
      rw [get_owners h.cache.calm hfound, get_owners h.cache.calm' hfound', h.owners]
    rw [performActions, performActions, hwall]
    exact congrArg (fun o => [_, Action.refer o]) howners

/-- The own listeners of both sessions receive a datagram. -/
theorem receive (h : s.Abreast s') (payload : List UInt8) :
    Alike (s.receive payload).1 (s'.receive payload).1 (s.receiveActions payload)
      (s'.receiveActions payload) := by
  rw [Session.receive, Session.receive, receiveActions, receiveActions, h.listener, h.cache.twin.wall]
  split
  · refine ⟨?_, h.cache.twin.receive payload, rfl⟩
    dsimp only
    rw [Cache.receive_delivery h.cache.calm, Cache.receive_delivery h.cache.calm']
  · exact ⟨h.listener, h.cache.twin, rfl⟩

/-- The listeners in the group of both sessions receive a datagram. -/
theorem receiveFromGroup (h : s.Abreast s') (payload : List UInt8) :
    Alike (s.receiveFromGroup payload).1 (s'.receiveFromGroup payload).1
      (s.cache.listeners.flatMap fun _ => Action.ofDatagram s.cache.wall payload)
      (s'.cache.listeners.flatMap fun _ => Action.ofDatagram s'.cache.wall payload) := by
  rw [Session.receiveFromGroup, Session.receiveFromGroup, Cache.receiveFromGroup,
    Cache.receiveFromGroup, h.cache.twin.wall, h.cache.twin.listeners]
  exact ⟨h.listener, h.cache.twin.deliverToEach h.cache.calm h.cache.calm' payload _, rfl⟩

/-- Both hosts send a datagram to themselves, if they can. -/
theorem overLoopback (h : s.Abreast s') (payload : List UInt8) {actions actions' : List (Action V)}
    {deliver : Session V → List UInt8 → Session V × Reply V}
    (hdeliver : Alike (deliver s payload).1 (deliver s' payload).1 actions actions') :
    Alike (s.overLoopback payload deliver).1 (s'.overLoopback payload deliver).1
      (s.overLoopbackActions payload actions) (s'.overLoopbackActions payload actions') := by
  rw [Session.overLoopback, Session.overLoopback, overLoopbackActions, overLoopbackActions,
    h.cache.twin.host]
  cases s.cache.host.transmit loopback payload.length with
  | error e => exact ⟨h.listener, h.cache.twin, rfl⟩
  | ok sent => exact hdeliver

/-- Both sessions send a prefix to their own listener, if they can. -/
theorem send (h : s.Abreast s') (pattern : String) :
    Alike (s.send pattern).1 (s'.send pattern).1 (s.sendActions pattern) (s'.sendActions pattern) := by
  rw [Session.send, Session.send, sendActions, sendActions, h.cache.twin.host]
  cases (Sender.mk loopback).send s.cache.host pattern with
  | error fault => exact ⟨h.listener, h.cache.twin, rfl⟩
  | ok payload => exact h.receive payload

/-- Both sessions carry out a plain command that keeps no value of a copy; if it is a look-up, they
find the same. -/
theorem perform (h : s.Abreast s') {c : Command V} (hc : c.isPlain) (hkeep : c.keepsCopy = false)
    (hget : ∀ key keep, c = .get key keep → (s'.cache.store.get s.cache.wall key).result
      = (s.cache.store.get s.cache.wall key).result) :
    Alike (s.perform c).1 (s'.perform c).1 (s.performActions c) (s'.performActions c) := by
  have htwin := h.cache.twin
  have hwall : s'.cache.wall = s.cache.wall := htwin.wall
  cases c with
  | store key value ttl listener => exact h.putValue key key value ttl _
  | storeHeld key holding ttl => exact h.putHeld key holding ttl
  | storeEntry key entryKey value ttl expires listener => exact h.putValue key entryKey value ttl _
  | storeCustom | reviseCustom | arm => cases hc
  | keepValue => cases hkeep
  | own | soften | softenOwned | share | refer | copy | drop | reclaim =>
    simp only [Session.perform, performActions]
    exact h.mapOwners _
  | get key keep => exact h.lookUp (hget key keep rfl) keep
  | uncache key =>
    have hreturns (st : Store V) (hst : st.Calm) (t : WallTime) :
        ∃ a, (st.uncache t key).result = .ok a := by
      obtain ⟨log, h⟩ := hst.uncache_eq t key
      exact ⟨(), congrArg Ran.result h⟩
    refine ⟨h.listener, ?_, by rw [performActions, performActions, hwall]⟩
    exact htwin.touching (hreturns _ h.cache.calm _) (hreturns _ h.cache.calm' _)
  | uncacheLike | sweep | drain =>
    exact ⟨h.listener, htwin.withStore _ _, by rw [performActions, performActions, hwall]⟩
  | setDelegate name => exact ⟨h.listener, htwin.withStore _ _, rfl⟩
  | advance millis =>
    obtain ⟨htime, hactions⟩ := h.cache.advance millis
    exact ⟨h.listener, htime, hactions⟩
  | shutdown =>
    obtain ⟨hclosed, hactions⟩ := htwin.shutdown
    exact ⟨h.listener, hclosed, hactions⟩
  | datagram payload =>
    exact h.overLoopback payload (h.receive payload)
  | groupDatagram payload => exact h.overLoopback payload (h.receiveFromGroup payload)
  | send pattern => exact h.send pattern
  | readSoft handle =>
    rw [Session.perform, Session.perform]
    split <;> split <;> exact ⟨h.listener, htwin, rfl⟩
  | skew millis => exact ⟨h.listener, htwin.skew millis, rfl⟩
  | setHost host => exact ⟨h.listener, htwin.setHost host, rfl⟩
  | ensureSweeper => exact ⟨h.listener, htwin.ensureSweeper, rfl⟩
  | listen | unlisten => exact ⟨rfl, htwin, rfl⟩
  | size | stats | useAge | running | settings | listenerAlive => exact ⟨h.listener, htwin, rfl⟩

end Abreast

end Session

end TimedCache
