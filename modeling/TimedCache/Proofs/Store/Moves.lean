import TimedCache.Proofs.KeyedList
import TimedCache.Proofs.Returned
import TimedCache.Proofs.Store.History

/-!
# Moves of a store

Whatever an operation does to a store, and wherever a panic stops it, it does it move by move: it
counts, it notes an access, it brings an entry in and tells of that, or it takes one out and tells
of that. Only a drain that panics before its last entry is no such sequence, because it has emptied
the store before it tells the first entry.
-/

namespace TimedCache

variable {V : Type}

/-- Of two accesses the later one stays noted. -/
theorem Entry.accessed_accessed (e : Entry V) (now later : Timestamp) :
    (e.accessed now).accessed later = e.accessed later := by
  cases e <;> rfl

/-- The calls that tell of a transition: the hook of the entry and then that of the delegate, or the
first of them alone if it panicked. Whole calls are both. -/
inductive Told (whole : Bool) (delegate : Option Name) (t : WallTime) (phase : Phase) (key : String)
    (e : Entry V) : List (Event V) → Prop
  | both (expired : Bool) (object : Option V) : Told whole delegate t phase key e
    [Store.entryEvent t phase key e, ⟨t, ⟨delegate, phase, key⟩, .sight e.key expired object⟩]
  | first (hwhole : whole = false) : Told whole delegate t phase key e [Store.entryEvent t phase key e]

namespace Store

variable {s s' : Store V} {t : WallTime} {phase : Phase} {key : String} {e : Entry V}

/-- A call is recorded, and an alarm may go off; nothing else changes. -/
theorem notify_state (s : Store V) (x : Event V) :
    ∃ alarms, (s.notify x).state = { s with log := s.log ++ [x], alarms } := by
  rw [notify]
  dsimp only
  split <;> exact ⟨_, rfl⟩

/-- What tells of a transition records its calls, and changes nothing but the alarms besides. -/
theorem announce_told (s : Store V) (t : WallTime) (phase : Phase) (key : String) (e : Entry V)
    (inFlight : List (Holder V)) : ∃ told alarms,
    (s.announce t phase key e inFlight).state = { s with log := s.log ++ told, alarms }
      ∧ Told (s.announce t phase key e inFlight).returned s.delegate t phase key e told := by
  obtain ⟨alarms, hfirst⟩ := s.notify_state (entryEvent t phase key e)
  rw [announce]
  cases hresult : (s.notify (entryEvent t phase key e)).result with
  | error p =>
    rw [Ran.andThen_of_error hresult]
    exact ⟨_, alarms, hfirst, .first rfl⟩
  | ok _ =>
    rw [Ran.andThen_of_ok hresult, hfirst]
    obtain ⟨alarms', hsecond⟩ := notify_state
      { s with log := s.log ++ [entryEvent t phase key e], alarms }
      (delegateEvent _ t phase key e inFlight)
    refine ⟨_, alarms', ?_, .both (e.isExpired (s.moment inFlight) t.stamp)
      (e.object (s.moment inFlight))⟩
    rw [hsecond, List.append_assoc]
    rfl

/-- Telling of an entry that has left records its calls and counts, and changes nothing else. -/
theorem discard_told (s : Store V) (t : WallTime) (key : String) (e : Entry V)
    (inFlight : List (Holder V)) : ∃ told stats alarms,
    (s.discard t key e inFlight).state = { s with stats, log := s.log ++ told, alarms }
      ∧ Told (s.discard t key e inFlight).returned s.delegate t .uncached key e told := by
  obtain ⟨told, alarms, hstate, htold⟩ := s.announce_told t .uncached key e (e.holders ++ inFlight)
  rw [discard]
  cases hresult : (s.announce t .uncached key e (e.holders ++ inFlight)).result with
  | error p =>
    rw [Ran.returned_of_error hresult] at htold
    rw [Ran.andThen_of_error hresult]
    exact ⟨told, s.stats, alarms, hstate, htold⟩
  | ok _ =>
    rw [Ran.returned_of_ok hresult] at htold
    rw [Ran.andThen_of_ok hresult, hstate]
    exact ⟨told, _, alarms, rfl, htold⟩

/-- What an operation does to a store, move by move, and the entries that it brings in. Whole moves
tell of every transition in full. -/
inductive Moves (whole : Bool) : List (String × Entry V) → Store V → Store V → Prop
  | count (s : Store V) (stats : Stats) : Moves whole [] s { s with stats }
  | access (s : Store V) (key : String) (now : Timestamp) :
    Moves whole [] s (s.alter key (Entry.accessed now))
  | report (s : Store V) (t : WallTime) (c : CustomEntry V) (alarms : List (Alarm String)) :
    Moves whole [] s
      { s with log := s.log ++ [⟨t, ⟨some c.id, .access, c.key⟩, .stamp t.stamp⟩], alarms }
  | enter {s : Store V} {t : WallTime} {key : String} {e : Entry V} {told : List (Event V)}
    (alarms : List (Alarm String)) (hfree : s.find? key = none)
    (htold : Told whole s.delegate t .cached key e told) :
    Moves whole [(key, e)] s { s.append key e with log := s.log ++ told, alarms }
  | leave {s : Store V} {t : WallTime} {key : String} {e : Entry V} {told : List (Event V)}
    (alarms : List (Alarm String)) (hfind : s.find? key = some e)
    (htold : Told whole s.delegate t .uncached key e told) :
    Moves whole [] s { s.erase key with log := s.log ++ told, alarms }
  | trans {s s' s'' : Store V} {entered entered' : List (String × Entry V)} :
    Moves whole entered s s' → Moves whole entered' s' s'' → Moves whole (entered ++ entered') s s''

namespace Moves

variable {whole : Bool} {entered : List (String × Entry V)}

/-- Nothing happens. -/
theorem stay (s : Store V) : Moves whole [] s s := .count s s.stats

/-- Whole moves are moves. -/
theorem of_whole (h : Moves true entered s s') : Moves whole entered s s' := by
  have htold {delegate : Option Name} {t : WallTime} {phase : Phase} {key : String} {e : Entry V}
      {told : List (Event V)} (h : Told true delegate t phase key e told) :
      Told whole delegate t phase key e told := by
    cases h with
    | both expired object => exact .both expired object
    | first hwhole => cases hwhole
  induction h with
  | count s stats => exact .count s stats
  | access s key now => exact .access s key now
  | report s t c alarms => exact .report s t c alarms
  | enter alarms hfree h => exact .enter alarms hfree (htold h)
  | leave alarms hfind h => exact .leave alarms hfind (htold h)
  | trans _ _ ih ih' => exact ih.trans ih'

/-- Moves, and then others that bring nothing in. -/
theorem then_nil {s'' : Store V} (h : Moves whole entered s s') (h' : Moves whole [] s' s'') :
    Moves whole entered s s'' := by
  have htrans := h.trans h'
  rwa [List.append_nil] at htrans

/-- Two operations move in turn, the second one only if the first returned. -/
theorem andThen {α β : Type} {r : Op V α} {next : Store V → α → Op V β}
    {entered' : List (String × Entry V)} (hr : Moves r.returned entered s r.state)
    (hnext : ∀ a, r.result = .ok a →
      Moves (next r.state a).returned entered' r.state (next r.state a).state) :
    Moves (r.andThen next).returned (entered ++ if r.returned then entered' else []) s
      (r.andThen next).state := by
  cases hresult : r.result with
  | error p =>
    rw [Ran.returned_of_error hresult] at hr ⊢
    rw [Ran.andThen_of_error hresult, if_neg Bool.false_ne_true, List.append_nil]
    exact hr
  | ok a =>
    rw [Ran.returned_of_ok hresult] at hr ⊢
    rw [Ran.andThen_of_ok hresult, if_pos rfl]
    exact (of_whole hr).trans (hnext a hresult)

/-- An operation moves, and then another one that brings nothing in. -/
theorem andThen_nil {α β : Type} {r : Op V α} {next : Store V → α → Op V β}
    (hr : Moves r.returned entered s r.state) (hnext : ∀ a, r.result = .ok a →
      Moves (next r.state a).returned [] r.state (next r.state a).state) :
    Moves (r.andThen next).returned entered s (r.andThen next).state := by
  have hthen := hr.andThen hnext
  rwa [ite_self, List.append_nil] at hthen

/-- What is in the store after some moves was brought in or was there before; an access to it may have
been noted since. -/
theorem origin (h : Moves whole entered s s') : ∀ p ∈ s'.entries,
    ∃ e, ((p.1, e) ∈ entered ∨ (p.1, e) ∈ s.entries) ∧ (p.2 = e ∨ ∃ now, p.2 = e.accessed now) := by
  have hsame {entries : List (String × Entry V)} {p : String × Entry V} (hp : p ∈ entries) :
      ∃ e, ((p.1, e) ∈ ([] : List (String × Entry V)) ∨ (p.1, e) ∈ entries)
        ∧ (p.2 = e ∨ ∃ now, p.2 = e.accessed now) := ⟨p.2, .inr hp, .inl rfl⟩
  induction h with
  | count | report => exact fun _ => hsame
  | access s key now =>
    intro p hp
    obtain ⟨q, hq, rfl⟩ := List.mem_map.mp hp
    split
    · exact ⟨q.2, .inr hq, .inr ⟨now, rfl⟩⟩
    · exact hsame hq
  | enter _ _ _ =>
    intro p hp
    rcases List.mem_append.mp hp with hp | hp
    · exact ⟨p.2, .inr hp, .inl rfl⟩
    · exact ⟨p.2, .inl hp, .inl rfl⟩
  | leave _ _ _ => exact fun p hp => hsame (List.mem_of_mem_filter hp)
  | trans _ _ ih ih' =>
    intro p hp
    obtain ⟨e, he | he, hlater⟩ := ih' p hp
    · exact ⟨e, .inl (List.mem_append_right _ he), hlater⟩
    · obtain ⟨first, hfirst, hearlier⟩ := ih (p.1, e) he
      refine ⟨first, hfirst.imp_left (List.mem_append_left _), ?_⟩
      obtain rfl | ⟨now, rfl⟩ := hearlier
      · exact hlater
      · obtain hlater | ⟨later, hlater⟩ := hlater
        · exact .inr ⟨now, hlater⟩
        · exact .inr ⟨later, hlater.trans (first.accessed_accessed now later)⟩

/-- Moves keep the keys distinct. -/
theorem nodup (h : Moves whole entered s s') (hnodup : s.keys.Nodup) : s'.keys.Nodup := by
  induction h with
  | count | report => exact hnodup
  | access s key now =>
    have hkeys : (s.alter key (Entry.accessed now)).keys = s.keys := alter_keys s key _
    exact hkeys ▸ hnodup
  | enter _ hfree _ => exact nodup_keys_concat hnodup (lookup_eq_none_iff_not_mem.mp hfree) _
  | leave _ _ _ => exact nodup_keys_filter hnodup _
  | trans _ _ ih ih' => exact ih' (ih hnodup)

/-- The references outside and the delegate stay what they are. -/
theorem surroundings (h : Moves whole entered s s') :
    s'.owners = s.owners ∧ s'.delegate = s.delegate := by
  induction h with
  | trans _ _ ih ih' => exact ⟨ih'.1.trans ih.1, ih'.2.trans ih.2⟩
  | _ => exact ⟨rfl, rfl⟩

end Moves

/-- Taking an entry out and telling of that is one move, with some counting. -/
theorem discard_moves (hfind : s.find? key = some e) (adjust : Stats → Stats) (t : WallTime)
    (inFlight : List (Holder V)) :
    let r := ((s.erase key).count adjust).discard t key e inFlight
    Moves r.returned [] s r.state := by
  intro r
  obtain ⟨told, stats, alarms, hstate, htold⟩ :=
    ((s.erase key).count adjust).discard_told t key e inFlight
  rw [hstate]
  exact (Moves.leave alarms hfind htold).then_nil (.count _ stats)

/-- Making room under a key takes out what is there. -/
theorem displace_moves (s : Store V) (t : WallTime) (key : String) (incoming : List (Holder V)) :
    Moves (s.displace t key incoming).returned [] s (s.displace t key incoming).state := by
  rw [displace]
  cases hfind : s.find? key with
  | none => exact .stay s
  | some e => exact discard_moves hfind id t incoming

/-- Under a key that was made room for, nothing is found. -/
theorem displace_find? (s : Store V) (t : WallTime) (key : String) (incoming : List (Holder V)) :
    (s.displace t key incoming).state.find? key = none := by
  rw [displace]
  cases hfind : s.find? key with
  | none => exact hfind
  | some e =>
    obtain ⟨told, stats, alarms, hstate, -⟩ := (s.erase key).discard_told t key e incoming
    simp only [hstate]
    exact (s.find?_erase key key).trans (if_pos rfl)

/-- Adding an entry under a free key brings it in. -/
theorem admitEntry_moves (hfree : s.find? key = none) (t : WallTime) (e : Entry V) :
    Moves (s.admitEntry t key e).returned [(key, e)] s (s.admitEntry t key e).state := by
  obtain ⟨told, alarms, hstate, htold⟩ := (s.append key e).announce_told t .cached key e []
  apply Moves.andThen_nil
  · rw [hstate]
    exact .enter alarms hfree htold
  · intro _ _
    exact .count _ _

/-- What a put brings in: the entry, if room could be made for it. -/
def putEntered (s : Store V) (t : WallTime) (key : String) (e : Entry V) : List (String × Entry V) :=
  if ((s.count (Stats.touch t.stamp)).displace t key e.holders).returned then [(key, e)] else []

/-- A put makes room under its key and then brings its entry in. -/
theorem put_moves (s : Store V) (t : WallTime) (key : String) (e : Entry V) :
    Moves (s.put t key e).returned (s.putEntered t key e) s (s.put t key e).state := by
  have htouch : Moves true [] s (s.count (Stats.touch t.stamp)) := .count s _
  have hdisplace := (Moves.of_whole htouch).trans (displace_moves _ t key e.holders)
  exact hdisplace.andThen fun _ _ => admitEntry_moves (displace_find? _ _ _ _) t e

/-- What a put that returns brings in is its entry. -/
theorem putEntered_of_returned (h : (s.put t key e).returned) : s.putEntered t key e = [(key, e)] :=
  if_pos (Ran.returned_of_andThen h)

/-- Telling of a hit notes the time, or has it noted by the entry. -/
theorem noteAccess_moves (s : Store V) (t : WallTime) (key : String) (e : Entry V) :
    Moves (s.noteAccess t key e).returned [] s (s.noteAccess t key e).state := by
  cases e with
  | timed entry => exact .access s key t.stamp
  | custom c =>
    obtain ⟨alarms, hstate⟩ := s.notify_state ⟨t, ⟨some c.id, .access, c.key⟩, .stamp t.stamp⟩
    rw [noteAccess, hstate]
    exact .report s t c alarms

/-- A look-up takes an entry out if it is dead, and notes the access otherwise. -/
theorem get_moves (s : Store V) (t : WallTime) (key : String) :
    Moves (s.get t key).returned [] s (s.get t key).state := by
  have htouch : Moves true [] s (s.count (Stats.touch t.stamp)) := .count s _
  rw [get]
  cases hfind : (s.count (Stats.touch t.stamp)).find? key with
  | none =>
    simp only
    exact (Moves.of_whole htouch).then_nil (.count _ _)
  | some e =>
    dsimp only
    split
    · apply Moves.andThen_nil
      · exact (Moves.of_whole htouch).then_nil (noteAccess_moves _ t key e)
      · intro _ _
        exact .count _ _
    · apply Moves.andThen_nil
      · exact (Moves.of_whole htouch).then_nil (discard_moves hfind _ t [])
      · intro _ _
        exact .count _ _

/-- Removing a key takes out what is under it. -/
theorem uncache_moves (s : Store V) (t : WallTime) (key : String) :
    Moves (s.uncache t key).returned [] s (s.uncache t key).state := by
  have htouch : Moves true [] s (s.count (Stats.touch t.stamp)) := .count s _
  exact (Moves.of_whole htouch).then_nil (displace_moves _ t key [])

/-- Removing keys takes entries out one after the other. -/
theorem removeEach_moves (t : WallTime) (adjust : Stats → Stats) (keys : List String) (s : Store V) :
    Moves (removeEach t adjust keys s).returned [] s (removeEach t adjust keys s).state := by
  induction keys generalizing s with
  | nil => exact .stay s
  | cons key rest ih =>
    rw [removeEach]
    cases hfind : s.find? key with
    | none => exact ih s
    | some e =>
      apply Moves.andThen_nil
      · exact discard_moves hfind adjust t []
      · intro _ _
        exact ih _

/-- Removing some keys takes entries out one after the other. -/
theorem removeAll_moves (s : Store V) (t : WallTime) (adjust : Stats → Stats) (keys : List String) :
    Moves (s.removeAll t adjust keys).returned [] s (s.removeAll t adjust keys).state := by
  apply Moves.andThen_nil
  · exact removeEach_moves t adjust keys s
  · intro _ _
    exact .count _ _

/-- The store with all entries gone. -/
def emptied (s : Store V) : Store V := { s with entries := [] }

/-- How many entries that have left are not told of that, because the hook of one before panics. -/
def untold (t : WallTime) : List (String × Entry V) → Store V → Nat
  | [], _ => 0
  | (key, e) :: rest, s =>
    let ran := s.discard t key e (rest.flatMap fun p => p.2.holders)
    match ran.result with
    | .ok _ => untold t rest ran.state
    | .error _ => rest.length

/-- Telling of an entry when all have left is as good as taking it out while the others stay. -/
theorem discard_emptied (hfind : s.find? key = some e) (t : WallTime) (inFlight : List (Holder V)) :
    ∃ s₁ : Store V, (s.emptied.discard t key e inFlight).state = s₁.emptied
      ∧ s₁.entries = (s.erase key).entries
      ∧ Moves (s.emptied.discard t key e inFlight).returned [] s s₁ := by
  obtain ⟨told, stats, alarms, hstate, htold⟩ := s.emptied.discard_told t key e inFlight
  refine ⟨{ s.erase key with stats, log := s.log ++ told, alarms }, hstate, rfl, ?_⟩
  exact (Moves.leave alarms hfind htold).then_nil (.count _ stats)

/-- Telling of all entries when they have left is as good as taking them out one after the other,
and then dropping those that a panic keeps from being told. -/
theorem discardEach_moves (t : WallTime) {gone : List (String × Entry V)}
    (hnodup : (gone.map Prod.fst).Nodup) {s : Store V} (hs : s.entries = gone) :
    ∃ s₁ : Store V, (discardEach t gone s.emptied).state = s₁.emptied
      ∧ s₁.size = untold t gone s.emptied
      ∧ Moves (discardEach t gone s.emptied).returned [] s s₁ := by
  induction gone generalizing s with
  | nil => exact ⟨s, rfl, congrArg List.length hs, .stay s⟩
  | cons p rest ih =>
    obtain ⟨key, e⟩ := p
    obtain ⟨hkey, hrest⟩ := List.nodup_cons.mp hnodup
    have hfind : s.find? key = some e := by simp [find?, hs]
    have herase : (s.erase key).entries = rest := by
      rw [erase, hs, List.filter_cons_of_neg (by simp)]
      exact filter_ne_of_not_mem hkey
    obtain ⟨s₁, hstate, hentries, hmoves⟩ := discard_emptied hfind t (rest.flatMap fun q => q.2.holders)
    rw [discardEach, untold]
    cases hresult : (s.emptied.discard t key e (rest.flatMap fun q => q.2.holders)).result with
    | error p =>
      rw [Ran.andThen_of_error hresult]
      rw [Ran.returned_of_error hresult] at hmoves
      exact ⟨s₁, hstate, congrArg List.length (hentries.trans herase), hmoves⟩
    | ok _ =>
      rw [Ran.returned_of_ok hresult] at hmoves
      rw [Ran.andThen_of_ok hresult, hstate]
      obtain ⟨s₂, hstate', hsize, hmoves'⟩ := ih hrest (hentries.trans herase)
      exact ⟨s₂, hstate', hsize, (Moves.of_whole hmoves).trans hmoves'⟩

/-- If all hooks return, every entry is told. -/
theorem untold_of_returned {gone : List (String × Entry V)} (h : (discardEach t gone s).returned) :
    untold t gone s = 0 := by
  induction gone generalizing s with
  | nil => rfl
  | cons p rest ih =>
    obtain ⟨_, hresult⟩ := Ran.exists_of_returned (Ran.returned_of_andThen h)
    rw [discardEach, Ran.andThen_of_ok hresult] at h
    rw [untold, hresult]
    exact ih h

/-- A drain takes all entries out one after the other, and drops those that a panic keeps from being
told. -/
theorem drain_moves (hnodup : s.keys.Nodup) (t : WallTime) :
    ∃ s₁ : Store V, (s.drain t).state = s₁.emptied ∧ s₁.size = untold t s.entries s.emptied
      ∧ Moves (s.drain t).returned [] s s₁ := by
  obtain ⟨s₁, hstate, hsize, hmoves⟩ := discardEach_moves t hnodup rfl
  have hdrain : s.drain t = (discardEach t s.entries s.emptied).andThen fun emptied _ =>
    .done (emptied.count (Stats.observeSize 0)) s.size := rfl
  cases hresult : (discardEach t s.entries s.emptied).result with
  | error p =>
    rw [Ran.returned_of_error hresult] at hmoves
    rw [hdrain, Ran.andThen_of_error hresult]
    exact ⟨s₁, hstate, hsize, hmoves⟩
  | ok _ =>
    rw [Ran.returned_of_ok hresult] at hmoves
    rw [hdrain, Ran.andThen_of_ok hresult, hstate]
    exact ⟨s₁.count (Stats.observeSize 0), rfl, hsize, hmoves.then_nil (.count _ _)⟩

end Store

/-- The entry that an action puts under a key. -/
def Action.stored : Action V → List (String × Entry V)
  | .put _ key e => [(key, e)]
  | _ => []

namespace Occasion

/-- The entries that an action brings into the store. -/
def entered (o : Occasion V) : List (String × Entry V) :=
  match o.action with
  | .put t key e => o.before.putEntered t key e
  | _ => []

/-- An entry comes in when it is put. -/
theorem action_of_mem_entered {o : Occasion V} {p : String × Entry V} (h : p ∈ o.entered) :
    ∃ t, o.action = .put t p.1 p.2 := by
  obtain ⟨s, a⟩ := o
  cases a with
  | put t key e =>
    change p ∈ s.putEntered t key e at h
    rw [Store.putEntered] at h
    split at h
    · rw [List.mem_singleton.mp h]
      exact ⟨t, rfl⟩
    · cases h
  | _ => cases h

/-- A put that returned brought its entry in. -/
theorem entered_of_returned {o : Occasion V} (h : o.returned) : o.entered = o.action.stored := by
  obtain ⟨s, a⟩ := o
  cases a with
  | put t key e => exact Store.putEntered_of_returned h
  | _ => rfl

/-- How many entries an action drops without telling them, which only an interrupted drain does. -/
def untold (o : Occasion V) : Nat :=
  match o.action with
  | .drain t => Store.untold t o.before.entries o.before.emptied
  | _ => 0

/-- The action is an operation on the store and no change of what surrounds it. -/
def isOperation (o : Occasion V) : Bool := o.action.time?.isSome

/-- An operation moves the store, and a drain drops the entries that it leaves untold. -/
theorem moves {o : Occasion V} (hnodup : o.before.keys.Nodup) (hoperation : o.isOperation) :
    ∃ s₁ : Store V, Store.Moves o.returned o.entered o.before s₁
      ∧ ((o.after = s₁ ∧ o.untold = 0) ∨ (o.after = s₁.emptied ∧ o.untold = s₁.size)) := by
  obtain ⟨s, a⟩ := o
  cases a with
  | put t key e => exact ⟨_, s.put_moves t key e, .inl ⟨rfl, rfl⟩⟩
  | get t key => exact ⟨_, s.get_moves t key, .inl ⟨rfl, rfl⟩⟩
  | uncache t key => exact ⟨_, s.uncache_moves t key, .inl ⟨rfl, rfl⟩⟩
  | uncacheLike t pattern => exact ⟨_, s.removeAll_moves t id _, .inl ⟨rfl, rfl⟩⟩
  | sweep t => exact ⟨_, s.removeAll_moves t Stats.recordExpiration _, .inl ⟨rfl, rfl⟩⟩
  | drain t =>
    obtain ⟨s₁, hstate, hsize, hmoves⟩ := Store.drain_moves hnodup t
    exact ⟨s₁, hmoves, .inr ⟨hstate, hsize.symm⟩⟩
  | refer | revise | delegateTo | arm => cases hoperation

/-- What is in the store after an operation was brought in or was there before; an access to it may
have been noted. -/
theorem origin {o : Occasion V} (hnodup : o.before.keys.Nodup) (hoperation : o.isOperation) :
    ∀ p ∈ o.after.entries, ∃ e, ((p.1, e) ∈ o.entered ∨ (p.1, e) ∈ o.before.entries)
      ∧ (p.2 = e ∨ ∃ now, p.2 = e.accessed now) := by
  obtain ⟨s₁, hmoves, ⟨hafter, -⟩ | ⟨hafter, -⟩⟩ := o.moves hnodup hoperation
  · exact hafter ▸ hmoves.origin
  · rw [hafter]
    exact fun _ hp => nomatch hp

/-- An operation leaves the references outside as they are. -/
theorem owners_eq {o : Occasion V} (hnodup : o.before.keys.Nodup) (hoperation : o.isOperation) :
    o.after.owners = o.before.owners := by
  obtain ⟨s₁, hmoves, ⟨hafter, -⟩ | ⟨hafter, -⟩⟩ := o.moves hnodup hoperation
  · exact hafter ▸ hmoves.surroundings.1
  · rw [hafter]
    exact hmoves.surroundings.1

/-- Whatever happens, the keys stay distinct. -/
theorem after_nodup {o : Occasion V} (hnodup : o.before.keys.Nodup) : o.after.keys.Nodup := by
  by_cases hoperation : o.isOperation
  · obtain ⟨s₁, hmoves, ⟨hafter, -⟩ | ⟨hafter, -⟩⟩ := o.moves hnodup hoperation
    · exact hafter ▸ hmoves.nodup hnodup
    · rw [hafter]
      exact List.nodup_nil
  · obtain ⟨s, a⟩ := o
    cases a with
    | revise later =>
      have hkeys : (s.reviseCustom later).keys = s.keys := List.map_map
      exact hkeys ▸ hnodup
    | refer | delegateTo | arm => exact hnodup
    | put | get | uncache | uncacheLike | sweep | drain => exact absurd rfl hoperation

/-- An operation that returned left no entry untold. -/
theorem untold_of_returned {o : Occasion V} (h : o.returned) : o.untold = 0 := by
  obtain ⟨s, a⟩ := o
  cases a with
  | drain t => exact Store.untold_of_returned (Ran.returned_of_andThen h)
  | _ => rfl

/-- An operation that returned moved the store. -/
theorem moves_of_returned {o : Occasion V} (hnodup : o.before.keys.Nodup) (hoperation : o.isOperation)
    (hreturned : o.returned) : Store.Moves true o.entered o.before o.after := by
  obtain ⟨s₁, hmoves, ⟨hafter, -⟩ | ⟨hafter, huntold⟩⟩ := moves hnodup hoperation
  · rw [hafter, ← hreturned]
    exact hmoves
  · have hsize : s₁.size = 0 := huntold.symm.trans (untold_of_returned hreturned)
    have hsame : s₁.emptied = s₁ := by rw [Store.emptied, ← List.length_eq_zero_iff.mp hsize]
    rw [hafter, hsame, ← hreturned]
    exact hmoves

end Occasion

end TimedCache
