import TimedCache.Proofs.Invalidation.Codec
import TimedCache.Proofs.Session.Script
import TimedCache.Proofs.Store.Patterns

/-!
# Datagrams as removals

A listener turns each datagram from which a prefix can be read into a removal by that prefix, and
does nothing about the others. No datagram is read as the empty prefix, so none of them clears the
store. What a listener has done after some datagrams depends on which datagrams they were, but not on
their order, nor on how often they came.
-/

namespace TimedCache

open Store

variable {V : Type}

namespace Datagram

variable {payload : List UInt8} {pattern : String}

/-- The prefix that a listener reads from a datagram, if there is one to read. -/
def pattern? (payload : List UInt8) : Option String :=
  match decode (payload.take capacity) with
  | .ok pattern => pattern
  | .error _ => none

theorem pattern?_eq_some_iff :
    pattern? payload = some pattern ↔ decode (payload.take capacity) = .ok (some pattern) := by
  rw [pattern?]
  cases decode (payload.take capacity) <;> simp

/-- No datagram is read as the empty prefix. -/
theorem pattern?_ne_empty (h : pattern? payload = some pattern) : pattern ≠ "" :=
  (portable_of_decode (pattern?_eq_some_iff.mp h)).1.nonempty

/-- A payload that was written for a prefix is short enough, and is read as that prefix. -/
theorem pattern?_of_encode (h : encode pattern = .ok payload) : pattern? payload = some pattern := by
  obtain ⟨hportable, hfits, rfl⟩ := (encode_eq_ok_iff pattern payload).mp h
  have hlength : (asciiBytes pattern).length ≤ capacity := by
    rw [asciiBytes, List.length_map, ← utf8ByteSize_of_ascii hportable.ascii]
    exact hfits
  rw [pattern?_eq_some_iff, List.take_of_length_le hlength]
  exact decode_asciiBytes hportable

/-- A datagram that a sender has sent is read as the prefix that it was sent for. -/
theorem pattern?_of_send {sender : Sender} {host : Host} (h : sender.send host pattern = .ok payload) :
    pattern? payload = some pattern := by
  apply pattern?_of_encode
  rw [Sender.send] at h
  cases hencode : encode pattern with
  | error fault =>
    rw [hencode] at h
    cases h
  | ok bytes =>
    rw [hencode] at h
    dsimp only at h
    split at h
    · cases h
    · exact h

end Datagram

/-- A datagram is a removal by the prefix that is read from it, if one is. -/
theorem Action.ofDatagram_eq (t : WallTime) (payload : List UInt8) : (Action.ofDatagram t payload
    : List (Action V)) = ((Datagram.pattern? payload).map (Action.uncacheLike t)).toList := by
  rw [ofDatagram, Datagram.pattern?]
  cases Datagram.decode (payload.take Datagram.capacity) with
  | error fault => rfl
  | ok pattern => cases pattern <;> rfl

namespace Session

/-- The application's own listener at work on datagrams, one after the other. -/
def hear (s : Session V) (payloads : List (List UInt8)) : Session V :=
  payloads.foldl (fun s payload => (s.receive payload).1) s

/-- What datagrams do to the store if the listener lives through them. -/
def hearActions (s : Session V) (payloads : List (List UInt8)) : List (Action V) :=
  payloads.flatMap (Action.ofDatagram s.cache.wall)

/-- How many entries the removals by some datagrams say that they took out. -/
def heardRemovals (s : Session V) (payloads : List (List UInt8)) : Nat :=
  ((s.cache.store.history (s.hearActions payloads)).map Occasion.removedLike).sum

section Hear

variable {s : Session V} {payload : List UInt8}

/-- The actions of datagrams are the removals by the prefixes that are read from them. -/
theorem hearActions_eq (s : Session V) (payloads : List (List UInt8)) : s.hearActions payloads
    = (payloads.filterMap Datagram.pattern?).map (Action.uncacheLike s.cache.wall) := by
  induction payloads with
  | nil => rfl
  | cons payload rest ih =>
    rw [hearActions, List.flatMap_cons, Action.ofDatagram_eq, ← hearActions, ih]
    cases hpattern : Datagram.pattern? payload <;> simp [hpattern]

/-- A datagram from which no prefix is read changes nothing. -/
theorem receive_of_pattern?_eq_none (h : Datagram.pattern? payload = none) : (s.receive payload).1 = s := by
  rw [Datagram.pattern?] at h
  rw [receive, Cache.receive]
  split
  · next halive =>
    cases hdecode : Datagram.decode (payload.take Datagram.capacity) with
    | error fault => simp [← halive]
    | ok pattern =>
      rw [hdecode] at h
      cases h
      simp [← halive]
  · rfl

/-- A datagram from which a prefix is read is a removal by that prefix, which the listener survives
exactly if it returns. -/
theorem receive_of_pattern? {pattern : String} (halive : s.listener = some true)
    (h : Datagram.pattern? payload = some pattern) : (s.receive payload).1
      = { cache := (s.cache.uncacheLike pattern).state
          listener := some (s.cache.uncacheLike pattern).returned } := by
  rw [receive, if_pos halive, Cache.receive, Datagram.pattern?_eq_some_iff.mp h]
  cases hreturned : (s.cache.uncacheLike pattern).returned <;> simp [hreturned]

/-- A listener that is dead does not hear anything. -/
theorem hear_of_not_alive (h : s.listener ≠ some true) (payloads : List (List UInt8)) :
    s.hear payloads = s := by
  induction payloads with
  | nil => rfl
  | cons payload rest ih =>
    have hsame : (s.receive payload).1 = s := by rw [receive, if_neg h]
    change (s.receive payload).1.hear rest = s
    rw [hsame]
    exact ih

/-- A listener lives through some datagrams exactly if it was alive and their removals return, and it
does these removals then. -/
theorem hear_alive_iff (s : Session V) (payloads : List (List UInt8)) :
    ((s.hear payloads).listener = some true
      ↔ s.listener = some true ∧ ∀ o ∈ s.cache.store.history (s.hearActions payloads), o.returned)
    ∧ ((s.hear payloads).listener = some true →
      (s.hear payloads).cache.store = s.cache.store.follow (s.hearActions payloads)) := by
  induction payloads generalizing s with
  | nil => exact ⟨⟨fun h => ⟨h, fun _ ho => (nomatch ho)⟩, And.left⟩, fun _ => rfl⟩
  | cons payload rest ih =>
    by_cases halive : s.listener = some true
    · rw [hearActions, List.flatMap_cons, Action.ofDatagram_eq, ← hearActions]
      change (((s.receive payload).1.hear rest).listener = some true ↔ _)
        ∧ (((s.receive payload).1.hear rest).listener = some true →
          ((s.receive payload).1.hear rest).cache.store = _)
      cases hpattern : Datagram.pattern? payload with
      | none =>
        rw [receive_of_pattern?_eq_none hpattern]
        exact ih s
      | some pattern =>
        rw [receive_of_pattern? halive hpattern]
        obtain ⟨hiff, hstore⟩ := ih { cache := (s.cache.uncacheLike pattern).state
                                      listener := some (s.cache.uncacheLike pattern).returned }
        refine ⟨hiff.trans ?_, hstore⟩
        rw [Option.some_inj]
        change _ ↔ _ ∧ ∀ o ∈ (⟨s.cache.store, _⟩ :: _ : List (Occasion V)), _
        rw [List.forall_mem_cons]
        exact (and_iff_right halive).symm
    · rw [hear_of_not_alive halive]
      exact ⟨by simp [halive], fun h => absurd h halive⟩

/-- What a listener that lives through some datagrams leaves behind, in a store that is calm but for
alarms. -/
structure Heard (s : Session V) (payloads : List (List UInt8)) : Prop where
  alive : (s.hear payloads).listener = some true
  entries : (s.hear payloads).cache.store.entries = s.cache.store.entries.filter fun p =>
    !startsWithAny (payloads.filterMap Datagram.pattern?) p.1
  stats : (s.hear payloads).cache.store.stats
    = { s.cache.store.stats with totalEntries := (s.hear payloads).cache.store.size }
  removals : s.heardRemovals payloads = (s.cache.store.entries.filter fun p =>
    startsWithAny (payloads.filterMap Datagram.pattern?) p.1).length

/-- A listener that lives through some datagrams takes out the entries whose keys start with one of
the prefixes that are read from them, and nothing else changes but the noted size. -/
theorem heard_of_alive (hs : s.cache.store.muted.Calm) {payloads : List (List UInt8)}
    (halive : (s.hear payloads).listener = some true) : s.Heard payloads := by
  obtain ⟨hiff, hstore⟩ := s.hear_alive_iff payloads
  obtain ⟨-, hreturned⟩ := hiff.mp halive
  have hafter := hstore halive
  rw [hearActions_eq] at hreturned hafter
  obtain ⟨log, hfollow⟩ := follow_uncacheLike hs hreturned
  rw [hfollow] at hafter
  refine ⟨halive, by rw [hafter, turned_entries], ?_, ?_⟩
  · have hbound : (s.cache.store.entries.filter fun p =>
        !startsWithAny (payloads.filterMap Datagram.pattern?) p.1).length
        ≤ s.cache.store.stats.watermark := Nat.le_trans (List.length_filter_le _ _) hs.bounded
    rw [hafter]
    simp only [turned, Stats.observeSize, size, id_eq, Nat.max_eq_left hbound]
  · rw [heardRemovals, hearActions_eq]
    exact sum_removedLike hs hreturned

/-- Which keys start with a prefix that is read from some datagrams depends on no more than which
datagrams these are. -/
theorem startsWithAny_congr {payloads payloads' : List (List UInt8)}
    (h : ∀ payload, payload ∈ payloads' ↔ payload ∈ payloads) (key : String) :
    startsWithAny (payloads'.filterMap Datagram.pattern?) key
      = startsWithAny (payloads.filterMap Datagram.pattern?) key := by
  rw [startsWithAny, startsWithAny, Bool.eq_iff_iff]
  simp only [List.any_eq_true, List.mem_filterMap, h]

/-- A listener that is alive lives through some datagrams exactly if no alarm waits for an entry whose
key starts with one of the prefixes that are read from them. -/
theorem survives_iff (hs : s.cache.store.muted.Calm) (halive : s.listener = some true)
    (payloads : List (List UInt8)) : (s.hear payloads).listener = some true
      ↔ ∀ p ∈ s.cache.store.entries, startsWithAny (payloads.filterMap Datagram.pattern?) p.1 →
        s.cache.store.Unalarmed p.1 p.2 := by
  rw [(s.hear_alive_iff payloads).1, hearActions_eq, history_uncacheLike_returned_iff hs]
  exact and_iff_right halive

/-- Whoever listens for a sweeper does to the store what the application's own listener does. -/
theorem deliverTo_store_eq (halive : s.listener = some true) (payload : List UInt8) (listener : Nat) :
    (s.cache.deliverTo payload listener).1.store = (s.receive payload).1.cache.store := by
  rw [(s.cache.deliverTo_store payload listener).1, receive_store, receiveActions, if_pos halive]

/-- A listener that is alive does with a datagram that was sent for a prefix what the removal by that
prefix does. -/
theorem receive_of_send (halive : s.listener = some true) {sender : Sender} {host : Host}
    {pattern : String} (h : sender.send host pattern = .ok payload) :
    (s.receive payload).1.cache = (s.cache.uncacheLike pattern).state := by
  rw [receive_of_pattern? halive (Datagram.pattern?_of_send h)]

end Hear

/-- In whatever state commands in which no hook panicked have left a session, a listener that is alive
lives through some datagrams exactly if no alarm waits for an entry that they take out. Then it leaves
exactly the entries whose keys start with none of the prefixes that are read from the datagrams, and
changes no counter but the noted size; another order of the datagrams and repetitions leave the same
entries and take out as many. No prefix is empty, and a datagram without one changes nothing. A datagram
that was sent for a prefix does what a removal by that prefix does, and a listener of the sweeper does
the same. -/
theorem datagrams_remove (settings : Settings) (hosted : Bool) (host : Host) (wall : WallTime)
    (commands : List (Command V)) (payloads : List (List UInt8)) :
    let start : Session V := opened settings hosted host wall
    let s := start.run commands
    (∀ o ∈ start.history commands, o.returned) → s.listener = some true →
      ((s.hear payloads).listener = some true
        ↔ ∀ p ∈ s.cache.store.entries, startsWithAny (payloads.filterMap Datagram.pattern?) p.1 →
          s.cache.store.Unalarmed p.1 p.2)
      ∧ ((s.hear payloads).listener = some true → s.Heard payloads
        ∧ ∀ payloads', (∀ payload, payload ∈ payloads' ↔ payload ∈ payloads) →
          s.Heard payloads'
            ∧ (s.hear payloads').cache.store.entries = (s.hear payloads).cache.store.entries
            ∧ s.heardRemovals payloads' = s.heardRemovals payloads)
      ∧ (∀ payload pattern, Datagram.pattern? payload = some pattern → pattern ≠ "")
      ∧ (∀ payload, Datagram.pattern? payload = none → (s.receive payload).1 = s)
      ∧ (∀ (sender : Sender) (sending : Host) pattern payload,
        sender.send sending pattern = .ok payload →
          (s.receive payload).1.cache = (s.cache.uncacheLike pattern).state)
      ∧ ∀ payload listener,
        (s.cache.deliverTo payload listener).1.store = (s.receive payload).1.cache.store := by
  intro start s hreturned halive
  have hs : s.cache.store.muted.Calm := by
    have hcalm : start.cache.store.muted.Calm := createdAt_calm wall
    rw [start.run_store]
    exact hcalm.muted_follow hreturned
  have hsurvives := survives_iff hs halive
  refine ⟨hsurvives payloads, fun hthrough => ?_, fun _ _ => Datagram.pattern?_ne_empty,
    fun _ => receive_of_pattern?_eq_none, fun _ _ _ _ => receive_of_send halive, deliverTo_store_eq halive⟩
  have hheard := heard_of_alive hs hthrough
  refine ⟨hheard, fun payloads' hsame => ?_⟩
  have hthrough' : (s.hear payloads').listener = some true := by
    rw [hsurvives]
    simpa only [startsWithAny_congr hsame] using (hsurvives payloads).mp hthrough
  have hheard' := heard_of_alive hs hthrough'
  refine ⟨hheard', ?_, ?_⟩
  · simp only [hheard.entries, hheard'.entries, startsWithAny_congr hsame]
  · simp only [hheard.removals, hheard'.removals, startsWithAny_congr hsame]

/-- Four entries, and a listener. -/
def listeningRun : List (Command Nat) :=
  [.store "ab" 1 (.ofSeconds 9) (some "l"), .store "abc" 2 (.ofSeconds 9) none,
    .store "b" 3 (.ofSeconds 9) none, .store "c" 4 (.ofSeconds 9) none, .get "b" none,
    .arm ⟨"l", .cached, none⟩, .listen]

/-- The session after that. -/
def listening : Session Nat := (opened {} true { link := .connected } 0).run listeningRun

/-- Overlapping prefixes, one of them with a line end, a byte that is not ASCII, and no prefix at all. -/
def mixedPayloads : List (List UInt8) :=
  [[97, 98, 13, 10], [255], [97, 98, 99], [], [10, 0], [99]]

/-- Of four entries, a listener removes the three whose keys start with a prefix, and again so in the
opposite order and with a datagram repeated. -/
theorem datagrams_remove_mixed :
    (listening.hear mixedPayloads).listener = some true
      ∧ listening.cache.store.keys = ["ab", "abc", "b", "c"]
      ∧ (listening.hear mixedPayloads).cache.store.keys = ["b"]
      ∧ listening.Heard ([99] :: mixedPayloads.reverse)
      ∧ (listening.hear ([99] :: mixedPayloads.reverse)).cache.store.entries
        = (listening.hear mixedPayloads).cache.store.entries
      ∧ listening.heardRemovals ([99] :: mixedPayloads.reverse)
        = listening.heardRemovals mixedPayloads := by
  have hreturned : ∀ o ∈ (opened {} true { link := .connected } 0).history listeningRun, o.returned := by
    decide +kernel
  have hthrough : (listening.hear mixedPayloads).listener = some true := by decide +kernel
  have hsame : ∀ payload, payload ∈ [99] :: mixedPayloads.reverse ↔ payload ∈ mixedPayloads := by
    intro payload
    rw [List.mem_cons, List.mem_reverse]
    exact or_iff_right_of_imp fun h => h ▸ by decide
  obtain ⟨-, hheard, -⟩ := datagrams_remove {} true { link := .connected } 0 listeningRun
    mixedPayloads hreturned (by decide +kernel)
  refine ⟨hthrough, by decide +kernel, by decide +kernel, ?_⟩
  rw [listening]
  exact (hheard hthrough).2 _ hsame

end Session

end TimedCache
