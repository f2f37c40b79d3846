import TimedCache.Proofs.Session.Plain
import TimedCache.Proofs.Store.Standing

/-!
# What a look-up answers

A look-up at the end of a run answers with the value of the entry that stands under the key, if
that has not expired and its holder resolves, and with nothing otherwise. Which entry stands is
read off the history of the run, whatever the clock did.
-/

namespace TimedCache

variable {V : Type}

namespace Session

/-- A look-up that returned answers with the value that it found. -/
theorem get_answer {s : Session V} {key : String} {found : Option (Cell V)}
    (h : (s.cache.get key).result = .ok found) (keep : Option Name) :
    (s.get key keep).2 = .value (found.map Cell.value) := by
  rw [get, h]
  cases found with
  | none => rfl
  | some cell => cases keep <;> rfl

/-- A look-up in a calm session answers with the value of a live entry under the key, if there is
one. -/
theorem get_reply {s : Session V} (hs : s.cache.store.Calm) (key : String) (keep : Option Name) :
    (s.step (.get key keep)).2 = .value ((((s.cache.store.find? key).filter
      (Entry.isLive s.moment s.now)).bind (Entry.cell s.moment)).map Cell.value) := by
  refine get_answer ?_ keep
  exact (Cache.touching_result _ _).trans (hs.get_result s.cache.wall key)

/-- A new session has a calm store. -/
theorem opened_calm (settings : Settings) (hosted : Bool) (host : Host) (wall : WallTime) :
    (opened settings hosted host wall : Session V).cache.store.Calm := Store.createdAt_calm wall

/-- An entry can be served exactly if its time is not over and its holder resolves. -/
theorem not_isOver_iff {e : TimedEntry V} {m : Moment V} {now : Timestamp} : ¬ e.IsOver m now
    ↔ (∀ limit, e.expiresAt = some limit → now ≤ limit) ∧ ∃ cell, e.holder.resolve m = some cell := by
  rw [TimedEntry.IsOver, not_or, ← Option.isSome_iff_exists, Option.isSome_iff_ne_none]
  refine and_congr_left fun _ => ?_
  constructor
  · exact fun h limit hlimit => Nat.le_of_not_lt fun hlt => h ⟨limit, hlimit, hlt⟩
  · exact fun h ⟨limit, hlimit, hlt⟩ => Nat.not_lt_of_le (h limit hlimit) hlt

/-- After any plain commands, whatever the clock did, a look-up answers with a value exactly if an
entry that was put under the key still stands, has not expired and resolves to that value; and it
answers with nothing otherwise. -/
theorem get_answers_standing (settings : Settings) (hosted : Bool) (host : Host) (wall : WallTime)
    {commands : List (Command V)} (hcommands : ∀ c ∈ commands, c.isPlain) (key : String)
    (keep : Option Name) :
    let start : Session V := opened settings hosted host wall
    let s := start.run commands
    let reply := (s.step (.get key keep)).2
    (∀ v, reply = .value (some v) ↔ ∃ e, Stands (start.history commands) key e
      ∧ (∀ limit, e.expiresAt = some limit → s.now ≤ limit)
      ∧ ∃ cell, e.holder.resolve s.moment = some cell ∧ cell.value = v)
    ∧ ((∀ v, reply ≠ .value (some v)) → reply = .value none) := by
  intro start s reply
  have hstart : start.cache.store.Calm := opened_calm settings hosted host wall
  have hscript : ∀ a ∈ start.script commands, a.isPlain := fun _ => isPlain_of_mem_script hcommands
  have hstore : s.cache.store = start.cache.store.follow (start.script commands) :=
    start.run_store commands
  have hcalm : s.cache.store.Calm := run_calm hstart hcommands
  have hholds : ∀ e, s.cache.store.Holds key e
      ↔ ∃ accessedAt, Stands (start.history commands) key { e with accessedAt } :=
    fun e => hstore ▸ hstart.holds_follow_iff rfl hscript
  have htimed : s.cache.store.AllTimed :=
    hstore ▸ hstart.follow_allTimed (fun _ _ h => nomatch h) hscript
  have hreply := get_reply hcalm key keep
  refine ⟨fun v => ⟨fun hv => ?_, ?_⟩, fun hnone => ?_⟩
  · have hfound := Reply.value.inj (hreply.symm.trans hv)
    obtain ⟨cell, hbind, rfl⟩ := Option.map_eq_some_iff.mp hfound
    obtain ⟨x, hx, hcell⟩ := Option.bind_eq_some_iff.mp hbind
    obtain ⟨hfind, hlive⟩ := Option.filter_eq_some_iff.mp hx
    obtain ⟨e, he⟩ := htimed key x hfind
    obtain ⟨accessedAt, hstands⟩ := (hholds e).mp ⟨x, hfind, he⟩
    have hserved := not_isOver_iff.mp ((he.isLive_iff _ _).mp hlive)
    exact ⟨_, hstands, hserved.1, cell, he.cell_eq s.moment ▸ hcell, rfl⟩
  · rintro ⟨e, hstands, htime, cell, hcell, rfl⟩
    obtain ⟨x, hfind, he⟩ := (hholds e).mpr ⟨e.accessedAt, hstands⟩
    have hserved : ¬ e.IsOver s.moment s.now := not_isOver_iff.mpr ⟨htime, cell, hcell⟩
    have hlive := (he.isLive_iff s.moment s.now).mpr hserved
    have hx : x.cell s.moment = some cell := he.cell_eq s.moment ▸ hcell
    exact hreply.trans (by rw [hfind, Option.filter_some_pos hlive, Option.bind_some, hx]; rfl)
  · cases hfound : ((((s.cache.store.find? key).filter (Entry.isLive s.moment s.now)).bind
      (Entry.cell s.moment)).map Cell.value) with
    | none => exact hreply.trans (congrArg Reply.value hfound)
    | some v => exact absurd (hreply.trans (congrArg Reply.value hfound)) (hnone v)

/-- A value is stored weakly, the clock goes back, and what is removed is not this entry. -/
def weakRun : List (Command Nat) :=
  [.own "o" 7, .storeHeld "k" (.weakOf "o") (.ofSeconds 1), .skew (-3000), .sweep, .uncache "x"]

/-- The session in which that happens. -/
def weakStart : Session Nat := opened {} true { link := .connected } 5000

/-- A value that is held weakly is found while its owner lives, also after the clock went back. -/
theorem get_answers_standing_weak : (∀ c ∈ weakRun, c.isPlain)
    ∧ ((weakStart.run weakRun).step (.get "k" none)).2 = .value (some 7) := by
  have hplain : ∀ c ∈ weakRun, c.isPlain := by decide
  let e : TimedEntry Nat := .create 5000 "k" (.weak ⟨0, 7⟩) (.ofSeconds 1)
  have hlimit : ∀ limit, e.expiresAt = some limit → 2000 ≤ limit :=
    fun limit h => Option.some.inj h ▸ by decide
  have hstands : Stands (weakStart.history weakRun) "k" e := by
    refine ⟨(weakStart.history weakRun).take 2,
      ⟨weakStart.cache.store.follow ((weakStart.script weakRun).take 2), .put 5000 "k" (.timed e)⟩,
      [⟨(weakStart.run (weakRun.take 3)).cache.store, .sweep 2000⟩,
        ⟨(weakStart.run (weakRun.take 4)).cache.store, .uncache 2000 "x"⟩], rfl, ⟨5000, rfl⟩, ?_⟩
    refine List.forall_mem_cons.mpr ⟨?_, List.forall_mem_singleton.mpr ?_⟩
    · exact not_isOver_iff.mpr ⟨hlimit, ⟨0, 7⟩, rfl⟩
    · exact (by decide : ¬ "x" = "k")
  refine ⟨hplain, ((get_answers_standing {} true _ 5000 hplain "k" none).1 7).mpr ?_⟩
  exact ⟨e, hstands, hlimit, ⟨0, 7⟩, rfl, rfl⟩

end Session

end TimedCache
