import TimedCache.Proofs.Admin.Effects
import TimedCache.Proofs.Durations
import TimedCache.Proofs.Store.Regardless

/-!
# Lifetimes of any length

An entry with a lifetime ought to last for as many milliseconds as there are in it, or up to the largest
word if that comes first. It does so if one word can count its milliseconds, which takes it some 584
million years ahead; a longer lifetime counts by its low 64 bits, and may be over at once. Of two entries
made at the same time, one whose lifetime is honoured never goes before one with a shorter lifetime. A
value that is submitted gets the lifetime in seconds that came with it, however long that is.
-/

namespace TimedCache

variable {V : Type} {now : Timestamp} {ttl shorter : Duration}

/-- The last instant of a lifetime that starts now, as far as a word can tell. -/
def Duration.lastFrom (ttl : Duration) (now : Timestamp) : Timestamp :=
  min (now + ttl.millis) Word.largest

/-- A sum is capped exactly if it comes up to the largest word. -/
theorem Word.addCapped_eq_largest_iff {a b : Nat} : addCapped a b = largest ↔ largest ≤ a + b := by
  rw [addCapped]
  omega

/-- A capped sum grows with what is added. -/
theorem Word.addCapped_le_addCapped {a b b' : Nat} (h : b ≤ b') : addCapped a b ≤ addCapped a b' := by
  rw [addCapped, addCapped]
  omega

theorem expiryOf_of_limited (h : ttl.isZero = false) :
    expiryOf now ttl = some (Word.addCapped now ttl.wordMillis) := if_neg (Bool.eq_false_iff.mp h)

/-- The low 64 bits of a lifetime do for all of it if there is nothing above them, or if they reach the
largest word already. -/
theorem expiryOf_eq_lastFrom_iff (h : ttl.isZero = false) :
    expiryOf now ttl = some (ttl.lastFrom now)
      ↔ ttl.millis < Word.bound ∨ Word.largest ≤ now + ttl.wordMillis := by
  rw [expiryOf_of_limited h, Option.some.injEq, Duration.lastFrom]
  by_cases hcounted : ttl.millis < Word.bound
  · rw [Duration.wordMillis_of_lt hcounted]
    exact iff_of_true rfl (.inl hcounted)
  · have hlargest : Word.largest ≤ now + ttl.millis := by
      rw [Word.largest]
      omega
    rw [Nat.min_eq_right hlargest, or_iff_right hcounted]
    exact Word.addCapped_eq_largest_iff

/-- No lifetime lasts longer than its milliseconds, nor longer than the largest word. -/
theorem le_lastFrom_of_expiryOf {limit : Timestamp} (h : expiryOf now ttl = some limit) :
    limit ≤ ttl.lastFrom now := by
  cases hzero : ttl.isZero with
  | true =>
    rw [expiryOf, if_pos hzero] at h
    cases h
  | false =>
    rw [expiryOf_of_limited hzero, Option.some.injEq] at h
    rw [← h]
    exact Word.addCapped_le_addCapped ttl.wordMillis_le

/-- A longer lifetime has the later last instant. -/
theorem Duration.lastFrom_mono (h : shorter ≤ ttl) (now : Timestamp) :
    shorter.lastFrom now ≤ ttl.lastFrom now :=
  Word.addCapped_le_addCapped (millis_mono h)

/-- An entry with an expiration time is expired from the millisecond after on. -/
theorem TimedEntry.isTimeExpired_iff {e : TimedEntry V} {limit t : Timestamp}
    (h : e.expiresAt = some limit) : e.isTimeExpired t ↔ limit < t := by
  rw [isTimeExpired, h]
  exact decide_eq_true_iff

namespace Admin.App

/-- What is made of a result does not decide whether there is one. -/
theorem isOk_map {ε α β : Type} (f : α → β) (result : Except ε α) : (result.map f).isOk = result.isOk := by
  cases result <;> rfl

/-- A request to store a value that is fit to be stored puts the entry that is made of it under its key, if
no hook panics. -/
theorem find?_serve_set {app : App} {r : Request} {record : SetRequest}
    (hdemand : r.demand? = some (.set record)) (hfit : record.unfit? = none)
    (hreturned : (app.serve r).returned) :
    (app.serve r).state.cache.store.find? record.key = some (.timed (app.entryFor record)) := by
  obtain ⟨hstate, hresult⟩ := serve_of_demand app hdemand
  obtain ⟨hstore, hput⟩ := set_of_fit app hfit
  rw [Ran.returned, hresult, isOk_map, meet, hput, isOk_map] at hreturned
  rw [hstate, meet, hstore]
  exact Store.find?_of_put hreturned

/-- An entry with a lifetime lasts up to the instant that its lifetime allows exactly if the milliseconds
of the lifetime are below `2 ^ 64`, or if their low 64 bits reach the largest word already. Then it is
expired from the next millisecond on and not before, and no entry made at the same time with a shorter
lifetime is left when it is. An entry of this kind is what a request to store a value leaves under the
key, with the seconds that the request gives or else those of the interface. -/
theorem lifetimes_honoured (now : Timestamp) (key : String) (holder : Holder V) {ttl : Duration}
    (hlimited : ttl.isZero = false) :
    let e := TimedEntry.create now key holder ttl
    (e.expiresAt = some (ttl.lastFrom now)
      ↔ ttl.millis < Word.bound ∨ Word.largest ≤ now + ttl.wordMillis)
    ∧ (e.expiresAt = some (ttl.lastFrom now) →
      (∀ t, e.isTimeExpired t ↔ ttl.lastFrom now < t)
      ∧ ∀ shorter ≤ ttl, shorter.isZero = false → ∀ (key' : String) (holder' : Holder V) (t : Timestamp),
        e.isTimeExpired t → (TimedEntry.create now key' holder' shorter).isTimeExpired t)
    ∧ ∀ (app : App) (r : Request) (record : SetRequest), r.demand? = some (.set record) →
      record.unfit? = none → (app.serve r).returned → app.cache.wall.stamp = now →
      .ofSeconds (record.ttl.getD app.defaultTtl) = ttl →
      ∃ cell, cell.value = record.value ∧ (app.serve r).state.cache.store.find? record.key
        = some (.timed (.create now record.key (.strong cell) ttl)) := by
  intro e
  refine ⟨expiryOf_eq_lastFrom_iff hlimited, fun hlast => ⟨fun t => TimedEntry.isTimeExpired_iff hlast, ?_⟩, ?_⟩
  · intro shorter hshorter hpositive key' holder' t hover
    have hends : (TimedEntry.create now key' holder' shorter).expiresAt
        = some (Word.addCapped now shorter.wordMillis) := expiryOf_of_limited hpositive
    refine (TimedEntry.isTimeExpired_iff hends).mpr ?_
    calc Word.addCapped now shorter.wordMillis
        ≤ shorter.lastFrom now := le_lastFrom_of_expiryOf hends
      _ ≤ ttl.lastFrom now := Duration.lastFrom_mono hshorter now
      _ < t := (TimedEntry.isTimeExpired_iff hlast).mp hover
  · rintro app r record hdemand hfit hreturned rfl rfl
    exact ⟨_, rfl, find?_serve_set hdemand hfit hreturned⟩

/-- A lifetime that was submitted with a value: the most seconds whose milliseconds a word can count. -/
def longestSubmission : Request :=
  { method := .put, target := "/set", headers := [("content-type", "application/json")]
    body := "\x7b\"key\":\"k\",\"value\":\"x\",\"ttl\":18446744073709551\x7d".toUTF8.toList }

/-- The longest lifetime that can be submitted and is honoured: its value is there in its last millisecond,
and not in the next. -/
theorem lifetimes_honoured_longest :
    let ttl := Duration.ofSeconds 18446744073709551
    ttl.isZero = false ∧ ∃ e : TimedEntry String,
      ((opened {} false { link := .connected } 0 none 300).serve longestSubmission).state.cache.store.find? "k"
        = some (.timed e)
      ∧ ¬ e.isTimeExpired 18446744073709551000 ∧ e.isTimeExpired 18446744073709551001 := by
  intro ttl
  have hlimited : ttl.isZero = false := by decide
  have hdemand : longestSubmission.demand? = some (.set ⟨"k", "x", some 18446744073709551⟩) := by
    decide +kernel
  have hfit : (SetRequest.mk "k" "x" (some 18446744073709551)).unfit? = none := by decide +kernel
  have hreturned : ((opened {} false { link := .connected } 0 none 300).serve longestSubmission).returned := by
    decide +kernel
  obtain ⟨cell, -, hfound⟩ := (lifetimes_honoured 0 "k" (.strong ⟨0, "x"⟩) hlimited).2.2
    (opened {} false { link := .connected } 0 none 300) _ _ hdemand hfit hreturned rfl rfl
  obtain ⟨hhonoured, hexpired, -⟩ := lifetimes_honoured 0 "k" (.strong cell) hlimited
  have hover := (hexpired (hhonoured.mpr (.inl (by decide)))).1
  refine ⟨hlimited, _, hfound, fun hearly => ?_, (hover _).mpr (by decide)⟩
  exact absurd ((hover _).mp hearly) (by decide)

/-- One second more, and the value is gone after 384 milliseconds, before one that was stored for a second. -/
theorem long_lifetime_cut_short :
    let long := TimedEntry.create 0 "k" (.strong ⟨0, "x"⟩) (.ofSeconds 18446744073709552)
    let short := TimedEntry.create 0 "k" (.strong ⟨0, "x"⟩) (.ofSeconds 1)
    long.expiresAt = some 384 ∧ (Duration.ofSeconds 18446744073709552).lastFrom 0 = Word.largest
      ∧ Duration.ofSeconds 1 ≤ .ofSeconds 18446744073709552
      ∧ long.isTimeExpired 385 ∧ ¬ short.isTimeExpired 385 := by
  decide

end Admin.App

end TimedCache
