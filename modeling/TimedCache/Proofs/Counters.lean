import Mathlib.Logic.Function.Conjugate
import Mathlib.Logic.Function.Iterate
import TimedCache.Stats

/-!
# How counters change

Operations adjust the counters of a store and note its size now and then. Adjustments that have no
regard to the size can be collected, so only the last note matters. Two stores that are used alike
agree on puts, hits, misses and the latest touch, however many expirations each has counted.
-/

namespace TimedCache.Stats

/-- Noting a number of entries that was seen before leaves no trace in a later note. -/
theorem observeSize_observeSize {st : Stats} {m : Nat} (h : m ≤ st.watermark) (n : Nat) :
    (st.observeSize m).observeSize n = st.observeSize n := by
  simp only [observeSize, Nat.max_eq_left h]

/-- Noting the number that is known already changes nothing. -/
theorem observeSize_self {st : Stats} (h : st.totalEntries ≤ st.watermark) :
    st.observeSize st.totalEntries = st := by
  simp only [observeSize, Nat.max_eq_left h]

/-- Counters that are adjusted without regard to the number of entries. -/
def Sizeless (adjust : Stats → Stats) : Prop :=
  ∀ n, Function.Commute adjust (observeSize n)

theorem sizeless_id : Sizeless id := fun _ _ => rfl

theorem sizeless_recordExpiration : Sizeless recordExpiration := fun _ _ => rfl

theorem sizeless_touch (now : Timestamp) : Sizeless (touch now) := fun _ _ => rfl

theorem sizeless_recordPut : Sizeless recordPut := fun _ _ => rfl

theorem sizeless_recordHit : Sizeless recordHit := fun _ _ => rfl

theorem sizeless_recordMiss : Sizeless recordMiss := fun _ _ => rfl

/-- Adjusting the counters several times over is no more than an adjustment. -/
theorem Sizeless.iterate {adjust : Stats → Stats} (h : Sizeless adjust) (k : Nat) :
    Sizeless adjust^[k] := fun n => (h n).iterate_left k

/-- Two adjustments with a note of a size between them need the later note only. -/
theorem Sizeless.note_between {first second : Stats → Stats} (hfirst : Sizeless first)
    (hsecond : Sizeless second) {st : Stats} {m : Nat} (h : m ≤ st.watermark) (n : Nat) :
    (second ((first st).observeSize m)).observeSize n = (second (first st)).observeSize n := by
  calc
    (second ((first st).observeSize m)).observeSize n
        = (second (first ((st.observeSize m).observeSize n))) := by
      rw [← (hfirst m).eq, ← (hsecond n).eq, ← (hfirst n).eq]
    _ = (second (first st)).observeSize n := by
      rw [observeSize_observeSize h, (hfirst n).eq, (hsecond n).eq]

/-- The counters agree on the uses of a store: puts, hits, misses and the latest touch. -/
structure SameUse (st st' : Stats) : Prop where
  puts : st.puts = st'.puts
  hits : st.hits = st'.hits
  misses : st.misses = st'.misses
  lastTouch : st.lastTouch = st'.lastTouch

namespace SameUse

variable {st st' : Stats} (h : SameUse st st')
include h

theorem touch (now : Timestamp) : SameUse (st.touch now) (st'.touch now) :=
  ⟨h.puts, h.hits, h.misses, rfl⟩

theorem recordPut : SameUse st.recordPut st'.recordPut :=
  ⟨congrArg (fun n => Word.wrap (n + 1)) h.puts, h.hits, h.misses, h.lastTouch⟩

theorem recordHit : SameUse st.recordHit st'.recordHit :=
  ⟨h.puts, congrArg (fun n => Word.wrap (n + 1)) h.hits, h.misses, h.lastTouch⟩

theorem recordMiss : SameUse st.recordMiss st'.recordMiss :=
  ⟨h.puts, h.hits, congrArg (fun n => Word.wrap (n + 1)) h.misses, h.lastTouch⟩

theorem recordExpiration : SameUse st.recordExpiration st'.recordExpiration :=
  ⟨h.puts, h.hits, h.misses, h.lastTouch⟩

theorem trans {st'' : Stats} (h' : SameUse st' st'') : SameUse st st'' :=
  ⟨h.puts.trans h'.puts, h.hits.trans h'.hits, h.misses.trans h'.misses,
    h.lastTouch.trans h'.lastTouch⟩

theorem symm : SameUse st' st := ⟨h.puts.symm, h.hits.symm, h.misses.symm, h.lastTouch.symm⟩

theorem observeSize (count count' : Nat) : SameUse (st.observeSize count) (st'.observeSize count') :=
  ⟨h.puts, h.hits, h.misses, h.lastTouch⟩

end SameUse

/-- However many expirations are counted, the uses stay the same. -/
theorem sameUse_iterate (k : Nat) (st : Stats) : SameUse (recordExpiration^[k] st) st := by
  induction k with
  | zero => exact ⟨rfl, rfl, rfl, rfl⟩
  | succ k ih =>
    rw [Function.iterate_succ_apply']
    exact ⟨ih.puts, ih.hits, ih.misses, ih.lastTouch⟩

/-- An adjustment adds so much to one of the counters. -/
def Adds (counter : Stats → Nat) (k : Nat) (adjust : Stats → Stats) : Prop :=
  ∀ st n, counter st = Word.wrap n → counter (adjust st) = Word.wrap (n + k)

namespace Adds

variable {counter : Stats → Nat} {adjust first second : Stats → Stats} {k k' : Nat}

/-- A counter that stays the same has nothing added. -/
theorem zero (h : ∀ st, counter (adjust st) = counter st) : Adds counter 0 adjust :=
  fun st _ hn => (h st).trans hn

/-- A counter that is raised by one has one added. -/
theorem one (h : ∀ st, counter (adjust st) = Word.wrap (counter st + 1)) : Adds counter 1 adjust := by
  intro st n hn
  rw [h, hn, Word.wrap, Word.wrap, Word.wrap, Nat.mod_add_mod]

/-- Adjustments one after the other add what they add together. -/
theorem comp (hfirst : Adds counter k first) (hsecond : Adds counter k' second) :
    Adds counter (k + k') (second ∘ first) := by
  intro st n hn
  rw [← Nat.add_assoc]
  exact hsecond _ _ (hfirst st n hn)

end Adds

/-- What an adjustment adds to the counters; it does not touch the watermark. -/
structure Counts (hits misses puts expirations : Nat) (adjust : Stats → Stats) : Prop where
  hits : Adds Stats.hits hits adjust
  misses : Adds Stats.misses misses adjust
  puts : Adds Stats.puts puts adjust
  expirations : Adds Stats.expirations expirations adjust
  watermark : ∀ st, (adjust st).watermark = st.watermark

theorem counts_id : Counts 0 0 0 0 id :=
  ⟨.zero fun _ => rfl, .zero fun _ => rfl, .zero fun _ => rfl, .zero fun _ => rfl, fun _ => rfl⟩

theorem counts_touch (now : Timestamp) : Counts 0 0 0 0 (touch now) :=
  ⟨.zero fun _ => rfl, .zero fun _ => rfl, .zero fun _ => rfl, .zero fun _ => rfl, fun _ => rfl⟩

theorem counts_recordHit : Counts 1 0 0 0 recordHit :=
  ⟨.one fun _ => rfl, .zero fun _ => rfl, .zero fun _ => rfl, .zero fun _ => rfl, fun _ => rfl⟩

theorem counts_recordMiss : Counts 0 1 0 0 recordMiss :=
  ⟨.zero fun _ => rfl, .one fun _ => rfl, .zero fun _ => rfl, .zero fun _ => rfl, fun _ => rfl⟩

theorem counts_recordPut : Counts 0 0 1 0 recordPut :=
  ⟨.zero fun _ => rfl, .zero fun _ => rfl, .one fun _ => rfl, .zero fun _ => rfl, fun _ => rfl⟩

theorem counts_recordExpiration : Counts 0 0 0 1 recordExpiration :=
  ⟨.zero fun _ => rfl, .zero fun _ => rfl, .zero fun _ => rfl, .one fun _ => rfl, fun _ => rfl⟩

/-- Adjustments one after the other count what they count together. -/
theorem Counts.comp {hits misses puts expirations hits' misses' puts' expirations' : Nat}
    {first second : Stats → Stats} (hfirst : Counts hits misses puts expirations first)
    (hsecond : Counts hits' misses' puts' expirations' second) :
    Counts (hits + hits') (misses + misses') (puts + puts') (expirations + expirations')
      (second ∘ first) where
  hits := hfirst.hits.comp hsecond.hits
  misses := hfirst.misses.comp hsecond.misses
  puts := hfirst.puts.comp hsecond.puts
  expirations := hfirst.expirations.comp hsecond.expirations
  watermark st := (hsecond.watermark _).trans (hfirst.watermark st)

/-- So many expirations are counted as so many. -/
theorem counts_iterate (k : Nat) : Counts 0 0 0 k recordExpiration^[k] := by
  induction k with
  | zero => exact counts_id
  | succ k ih =>
    rw [Function.iterate_succ']
    exact ih.comp counts_recordExpiration

/-- An adjustment counts some expirations and does not raise the watermark. -/
structure Expires (expired : Nat) (adjust : Stats → Stats) : Prop where
  watermark : ∀ st, (adjust st).watermark = st.watermark
  expirations : Adds Stats.expirations expired adjust

theorem Counts.expires {hits misses puts expired : Nat} {adjust : Stats → Stats}
    (h : Counts hits misses puts expired adjust) : Expires expired adjust :=
  ⟨h.watermark, h.expirations⟩

/-- Adjustments of other counters count no expiration. -/
theorem expires_zero {adjust : Stats → Stats} (hwatermark : ∀ st, (adjust st).watermark = st.watermark)
    (hexpirations : ∀ st, (adjust st).expirations = st.expirations) : Expires 0 adjust :=
  ⟨hwatermark, .zero hexpirations⟩

/-- So many expirations are counted as so many. -/
theorem expires_iterate (k : Nat) : Expires k recordExpiration^[k] := (counts_iterate k).expires

/-- A look-up that removes what it finds counts one expiration and one miss. -/
theorem counts_expire (now : Timestamp) :
    Counts 0 1 0 1 (recordMiss ∘ recordExpiration ∘ touch now) :=
  ((counts_touch now).comp counts_recordExpiration).comp counts_recordMiss

/-- A look-up that removes what it finds counts one expiration. -/
theorem expires_expire (now : Timestamp) : Expires 1 (recordMiss ∘ recordExpiration ∘ touch now) :=
  (counts_expire now).expires

end TimedCache.Stats
